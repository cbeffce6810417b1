import GrammarCheck.Toml.Value

namespace GrammarCheck.Toml

def isSpace (c : Char) : Bool := c == ' ' || c == '\t'

def isIllegal (c : Char) : Bool := (c.toNat < 0x20 && c != '\t') || c.toNat == 0x7f

def skipSpace (t : Text) : Text := t.dropWhile isSpace

def endLine (t : Text) : Option Text :=
  match skipSpace t with
  | '#' :: rest =>
    let comment := rest.takeWhile (· != '\n')
    if comment.any isIllegal then none else some (rest.drop (comment.length + 1))
  | '\n' :: rest => some rest
  | [] => some []
  | _ => none

def skipFiller (inComment : Bool) : Text → Option Text
  | [] => some []
  | c :: rest =>
    if inComment then
      if c == '\n' then skipFiller false rest
      else if isIllegal c then none
      else skipFiller true rest
    else if isSpace c || c == '\n' then skipFiller false rest
    else if c == '#' then skipFiller true rest
    else some (c :: rest)

def literalString (t : Text) : Option (Text × Text) :=
  let body := t.takeWhile (· != '\'')
  match t.drop body.length with
  | [] => none
  | _ :: rest => if body.any isIllegal then none else some (body, rest)

def literalLines : Text → Option (Text × Text)
  | [] => none
  | c :: rest =>
    if ['\'', '\'', '\''].isPrefixOf (c :: rest) then some ([], rest.drop 2)
    else if isIllegal c && c != '\n' then none
    else (literalLines rest).map fun (body, rest) => (c :: body, rest)

def scalar? (digits : Text) : Option Char :=
  let value := fun (c : Char) =>
    if c.isDigit then some (c.toNat - 48)
    else if 'a' ≤ c && c ≤ 'f' then some (c.toNat - 87)
    else if 'A' ≤ c && c ≤ 'F' then some (c.toNat - 55)
    else none
  match digits.mapM value with
  | none => none
  | some ns =>
    let n := ns.foldl (16 * · + ·) 0
    if h : n.isValidChar then some (Char.ofNatAux n h) else none

def letterEscape? : Char → Option Char
  | 'b' => some '\x08'
  | 't' => some '\t'
  | 'n' => some '\n'
  | 'f' => some '\x0c'
  | 'r' => some '\r'
  | '"' => some '"'
  | '\\' => some '\\'
  | _ => none

inductive Skipping
  | nothing
  | toLineEnd
  | filler
  deriving DecidableEq, Repr

def basicString (multiline : Bool) (skipping : Skipping) : Text → Option (Text × Text)
  | [] => none
  | c :: rest =>
    if skipping = .toLineEnd then
      if isSpace c then basicString multiline .toLineEnd rest
      else if c == '\n' then basicString multiline .filler rest
      else none
    else if skipping = .filler && (isSpace c || c == '\n') then basicString multiline .filler rest
    else if c == '"' then
      if !multiline then some ([], rest)
      else if ['"', '"'].isPrefixOf rest then some ([], rest.drop 2)
      else (basicString multiline .nothing rest).map fun (body, rest) => ('"' :: body, rest)
    else if c == '\\' then
      match rest with
      | [] => none
      | e :: rest =>
        if multiline && isSpace e then basicString multiline .toLineEnd rest
        else if multiline && e == '\n' then basicString multiline .filler rest
        else if e == 'u' then
          match rest with
          | a :: b :: c :: d :: rest =>
            match scalar? [a, b, c, d], basicString multiline .nothing rest with
            | some s, some (body, rest) => some (s :: body, rest)
            | _, _ => none
          | _ => none
        else if e == 'U' then
          match rest with
          | a :: b :: c :: d :: e :: f :: g :: h :: rest =>
            match scalar? [a, b, c, d, e, f, g, h], basicString multiline .nothing rest with
            | some s, some (body, rest) => some (s :: body, rest)
            | _, _ => none
          | _ => none
        else
          match letterEscape? e, basicString multiline .nothing rest with
          | some s, some (body, rest) => some (s :: body, rest)
          | _, _ => none
    else if isIllegal c && !(multiline && c == '\n') then none
    else (basicString multiline .nothing rest).map fun (body, rest) => (c :: body, rest)

/-- Up to two more quotes belong to a string of several lines that ends in them. -/
def closingQuotes (quote : Char) : Text × Text → Text × Text
  | (body, rest) =>
    let extra := ((rest.take 2).takeWhile (· == quote))
    (body ++ extra, rest.drop extra.length)

def skipFirstLineEnd : Text → Text
  | '\n' :: rest => rest
  | t => t

def string? : Text → Option (Text × Text)
  | '"' :: '"' :: '"' :: rest =>
    (basicString true .nothing (skipFirstLineEnd rest)).map (closingQuotes '"')
  | '"' :: rest => basicString false .nothing rest
  | '\'' :: '\'' :: '\'' :: rest => (literalLines (skipFirstLineEnd rest)).map (closingQuotes '\'')
  | '\'' :: rest => literalString rest
  | _ => none

def isBareKeyChar (c : Char) : Bool := c.isAlphanum || c == '-' || c == '_'

def keyPart : Text → Option (Text × Text)
  | '"' :: rest => basicString false .nothing rest
  | '\'' :: rest => literalString rest
  | t =>
    match t.takeWhile isBareKeyChar with
    | [] => none
    | part => some (part, t.drop part.length)

/-- A dotted key with the blanks behind it. Each part takes a character, so the length of the text
is fuel enough. -/
def key (fuel : Nat) (t : Text) : Option (Path × Text) :=
  match fuel with
  | 0 => none
  | fuel + 1 =>
    match keyPart t with
    | none => none
    | some (part, rest) =>
      match skipSpace rest with
      | '.' :: rest => (key fuel (skipSpace rest)).map fun (path, rest) => (part :: path, rest)
      | rest => some ([part], rest)

end GrammarCheck.Toml
