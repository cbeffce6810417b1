import GrammarCheck.Notation.Fault

namespace GrammarCheck

namespace Text

def stopsWord (c : Char) : Bool := ":*?|+;()'\r\n".toList.contains c

def opensComment : Text → Bool
  | '/' :: '/' :: _ => true
  | _ => false

def leadingWord : Text → Text
  | [] => []
  | c :: rest =>
    if isBlank c || stopsWord c || opensComment (c :: rest) then [] else c :: leadingWord rest

def leadingSpace (t : Text) : Text := t.takeWhile fun c => isBlank c && !isLineEnd c

def leadingLine (t : Text) : Text := t.takeWhile fun c => !isLineEnd c

def closesGroup (t : Text) : Bool := occursIn ['*', ')'] t

def isEscapable (c : Char) : Bool := c == '\\' || c == '\'' || c == '"'

end Text

/-- What follows an opening quote: the text it stands for, how many characters were read, and the
fault that stopped the reading before a closing quote. -/
structure Quotation where
  value : Text
  size : Nat
  fault : Option Fault
  deriving DecidableEq, Repr

namespace Quotation

def after (n : Nat) (c : Char) (q : Quotation) : Quotation := ⟨c :: q.value, n + q.size, q.fault⟩

def read : Text → Quotation
  | [] => ⟨[], 0, some .unterminatedTerminal⟩
  | '\'' :: _ => ⟨[], 1, none⟩
  | '\\' :: c :: rest =>
    if Text.isEscapable c then (read rest).after 2 c else ⟨[], 0, some .illegalEscape⟩
  | c :: rest =>
    if isLineEnd c then ⟨[], 0, some .multilineTerminal⟩
    else if c == '\\' then ⟨[], 0, some .illegalEscape⟩
    else (read rest).after 1 c

end Quotation

/-- A token read from a text, with the number of characters it takes beyond its first; or a fault
noticed after `read` characters. -/
inductive Lexeme
  | token (kind : Token.Kind) (value : Text) (extra : Nat)
  | fault (reason : Fault) (read : Nat)
  deriving DecidableEq, Repr

namespace Lexeme

def comment (t : Text) : Lexeme :=
  let line := t.leadingLine
  if line.closesGroup then .fault .commentClosesGroup line.length
  else .token .comment line (line.length - 1)

def terminal (afterQuote : Text) : Lexeme :=
  let q := Quotation.read afterQuote
  match q.fault with
  | some reason => .fault reason (q.size + 1)
  | none => .token .terminal q.value q.size

def first (c : Char) (rest : Text) : Lexeme :=
  if c == '\r' && rest.head? == some '\n' then .token .newline ['\r', '\n'] 1
  else if isLineEnd c then .token .newline [c] 0
  else match Token.Kind.operator? c with
    | some kind => .token kind [c] 0
    | none =>
      if Text.opensComment (c :: rest) then comment (c :: rest)
      else if c == '\'' then terminal rest
      else
        let word := Text.leadingWord (c :: rest)
        if word.isEmpty then .fault (.unexpectedCharacter c) 0
        else .token .word word (word.length - 1)

end Lexeme

def Fault.isLocal : Fault → Bool
  | .illegalEscape => true
  | _ => false

end GrammarCheck
