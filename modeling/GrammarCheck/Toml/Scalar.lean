import GrammarCheck.Toml.Value

namespace GrammarCheck.Toml

def digitRun (isDigit : Char → Bool) : Text → Text
  | [] => []
  | [c] => if isDigit c then [c] else []
  | c :: '_' :: d :: rest =>
    if isDigit c then
      if isDigit d then c :: '_' :: digitRun isDigit (d :: rest) else [c]
    else []
  | c :: rest => if isDigit c then c :: digitRun isDigit rest else []

def digitValue (c : Char) : Nat :=
  if c.isDigit then c.toNat - 48 else if 'a' ≤ c then c.toNat - 87 else c.toNat - 55

def digitsValue (base : Nat) (t : Text) : Nat :=
  (t.filter (· != '_')).foldl (fun n c => base * n + digitValue c) 0

def isHexDigit (c : Char) : Bool := c.isDigit || ('a' ≤ c && c ≤ 'f') || ('A' ≤ c && c ≤ 'F')

def isOctalDigit (c : Char) : Bool := '0' ≤ c && c ≤ '7'

def isBinaryDigit (c : Char) : Bool := c == '0' || c == '1'

def base? : Char → Option (Nat × (Char → Bool))
  | 'x' => some (16, isHexDigit)
  | 'o' => some (8, isOctalDigit)
  | 'b' => some (2, isBinaryDigit)
  | _ => none

def basedInteger : Text → Option (Value × Text)
  | '0' :: letter :: rest =>
    match base? letter with
    | none => none
    | some (base, isDigit) =>
      match digitRun isDigit rest with
      | [] => none
      | digits => some (.integer (digitsValue base digits), rest.drop digits.length)
  | _ => none

def sign : Text → Text
  | '+' :: _ => ['+']
  | '-' :: _ => ['-']
  | _ => []

def wholePart : Text → Text
  | '0' :: _ => ['0']
  | t => digitRun Char.isDigit t

def fractionPart : Text → Text
  | '.' :: rest =>
    match digitRun Char.isDigit rest with
    | [] => []
    | digits => '.' :: digits
  | _ => []

def exponentPart : Text → Text
  | c :: rest =>
    if c == 'e' || c == 'E' then
      let mark := sign rest
      match digitRun Char.isDigit (rest.drop mark.length) with
      | [] => []
      | digits => c :: mark ++ digits
    else []
  | [] => []

def digitLimit : Nat := 4300

def decimalInteger (mark whole : Text) : Except Fault Value :=
  let digits := whole.filter (· != '_')
  if digitLimit < digits.length then .error (.oversized digits.length)
  else
    let n : Int := digitsValue 10 digits
    .ok (.integer (if mark == ['-'] then -n else n))

def decimal (t : Text) : Except Fault (Option (Value × Text)) :=
  let mark := sign t
  let rest := t.drop mark.length
  match wholePart rest with
  | [] => .ok none
  | whole =>
    let rest := rest.drop whole.length
    let fraction := fractionPart rest
    let rest := rest.drop fraction.length
    let exponent := exponentPart rest
    let rest := rest.drop exponent.length
    if fraction.isEmpty && exponent.isEmpty then
      (decimalInteger mark whole).map fun n => some (n, rest)
    else .ok (some (.float (mark ++ whole ++ fraction ++ exponent), rest))

def specialFloat (t : Text) : Option (Value × Text) :=
  let mark := sign t
  let name := (t.drop mark.length).take 3
  if name == "inf".toList || name == "nan".toList then
    some (.float (mark ++ name), t.drop (mark.length + 3))
  else none

def pair? (limit : Nat) (a b : Char) : Option Nat :=
  if a.isDigit && b.isDigit && digitsValue 10 [a, b] ≤ limit then some (digitsValue 10 [a, b])
  else none

def timeLength? : Text → Option Nat
  | a :: b :: ':' :: c :: d :: ':' :: e :: f :: rest =>
    match pair? 23 a b, pair? 59 c d, pair? 59 e f with
    | some _, some _, some _ =>
      match rest with
      | '.' :: rest =>
        let digits := rest.takeWhile Char.isDigit
        some (if digits.isEmpty then 8 else 9 + digits.length)
      | _ => some 8
    | _, _, _ => none
  | _ => none

def offsetLength : Text → Nat
  | 'Z' :: _ | 'z' :: _ => 1
  | s :: a :: b :: ':' :: c :: d :: _ =>
    if (s == '+' || s == '-') && (pair? 23 a b).isSome && (pair? 59 c d).isSome then 6 else 0
  | _ => 0

def isLeapYear (year : Nat) : Bool := year % 4 == 0 && (year % 100 != 0 || year % 400 == 0)

def daysIn (year month : Nat) : Nat :=
  if month = 2 then if isLeapYear year then 29 else 28
  else if month = 4 || month = 6 || month = 9 || month = 11 then 30
  else 31

inductive DateForm
  | other
  | noSuchDay
  | day
  deriving DecidableEq, Repr

def dateForm : Text → DateForm
  | y₁ :: y₂ :: y₃ :: y₄ :: '-' :: m₁ :: m₂ :: '-' :: d₁ :: d₂ :: _ =>
    if [y₁, y₂, y₃, y₄].all Char.isDigit then
      let year := digitsValue 10 [y₁, y₂, y₃, y₄]
      match pair? 12 m₁ m₂, pair? 31 d₁ d₂ with
      | some month, some day =>
        if month = 0 || day = 0 then .other
        else if year = 0 || daysIn year month < day then .noSuchDay
        else .day
      | _, _ => .other
    else .other
  | _ => .other

def timeBehindDate : Text → Nat
  | c :: rest =>
    if c == 'T' || c == 't' || c == ' ' then
      match timeLength? rest with
      | none => 0
      | some n => 1 + n + offsetLength (rest.drop n)
    else 0
  | [] => 0

def scalar (t : Text) : Except Fault (Value × Text) :=
  match dateForm t with
  | .noSuchDay => .error .invalid
  | .day =>
    match timeBehindDate (t.drop 10) with
    | 0 => .ok (.date (t.take 10), t.drop 10)
    | n => .ok (.datetime (t.take (10 + n)), t.drop (10 + n))
  | .other =>
    match timeLength? t, basedInteger t with
    | some n, _ => .ok (.time (t.take n), t.drop n)
    | none, some read => .ok read
    | none, none => do
      match (← decimal t).or (specialFloat t) with
      | some read => return read
      | none => .error .invalid

end GrammarCheck.Toml
