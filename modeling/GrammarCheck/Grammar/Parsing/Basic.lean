import GrammarCheck.Grammar.Basic
import GrammarCheck.Notation.Fault

namespace GrammarCheck

/-- A fault, the token it is reported at (`none` at the end) and the tokens still ahead. -/
structure Failure where
  fault : Fault
  culprit : Option Token
  rest : List Token
  deriving DecidableEq, Repr

namespace Failure

def ahead (fault : Fault) (ts : List Token) : Failure := ⟨fault, ts.head?, ts⟩

def unexpected (fault : Option Token → Fault) (ts : List Token) : Failure :=
  ahead (fault ts.head?) ts

def position (finish : Position) (f : Failure) : Position :=
  (f.culprit.map (·.position)).getD finish

def error (source : Text) (finish : Position) (f : Failure) : SyntaxError :=
  ⟨source, f.position finish, none, f.fault⟩

end Failure

/-- Either a value with fewer than `bound` tokens ahead, or a failure. -/
inductive Parsed (α : Type) (bound : Nat)
  | done (value : α) (rest : List Token) (shorter : rest.length < bound)
  | failed (failure : Failure)

namespace Parsed

variable {α β : Type} {m n : Nat}

def map (f : α → β) : Parsed α n → Parsed β n
  | .done value rest shorter => .done (f value) rest shorter
  | .failed failure => .failed failure

def toExcept : Parsed α n → Except Failure (α × List Token)
  | .done value rest _ => .ok (value, rest)
  | .failed failure => .error failure

end Parsed

namespace Trivia

/-- Adds a token of layout. Blanks after a line break are indentation and not kept; comments of
different lines are set apart by a space. -/
def add (t : Trivia) (token : Token) : Trivia :=
  match token.kind with
  | .comment => { t with comment := t.comment ++ token.value.drop 2 }
  | .newline =>
    { t with newline := true, comment := if t.comment.isEmpty then [] else t.comment ++ [' '] }
  | _ => if t.newline then t else { t with whitespace := t.whitespace ++ token.value }

def ofTokens (ts : List Token) : Trivia :=
  let t := ts.foldl add {}
  { t with comment := t.comment.trimRight, newline := t.newline || !t.comment.isEmpty }

end Trivia

def triviaAhead (ts : List Token) : Trivia := .ofTokens (ts.takeWhile Token.isTrivia)

def skipTrivia (ts : List Token) : List Token := ts.dropWhile Token.isTrivia

theorem length_skipTrivia_le (ts : List Token) : (skipTrivia ts).length ≤ ts.length :=
  (List.dropWhile_suffix Token.isTrivia).length_le

def skipWhitespace (ts : List Token) : List Token := ts.dropWhile (·.kind == .whitespace)

def skipNewline : List Token → List Token
  | [] => []
  | t :: ts => if t.kind == .newline then ts else t :: ts

def expect (kind : Token.Kind) : List Token → Except Failure (Token × List Token)
  | [] => .error (.unexpected (.expectedKind kind) [])
  | t :: ts =>
    if t.kind == kind then .ok (t, ts) else .error (.unexpected (.expectedKind kind) (t :: ts))

end GrammarCheck
