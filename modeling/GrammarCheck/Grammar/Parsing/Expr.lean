import GrammarCheck.Grammar.Parsing.Basic

/-!
Parsing of expressions, lowest binding first:

    choice    ::= '|'? sequence ('|' sequence)*
    sequence  ::= unary unary*
    unary     ::= atom ('+' | '*' | '?')*
    atom      ::= '(' choice ')' | TERMINAL | WORD

The layout behind a token goes to the node completed just before it.
-/

namespace GrammarCheck

namespace Leaf

def ofTerminal (text : Text) : Except Fault Leaf :=
  if 2 ≤ text.length && text.head? == some '<' && text.getLast? == some '>' then
    let special := (text.drop 1).dropLast
    if special.isEmpty then .error .emptySpecial
    else if special.contains '?' then .error .questionInSpecial
    else .ok (.special special)
  else if text.contains '\'' && text.contains '"' then .error .mixedQuotes
  else .ok (.terminal text)

end Leaf

def Repetition.ofKind? : Token.Kind → Option Repetition
  | .plus => some .oneOrMore
  | .star => some .zeroOrMore
  | .question => some .zeroOrOne
  | _ => none

namespace Parsing

def endsSequence : List Token → Bool
  | [] => true
  | t :: _ =>
    match t.kind with
    | .bar | .semicolon | .closeParen => true
    | _ => false

def repetitions (e : Expr) (ts : List Token) (bound : Nat) (h : ts.length < bound) :
    Parsed Expr bound :=
  match ts with
  | [] => .done e [] h
  | t :: rest =>
    match Repetition.ofKind? t.kind with
    | some r =>
      repetitions (.repeated r e [] (triviaAhead rest)) (skipTrivia rest) bound
        (by have := length_skipTrivia_le rest; simp only [List.length_cons] at h; omega)
    | none => .done e (t :: rest) h
termination_by ts.length
decreasing_by have := length_skipTrivia_le rest; simp only [List.length_cons]; omega

def skipBar : List Token → List Token
  | ⟨.bar, _, _⟩ :: rest => skipTrivia rest
  | ts => ts

theorem length_skipBar_le (ts : List Token) : (skipBar ts).length ≤ ts.length := by
  unfold skipBar
  split
  · rename_i rest
    have := length_skipTrivia_le rest
    simp only [List.length_cons]
    omega
  · exact Nat.le_refl _

def barTrivia : List Token → Trivia
  | ⟨.bar, _, _⟩ :: rest => (triviaAhead rest).ifCommented
  | _ => {}

def leaf (l : Leaf) (rest : List Token) (bound : Nat) (h : rest.length < bound) :
    Parsed Expr bound :=
  .done (.leaf l (triviaAhead rest)) (skipTrivia rest)
    (by have := length_skipTrivia_le rest; omega)

/-- A group up to its closing parenthesis: its body and the tokens behind that. The body takes the
layout on both sides of the closing parenthesis, and of the layout behind the opening one the
comment. -/
def closeGroup (leading : Trivia) (body : Expr) (ts : List Token) (bound : Nat)
    (h : ts.length < bound) : Parsed Expr bound :=
  match ts with
  | ⟨.closeParen, _, _⟩ :: rest =>
    .done ((body.attach leading.ifCommented).attach (triviaAhead rest)) (skipTrivia rest)
      (by have := length_skipTrivia_le rest; simp only [List.length_cons] at h; omega)
  | ts => .failed (.unexpected .unclosedGroup ts)

mutual

def choice (ts : List Token) : Parsed Expr ts.length :=
  match sequence (skipBar ts) with
  | .failed failure => .failed failure
  | .done e rest h =>
    (alternatives (e.attach (barTrivia ts)) rest ts.length
      (by have := length_skipBar_le ts; omega)).map (Expr.join .choice)
termination_by 6 * ts.length + 5
decreasing_by all_goals have := length_skipBar_le ts; omega

/-- The alternatives from `current` on, which is already read. A line break behind a bar belongs
to the alternative before it. -/
def alternatives (current : Expr) (ts : List Token) (bound : Nat) (h : ts.length < bound) :
    Parsed (List Expr) bound :=
  match ts with
  | ⟨.bar, _, _⟩ :: rest =>
    match sequence (skipTrivia rest) with
    | .failed failure => .failed failure
    | .done e after shorter =>
      (alternatives e after bound
        (by have := length_skipTrivia_le rest; simp only [List.length_cons] at h; omega)).map
        (current.attach (triviaAhead rest).withoutSpace :: ·)
  | ts => .done [current] ts h
termination_by 6 * ts.length + 4
decreasing_by all_goals have := length_skipTrivia_le rest; simp only [List.length_cons]; omega

def sequence (ts : List Token) : Parsed Expr ts.length :=
  match unary ts with
  | .failed failure => .failed failure
  | .done e rest h => (items e rest ts.length h).map (Expr.join .sequence)
termination_by 6 * ts.length + 3

def items (current : Expr) (ts : List Token) (bound : Nat) (h : ts.length < bound) :
    Parsed (List Expr) bound :=
  if endsSequence ts then .done [current] ts h
  else match unary ts with
    | .failed failure => .failed failure
    | .done e rest shorter => (items e rest bound (by omega)).map (current :: ·)
termination_by 6 * ts.length + 2

def unary (ts : List Token) : Parsed Expr ts.length :=
  match atom ts with
  | .failed failure => .failed failure
  | .done e rest h => repetitions e rest ts.length h
termination_by 6 * ts.length + 1

def atom (ts : List Token) : Parsed Expr ts.length :=
  match ts with
  | ⟨.openParen, _, _⟩ :: rest =>
    match choice (skipTrivia rest) with
    | .failed failure => .failed failure
    | .done body after h =>
      closeGroup (triviaAhead rest) body after (rest.length + 1)
        (by have := length_skipTrivia_le rest; omega)
  | ⟨.terminal, text, position⟩ :: rest =>
    match Leaf.ofTerminal text with
    | .error fault => .failed ⟨fault, some ⟨.terminal, text, position⟩, rest⟩
    | .ok l => leaf l rest (rest.length + 1) (Nat.lt_succ_self _)
  | ⟨.word, name, _⟩ :: rest => leaf (.reference name) rest (rest.length + 1) (Nat.lt_succ_self _)
  | ⟨.closeParen, value, position⟩ :: rest =>
    .failed (.ahead .unexpectedClose (⟨.closeParen, value, position⟩ :: rest))
  | ts => .failed (.unexpected .expectedAtom ts)
termination_by 6 * ts.length
decreasing_by have := length_skipTrivia_le rest; simp only [List.length_cons]; omega

end

end Parsing

end GrammarCheck
