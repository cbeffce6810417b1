import GrammarCheck.Text.Basic

namespace GrammarCheck

/-- The layout between two meaningful tokens: blanks, comment text without its marks, and whether a
line ends. -/
structure Trivia where
  whitespace : Text := []
  comment : Text := []
  newline : Bool := false
  deriving DecidableEq, Repr

namespace Trivia

def isEmpty (t : Trivia) : Bool := t.whitespace.isEmpty && t.comment.isEmpty && !t.newline

def append (s t : Trivia) : Trivia where
  whitespace := s.whitespace ++ t.whitespace
  comment :=
    if s.comment.isEmpty || t.comment.isEmpty then s.comment ++ t.comment
    else s.comment ++ ' ' :: t.comment
  newline := s.newline || t.newline

instance : Append Trivia := ⟨append⟩

@[simp] theorem append_empty (t : Trivia) : t ++ ({} : Trivia) = t := by
  rcases t with ⟨w, c, n⟩
  change Trivia.append ⟨w, c, n⟩ {} = _
  simp [append]

def withoutSpace (t : Trivia) : Trivia := { t with whitespace := [] }

def ifCommented (t : Trivia) : Trivia := if t.comment.isEmpty then {} else t.withoutSpace

end Trivia

/-- A special terminal is written between angle brackets inside its quotes. -/
inductive Leaf
  | terminal (text : Text)
  | special (text : Text)
  | reference (name : Text)
  deriving DecidableEq, Repr

inductive Repetition
  | oneOrMore
  | zeroOrMore
  | zeroOrOne
  deriving DecidableEq, Repr

namespace Repetition

def mark : Repetition → Char
  | .oneOrMore => '+'
  | .zeroOrMore => '*'
  | .zeroOrOne => '?'

end Repetition

inductive Joint
  | choice
  | sequence
  deriving DecidableEq, Repr

/-- The label of an inner node is free text that is kept and never printed. -/
inductive Expr
  | leaf (l : Leaf) (after : Trivia)
  | repeated (r : Repetition) (body : Expr) (label : Text) (after : Trivia)
  | group (j : Joint) (items : List Expr) (label : Text) (after : Trivia)
  deriving Repr

namespace Expr

def after : Expr → Trivia
  | .leaf _ after => after
  | .repeated _ _ _ after => after
  | .group _ _ _ after => after

def attach (t : Trivia) : Expr → Expr
  | .leaf l after => .leaf l (after ++ t)
  | .repeated r body label after => .repeated r body label (after ++ t)
  | .group j items label after => .group j items label (after ++ t)

@[simp] theorem attach_empty (e : Expr) : e.attach {} = e := by
  cases e <;> simp [attach]

@[simp] theorem after_attach (t : Trivia) (e : Expr) : (e.attach t).after = e.after ++ t := by
  cases e <;> rfl

def isGroup : Expr → Bool
  | .group _ _ _ _ => true
  | _ => false

def isChoice : Expr → Bool
  | .group .choice _ _ _ => true
  | _ => false

def join (j : Joint) : List Expr → Expr
  | [e] => e
  | items => .group j items [] {}

def children : Expr → List Expr
  | .leaf _ _ => []
  | .repeated _ body _ _ => [body]
  | .group _ items _ _ => items

def text : Expr → Text
  | .leaf (.terminal text) _ => text
  | .leaf (.special text) _ => text
  | .leaf (.reference name) _ => name
  | .repeated _ _ label _ => label
  | .group _ _ label _ => label

end Expr

end GrammarCheck
