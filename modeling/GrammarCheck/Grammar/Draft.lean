import GrammarCheck.Grammar.Expr
import GrammarCheck.Report.Problem

namespace GrammarCheck

namespace Expr

inductive Kind
  | terminal
  | special
  | reference
  | repeated (r : Repetition)
  | group (j : Joint)
  deriving DecidableEq, Repr

namespace Kind

def name : Kind → Text
  | .terminal => "terminal".toList
  | .special => "extended_terminal".toList
  | .reference => "reference".toList
  | .repeated .oneOrMore => "one_or_more".toList
  | .repeated .zeroOrMore => "zero_or_more".toList
  | .repeated .zeroOrOne => "zero_or_one".toList
  | .group .choice => "choice".toList
  | .group .sequence => "sequence".toList

def all : List Kind :=
  [.terminal, .special, .reference, .repeated .oneOrMore, .repeated .zeroOrMore,
    .repeated .zeroOrOne, .group .choice, .group .sequence]

def ofName? (name : Text) : Option Kind := all.find? (·.name == name)

end Kind

def kind : Expr → Kind
  | .leaf (.terminal _) _ => .terminal
  | .leaf (.special _) _ => .special
  | .leaf (.reference _) _ => .reference
  | .repeated r _ _ _ => .repeated r
  | .group j _ _ _ => .group j

end Expr

inductive ShapeError
  | unknownKind (name : Text)
  | leafWithChildren (kind : Expr.Kind)
  | notOneChild (r : Repetition)
  | noChild (j : Joint)
  | badSpecial
  | halfRule
  deriving DecidableEq, Repr

def ShapeError.message : ShapeError → Text
  | .unknownKind name => UnknownName.message ⟨.exprKind, name⟩
  | .leafWithChildren kind => kind.name ++ " node cannot have children".toList
  | .notOneChild r => (Expr.Kind.repeated r).name ++ " node needs exactly one child".toList
  | .noChild j => (Expr.Kind.group j).name ++ " node needs at least one child".toList
  | .badSpecial => "Extended terminal must be non-empty and cannot contain '?'".toList
  | .halfRule => "A production needs both a name and a body, or neither".toList

inductive Draft
  | node (kind text : Text) (children : List Draft) (after : Trivia)

namespace Draft

def assemble (kind : Expr.Kind) (text : Text) (children : List Expr) (after : Trivia) :
    Except ShapeError Expr :=
  match kind, children with
  | .terminal, [] => .ok (.leaf (.terminal text) after)
  | .reference, [] => .ok (.leaf (.reference text) after)
  | .special, [] =>
    if text.isEmpty || text.contains '?' then .error .badSpecial
    else .ok (.leaf (.special text) after)
  | .repeated r, [body] => .ok (.repeated r body text after)
  | .repeated r, _ => .error (.notOneChild r)
  | .group j, [] => .error (.noChild j)
  | .group j, items => .ok (.group j items text after)
  | kind, _ => .error (.leafWithChildren kind)

def build : Draft → Except ShapeError Expr
  | .node kind text children after =>
    match Expr.Kind.ofName? kind with
    | none => .error (.unknownKind kind)
    | some kind =>
      match buildAll children with
      | .ok built => assemble kind text built after
      | .error e => .error e
where
  buildAll : List Draft → Except ShapeError (List Expr)
    | [] => .ok []
    | draft :: drafts =>
      match draft.build with
      | .error e => .error e
      | .ok built =>
        match buildAll drafts with
        | .error e => .error e
        | .ok rest => .ok (built :: rest)

end Draft

end GrammarCheck
