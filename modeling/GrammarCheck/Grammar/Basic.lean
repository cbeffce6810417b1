import GrammarCheck.Grammar.Draft

namespace GrammarCheck

structure Rule where
  name : Text
  body : Expr
  deriving Repr

/-- An entry of a grammar. Without a rule it is a comment line, or a blank line if the comment is
empty. The link is where the rule is documented; it is never printed. -/
structure Production where
  rule : Option Rule := none
  comment : Text := []
  startsOnNewline : Bool := false
  link : Option Text := none
  linkName : Option Text := none
  deriving Repr

namespace Production

def name (p : Production) : Option Text := p.rule.map (·.name)

def body (p : Production) : Option Expr := p.rule.map (·.body)

def ruleOf (name : Option Text) (body : Option Expr) : Except ShapeError (Option Rule) :=
  match name, body with
  | some name, some body => .ok (some ⟨name, body⟩)
  | none, none => .ok none
  | _, _ => .error .halfRule

end Production

structure Grammar where
  name : Text := []
  productions : List Production := []
  newline : Text := ['\r', '\n']
  deriving Repr

namespace Grammar

def rules (g : Grammar) : List Rule := g.productions.filterMap (·.rule)

def ruleNames (g : Grammar) : List Text := g.productions.filterMap (·.name)

def find? (g : Grammar) (name : Text) : Option Production :=
  g.productions.find? (·.name == some name)

end Grammar

end GrammarCheck
