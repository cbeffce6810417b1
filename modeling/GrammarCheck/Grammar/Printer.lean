import GrammarCheck.Grammar.Basic

/-!
The canonical text of grammars. Layout that the notation ignores is written in one way only:

    grammar Name;
    rule:⇥body;  //comment
    multi:
    ⇥| first alternative
    ⇥| second alternative
    ⇥;
-/

namespace GrammarCheck

def Text.escapeTerminal (t : Text) : Text :=
  t.flatMap fun c => if c == '\\' || c == '\'' then ['\\', c] else [c]

def Leaf.print : Leaf → Text
  | .terminal text => '\'' :: text.escapeTerminal ++ ['\'']
  | .special text => '\'' :: '<' :: text.escapeTerminal ++ ['>', '\'']
  | .reference name => name

def Trivia.print (newline : Text) (t : Trivia) : Text :=
  (if t.comment.isEmpty then [] else ' ' :: '/' :: '/' :: t.comment) ++
    (if t.newline || !t.comment.isEmpty then newline ++ ['\t'] else [])

def endsInTab (t : Text) : Bool := t.getLast? == some '\t'

def Joint.gap : Joint → Option Text → Text
  | _, none => []
  | .choice, some before => if endsInTab before then ['|', ' '] else [' ', '|', ' ']
  | .sequence, some before => if before.isEmpty || endsInTab before then [] else [' ']

def Joint.encloses : Joint → Expr → Bool
  | .choice, _ => false
  | .sequence, item => item.isChoice

def enclose (inParens : Bool) (t : Text) : Text :=
  if inParens then '(' :: ' ' :: t ++ [' ', ')'] else t

def Expr.print (newline : Text) : Expr → Text
  | .leaf l after => l.print ++ after.print newline
  | .repeated r body _ after =>
    enclose body.isGroup (body.print newline) ++ r.mark :: after.print newline
  | .group j items _ after => printItems j none items ++ after.print newline
where
  printItems (j : Joint) (before : Option Text) : List Expr → Text
    | [] => before.getD []
    | item :: items =>
      printItems j
        (some (before.getD [] ++ j.gap before ++ enclose (j.encloses item) (item.print newline)))
        items

def Production.print (newline : Text) (p : Production) : Text :=
  match p.rule with
  | none => if p.comment.isEmpty then newline else '/' :: '/' :: p.comment ++ newline
  | some rule =>
    rule.name ++ [':'] ++ (if p.startsOnNewline then newline ++ ['\t', '|', ' '] else ['\t']) ++
      rule.body.print newline ++ [';'] ++
      (if p.comment.isEmpty then [] else ' ' :: ' ' :: '/' :: '/' :: p.comment) ++ newline

def defaultNewline : Text := ['\r', '\n']

def Grammar.print (g : Grammar) : Text :=
  (if g.name.isEmpty then [] else "grammar ".toList ++ g.name ++ [';'] ++ g.newline) ++
    g.productions.flatMap (·.print g.newline)

end GrammarCheck
