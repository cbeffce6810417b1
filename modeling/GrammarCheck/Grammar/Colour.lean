import GrammarCheck.Grammar.Printer

namespace GrammarCheck

inductive Category
  | plain
  | production
  | terminal
  | special
  | comment
  deriving DecidableEq, Repr

namespace Category

def name : Category → Text
  | .plain => "plain".toList
  | .production => "production".toList
  | .terminal => "terminal".toList
  | .special => "extended_terminal".toList
  | .comment => "comment".toList

def all : List Category := [.plain, .production, .terminal, .special, .comment]

def ofName? (name : Text) : Option Category := all.find? (·.name == name)

end Category

structure ColouredWord where
  text : Text
  category : Category := .plain
  deriving DecidableEq, Repr

inductive Mark
  | word (w : ColouredWord)
  | lineBreak
  deriving DecidableEq, Repr

namespace Mark

def plain (text : Text) : Mark := .word ⟨text, .plain⟩

def isTab : Mark → Bool
  | .word w => w.text == ['\t']
  | .lineBreak => false

def lines (current : List ColouredWord) : List Mark → List (List ColouredWord)
  | [] => if current.isEmpty then [] else [current]
  | .lineBreak :: marks => current :: lines [] marks
  | .word w :: marks => lines (current ++ [w]) marks

end Mark

def Leaf.mark : Leaf → Mark
  | .terminal text => .word ⟨'\'' :: text.escapeTerminal ++ ['\''], .terminal⟩
  | .special text => .word ⟨text, .special⟩
  | .reference name => .word ⟨name, .production⟩

def Trivia.marks (t : Trivia) : List Mark :=
  (if t.whitespace.isEmpty then [] else [.plain t.whitespace]) ++
    (if t.comment.isEmpty then [] else [.word ⟨' ' :: '/' :: '/' :: t.comment, .comment⟩]) ++
    (if t.newline || !t.comment.isEmpty then [.lineBreak, .plain ['\t']] else [])

def encloseMarks (inParens : Bool) (marks : List Mark) : List Mark :=
  if inParens then .plain ['(', ' '] :: marks ++ [.plain [' ', ')']] else marks

def Expr.marks : Expr → List Mark
  | .leaf l after => l.mark :: after.marks
  | .repeated r body _ after =>
    encloseMarks body.isGroup body.marks ++ .plain [r.mark] :: after.marks
  | .group .choice items _ after => alternatives items ++ after.marks
  | .group .sequence items _ after => inSequence false items ++ after.marks
where
  alternatives : List Expr → List Mark
    | [] => []
    | [item] => item.marks
    | item :: items => item.marks ++ .plain ['|', ' '] :: alternatives items
  inSequence (afterTab : Bool) : List Expr → List Mark
    | [] => []
    | item :: items =>
      let marks := item.marks
      let ending := if item.isChoice then false else (marks.getLast?.map Mark.isTab).getD afterTab
      (if afterTab then [.plain [' ', ' ']] else []) ++ encloseMarks item.isChoice marks ++
        inSequence ending items

def Production.marks (p : Production) : List Mark :=
  match p.rule with
  | none =>
    (if p.comment.isEmpty then [] else [.word ⟨'/' :: '/' :: p.comment, .comment⟩]) ++ [.lineBreak]
  | some rule =>
    .word ⟨rule.name, .production⟩ :: .plain [':'] ::
      (if p.startsOnNewline then [.lineBreak, .plain ['\t', '|', ' ']] else [.plain [' ']]) ++
      rule.body.marks ++ [.plain [';']] ++
      (if p.comment.isEmpty then []
        else [.word ⟨' ' :: ' ' :: '/' :: '/' :: p.comment, .comment⟩]) ++
      [.lineBreak]

def Grammar.colouredLines (g : Grammar) : List (List ColouredWord) :=
  Mark.lines [] (g.productions.flatMap (·.marks))

end GrammarCheck
