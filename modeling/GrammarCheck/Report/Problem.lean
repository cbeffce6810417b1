import GrammarCheck.Text.Printable

namespace GrammarCheck

/-- A place in a named text. The snippet is the source from that line on. -/
structure Context where
  file : Text
  line : Int
  column : Int
  snippet : Option Text := none
  deriving DecidableEq, Repr

namespace Context

def formatSnippet (context : Context) (snippet : Text) : Text :=
  Text.join ['\n'] <| ((snippet.pieces '\n').zipIdx.flatMap fun (line, i) =>
    let front := (Text.ofInt (context.line + i)).padLeft 4 ' ' ++ " | ".toList
    let marker := List.replicate (front.length + context.column - 1).toNat ' ' ++ "^^^".toList
    if i = 0 then [front ++ line, marker] else [front ++ line])

def format (context : Context) : Text :=
  let place := context.file ++ ':' :: Text.ofInt context.line ++ ':' :: Text.ofInt context.column
  match context.snippet with
  | none | some [] => place
  | some snippet => place ++ '\n' :: context.formatSnippet snippet

end Context

inductive OutOfRange
  | text
  | list
  deriving DecidableEq, Repr

def OutOfRange.message : OutOfRange → Text
  | .text => "string index out of range".toList
  | .list => "list index out of range".toList

inductive Area
  | general
  | grammar
  | settings
  deriving DecidableEq, Repr

structure Problem where
  area : Area
  message : Text
  context : Option Context := none
  deriving DecidableEq, Repr

namespace Problem

def format (problem : Problem) : Text :=
  match problem.context with
  | none => problem.message
  | some context => context.format ++ '\n' :: problem.message

def inNotation (message file : Text) (line column : Int) (snippet : Option Text) : Problem :=
  ⟨.grammar, message, some ⟨file, line, column, snippet⟩⟩

/-- A settings problem concerns its whole file, so it stands at the top; an empty name is none. -/
def inSettings (message : Text) (file : Option Text) : Problem :=
  match file with
  | none | some [] => ⟨.settings, message, none⟩
  | some file => ⟨.settings, message, some ⟨file, 1, 1, none⟩⟩

end Problem

inductive Vocabulary
  | diagnosticCode
  | severity
  | category
  | differenceKind
  | tokenKind
  | exprKind
  deriving DecidableEq, Repr

def Vocabulary.name : Vocabulary → Text
  | .diagnosticCode => "DiagnosticCode".toList
  | .severity => "Severity".toList
  | .category => "StyleCategory".toList
  | .differenceKind => "DifferenceKind".toList
  | .tokenKind => "TokenType".toList
  | .exprKind => "EbnfKind".toList

structure UnknownName where
  vocabulary : Vocabulary
  name : Text
  deriving DecidableEq, Repr

def UnknownName.message (e : UnknownName) : Text :=
  e.name.quoted ++ " is not a valid ".toList ++ e.vocabulary.name

end GrammarCheck
