import GrammarCheck.Document.Words
import GrammarCheck.Text.Search

/-!
Locations for people: a file and as much of a range of lines and columns as could be found. A
section narrows the text, a paragraph narrows it further, and a span of words gives the columns.
-/

namespace GrammarCheck

/-- Lines and columns count from 1; the end column is the last one inside. -/
structure Location where
  filename : Text
  startLine : Option Int := none
  startCol : Option Int := none
  endLine : Option Int := none
  endCol : Option Int := none
  deriving DecidableEq, Repr

namespace Location

def format (l : Location) : Text :=
  let range (parts : List Text) := l.filename ++ '(' :: Text.join [','] parts ++ [')']
  match l.startLine, l.startCol, l.endLine, l.endCol with
  | none, _, _, _ => l.filename
  | some line, some col, some endLine, some endCol =>
    range [.ofInt line, .ofInt col, .ofInt endLine, .ofInt endCol]
  | some line, _, some endLine, _ =>
    if endLine = line then range [.ofInt line]
    else range [Text.ofInt line ++ '-' :: Text.ofInt endLine]
  | some line, _, none, _ => range [.ofInt line]

end Location

structure SectionTarget where
  level : Int
  title : Text
  deriving DecidableEq, Repr

inductive Precision
  | heading
  | paragraph
  | span
  deriving DecidableEq, Repr

/-- The part of a text that is searched next, where it starts, and the last match, which is in the
offsets of the whole text. -/
structure Scope where
  buffer : Text
  base : Int
  found : Option (Precision × Span)
  deriving DecidableEq, Repr

namespace Scope

def whole (t : Text) : Scope := ⟨t, 0, none⟩

def narrow (scope : Scope) (precision : Precision) : Option Span → Scope
  | none => scope
  | some s => ⟨s.slice scope.buffer, scope.base + s.start, some (precision, s.shift scope.base)⟩

def narrowHeading (scope : Scope) : Option SectionTarget → Scope
  | none => scope
  | some target => scope.narrow .heading (scope.buffer.findSection target.level target.title)

def narrowParagraph (scope : Scope) : Option Block → Except UnsupportedNode Scope
  | none => .ok scope
  | some block => do return scope.narrow .paragraph (scope.buffer.findParagraph (← block.words))

def narrowSpan (scope : Scope) : Option Inline → Except UnsupportedNode Scope
  | none => .ok scope
  | some span => do return scope.narrow .span (scope.buffer.findWords (← span.words))

def location (filename t : Text) (scope : Scope) : Location :=
  match scope.found with
  | none => { filename }
  | some (precision, s) =>
    let (startLine, startCol) := t.lineCol s.start
    let (endLine, endCol) := t.lineCol (max (s.stop - 1) s.start)
    match precision with
    | .heading => { filename, startLine := some startLine }
    | .paragraph => { filename, startLine := some startLine, endLine := some endLine }
    | .span => ⟨filename, some startLine, some startCol, some endLine, some endCol⟩

end Scope

def Location.find (filename t : Text) (target : Option SectionTarget) (paragraph : Option Block)
    (span : Option Inline) : Except UnsupportedNode Location := do
  let scope ← ((Scope.whole t).narrowHeading target).narrowParagraph paragraph
  return (← scope.narrowSpan span).location filename t

end GrammarCheck
