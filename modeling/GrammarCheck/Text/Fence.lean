import GrammarCheck.Text.Units

/-!
Fenced code blocks among the lines of a text, and its paragraphs. A fence opens with an optional
indent and at least three backticks or three tildes; it is closed by at least as many of the same
mark, and a fence that is never closed runs to the end of the text. A paragraph is such a block, or
lines between blocks of which none is blank.
-/

namespace GrammarCheck

structure Fence where
  indent : Nat
  mark : Char
  size : Nat
  language : Text
  deriving DecidableEq, Repr

namespace Fence

def open? (line : Text) : Option Fence :=
  let indent := line.takeWhile (· == ' ')
  match line.drop indent.length with
  | [] => none
  | mark :: rest =>
    let marks := (mark :: rest).takeWhile (· == mark)
    if (mark == '\x60' || mark == '~') && 3 ≤ marks.length then
      let info := ((mark :: rest).drop marks.length).dropWhile (· == ' ')
      some ⟨indent.length, mark, marks.length, info.takeWhile fun c => !(c == ' ' || isLineEnd c)⟩
    else none

def removeIndent : Nat → Text → Text
  | n + 1, ' ' :: line => removeIndent n line
  | _, line => line

def isClosedBy (fence : Fence) (line : Text) : Bool :=
  fence.size ≤ (line.takeWhile (· == fence.mark)).length &&
    (line.dropWhile (· == fence.mark)).all (· == ' ')

end Fence

inductive Segment
  | plain (text : Text) (span : Span)
  | code (code language : Text) (span : Span)
  deriving DecidableEq, Repr

namespace Segment

def span : Segment → Span
  | .plain _ span => span
  | .code _ _ span => span

def isCode : Segment → Bool
  | .plain _ _ => false
  | .code _ _ _ => true

def isBlankLine : Segment → Bool
  | .plain text _ => text.all isBlank
  | .code _ _ _ => false

structure OpenBlock where
  fence : Fence
  start : Int
  stop : Int
  code : Text
  deriving DecidableEq, Repr

def OpenBlock.close (block : OpenBlock) (stop : Int) : Segment :=
  .code block.code block.fence.language ⟨block.start, stop - block.start⟩

/-- Lines inside a fence lose the fence's indent and are ended by carriage return, line feed. -/
def ofLines : Option OpenBlock → List Line → List Segment
  | none, [] => []
  | some block, [] => [block.close block.stop]
  | none, line :: lines =>
    match Fence.open? line.text with
    | none => .plain line.text line.span :: ofLines none lines
    | some fence => ofLines (some ⟨fence, line.span.start, line.span.stop, []⟩) lines
  | some block, line :: lines =>
    let content := Fence.removeIndent block.fence.indent line.text
    if block.fence.isClosedBy content then block.close line.span.stop :: ofLines none lines
    else
      let code := block.code ++ content ++ ['\r', '\n']
      ofLines (some { block with stop := line.span.stop, code }) lines

def all (t : Text) : List Segment := ofLines none (Line.all t)

end Segment

/-- The lines are joined with carriage return, line feed, whatever the text uses. -/
structure Paragraph where
  text : Text
  span : Span
  deriving DecidableEq, Repr

namespace Paragraph

def extend (text : Text) (span : Span) : Option Paragraph → Paragraph
  | none => ⟨text ++ ['\r', '\n'], span⟩
  | some p => ⟨p.text ++ text ++ ['\r', '\n'], ⟨p.span.start, span.stop - p.span.start⟩⟩

def ofSegments (pending : Option Paragraph) : List Segment → List Paragraph
  | [] => pending.toList
  | .code code _ span :: segments => pending.toList ++ ⟨code, span⟩ :: ofSegments none segments
  | .plain text span :: segments =>
    if text.all isBlank then pending.toList ++ ofSegments none segments
    else ofSegments (some (extend text span pending)) segments

def all (t : Text) : List Paragraph := ofSegments none (Segment.all t)

end Paragraph

end GrammarCheck
