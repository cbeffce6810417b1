import GrammarCheck.EditDistance
import GrammarCheck.Text.Fence

namespace GrammarCheck

def firstLeast {α : Type} (cost : α → Nat) : List α → Option α
  | [] => none
  | x :: xs =>
    match firstLeast cost xs with
    | none => some x
    | some y => if cost y < cost x then some y else some x

namespace Text

def findSection (t : Text) (level : Int) (title : Text) : Option Span :=
  (firstLeast (fun s => EditDistance.distance s.title title)
    ((Section.all t).filter fun s => (s.level : Int) == level)).map (·.span)

def findParagraph (t : Text) (target : List Text) : Option Span :=
  (firstLeast (fun p => EditDistance.distance (Text.words p.text) target)
    (Paragraph.all t)).map (·.span)

/-- The closest run of words: from its first word to the next word after it, or to the end of the
last word of the text. -/
def findWords (t : Text) (target : List Text) : Option Span := do
  let words := Word.all t
  if target.isEmpty || words.isEmpty then none
  else
    let found ← EditDistance.closestRange target (words.map (·.text))
    if found.length = 0 then none
    else
      let first ← words[found.start.toNat]?
      let last ← words.getLast?
      let stop := match words[found.stop.toNat]? with
        | some next => next.span.start
        | none => last.span.stop
      some ⟨first.span.start, stop - first.span.start⟩

end Text

end GrammarCheck
