import GrammarCheck.Spec.Check

namespace GrammarCheck.Spec

structure Session where
  counter : BookmarkCounter := {}
  spec : Spec := {}
  deriving Repr

namespace Session

inductive Call
  | next (series : Text)
  | read (documents : List Document) (settings : Settings)
  | check (documents : List Document) (authority : Option Grammar) (settings : Settings)
  | find (name : Text)
  | locate (name : Text)
  deriving Repr

inductive Answer
  | bookmark (name : Text)
  | spec (s : Spec)
  | check (c : Check)
  | fragment (f : Option Fragment)
  | location (l : Option Location)
  | stopped (reason : StopReason)
  deriving Repr

/-- A reading that stops keeps its bookmarks and leaves what was read before. -/
def step (s : Session) : Call → Answer × Session
  | .next series =>
    let (name, counter) := s.counter.next series
    (.bookmark name, { s with counter })
  | .read documents settings =>
    match Spec.read documents settings s.counter with
    | .error stopped => (.stopped stopped.reason, { s with counter := stopped.counter })
    | .ok (spec, counter) => (.spec spec, ⟨counter, spec⟩)
  | .check documents authority settings =>
    match Check.run documents authority settings s.counter with
    | .error stopped => (.stopped stopped.reason, { s with counter := stopped.counter })
    | .ok (check, counter) => (.check check, ⟨counter, check.spec⟩)
  | .find name => (.fragment (s.spec.find? name), s)
  | .locate name =>
    match s.spec.locate name with
    | .error node => (.stopped (.badNode node), s)
    | .ok location => (.location location, s)

end Session

end GrammarCheck.Spec
