import GrammarCheck.Report.Diagnostic

namespace GrammarCheck

structure BookmarkCounter where
  counts : List (Text × Nat) := []
  deriving DecidableEq, Repr

namespace BookmarkCounter

def count (counter : BookmarkCounter) (series : Text) : Nat :=
  (counter.counts.lookup series).getD 0

def name (series : Text) (n : Nat) : Text := series ++ (Text.ofNat n).padLeft 5 '0'

def next (counter : BookmarkCounter) (series : Text) : Text × BookmarkCounter :=
  let n := counter.count series + 1
  (name series n, ⟨(series, n) :: counter.counts⟩)

theorem count_next (counter : BookmarkCounter) (series other : Text) :
    (counter.next series).2.count other =
      if other = series then counter.count series + 1 else counter.count other := by
  by_cases h : other = series <;> simp_all [next, count, lookup_cons_ite]

end BookmarkCounter

def sectionSeries : Text := "_Toc".toList

def grammarSeries : Text := "_Grm".toList

namespace Spec

structure Section where
  number : Text
  title : Text
  level : Int
  url : Text
  bookmark : Text
  filename : Text
  deriving DecidableEq, Repr

def Section.target (s : Section) : SectionTarget := ⟨s.level, s.title⟩

structure Fragment where
  code : Text
  language : Option Text
  names : List Text
  bookmark : Text
  filename : Text
  within : Option Section
  deriving DecidableEq, Repr

def Fragment.block (f : Fragment) : Block := .code f.code f.language

def slug (title : Text) : Text :=
  title.filterMap fun c =>
    if c.isAlphanum || c == '-' || c == '_' then some c.toLower
    else if c == ' ' then some '-'
    else none

def url (filename title : Text) : Text := filename ++ '#' :: slug title

end Spec

structure Spec where
  grammar : Grammar := {}
  sections : List Spec.Section := []
  fragments : List Spec.Fragment := []
  diagnostics : List Diagnostic := []
  texts : List (Text × Text) := []
  deriving Repr

namespace Spec

def putText (filename t : Text) : List (Text × Text) → List (Text × Text)
  | [] => [(filename, t)]
  | (other, u) :: texts =>
    if other = filename then (filename, t) :: texts else (other, u) :: putText filename t texts

def find? (s : Spec) (name : Text) : Option Fragment :=
  s.fragments.find? (·.names.contains name)

def locate (s : Spec) (name : Text) : Except UnsupportedNode (Option Location) :=
  match s.find? name with
  | none => .ok none
  | some f => do
    return some (← Location.find f.filename ((s.texts.lookup f.filename).getD [])
      (f.within.map (·.target)) (some f.block) none)

end Spec

end GrammarCheck
