import GrammarCheck.Text.Units

namespace GrammarCheck

structure LineCache where
  entries : List ((Text × Text) × List Int)
  deriving Repr

namespace LineCache

def empty : LineCache := ⟨[]⟩

def get (name t : Text) (cache : LineCache) : List Int × LineCache :=
  match cache.entries.lookup (name, t) with
  | some starts => (starts, cache)
  | none => (Line.starts t, ⟨((name, t), Line.starts t) :: cache.entries⟩)

def clear (_ : LineCache) : LineCache := empty

def lineCol (name t : Text) (offset : Int) (cache : LineCache) : (Int × Int) × LineCache :=
  let (starts, cache) := cache.get name t
  (Line.coordinates starts offset, cache)

def Sound (cache : LineCache) : Prop :=
  ∀ name t starts, cache.entries.lookup (name, t) = some starts → starts = Line.starts t

theorem sound_empty : empty.Sound := by
  intro name t starts h
  cases h

theorem get_sound {cache : LineCache} (h : cache.Sound) (name t : Text) :
    (cache.get name t).1 = Line.starts t ∧ (cache.get name t).2.Sound := by
  unfold get
  split
  · rename_i starts hs
    exact ⟨h name t starts hs, h⟩
  · refine ⟨rfl, ?_⟩
    intro name' t' starts hs
    rw [lookup_cons_ite] at hs
    split at hs
    · rename_i hk
      cases hk
      exact (Option.some.inj hs).symm
    · exact h name' t' starts hs

theorem lineCol_eq {cache : LineCache} (h : cache.Sound) (name t : Text) (offset : Int) :
    (cache.lineCol name t offset).1 = t.lineCol offset := by
  simp only [lineCol, Text.lineCol, (get_sound h name t).1]

inductive Call
  | get (name t : Text)
  | clear
  deriving DecidableEq, Repr

def step (cache : LineCache) : Call → Option (List Int) × LineCache
  | .get name t => let (starts, cache) := cache.get name t; (some starts, cache)
  | .clear => (none, cache.clear)

def run (cache : LineCache) : List Call → List (Option (List Int)) × LineCache
  | [] => ([], cache)
  | call :: calls =>
    let (answer, cache) := cache.step call
    let (answers, cache) := cache.run calls
    (answer :: answers, cache)

end LineCache

end GrammarCheck
