import GrammarCheck.Proofs.Spec.Steps
import GrammarCheck.Proofs.Text.Pieces
import Mathlib.Data.List.Nodup

namespace GrammarCheck

theorem Text.padLeft_ofNat_injective (width : Nat) :
    Function.Injective fun n => (ofNat n).padLeft width '0' := by
  have hvalue : ∀ n, Nat.ofDigitChars 10 ((ofNat n).padLeft width '0') 0 = n := by
    intro n
    have hzeros : ∀ k, Nat.ofDigitChars 10 (List.replicate k '0') 0 = 0 := by
      intro k
      induction k with
      | zero => rfl
      | succ k ih => simp [List.replicate_succ, Nat.ofDigitChars_cons, ih]
    rw [padLeft, Nat.ofDigitChars_append, hzeros]
    exact Nat.ofDigitChars_ten_toDigits
  intro m n h
  rw [← hvalue m, ← hvalue n]
  exact congrArg (Nat.ofDigitChars 10 · 0) h

namespace BookmarkCounter

variable {counter : BookmarkCounter} {series : Text}

theorem name_injective (series : Text) : Function.Injective (name series) := by
  intro m n h
  exact Text.padLeft_ofNat_injective 5 (List.append_cancel_left h)

theorem sectionSeries_ne : sectionSeries ≠ grammarSeries := by
  simp [sectionSeries, grammarSeries]

theorem name_ne (m n : Nat) : name sectionSeries m ≠ name grammarSeries n := by
  intro h
  have hlength : sectionSeries.length = grammarSeries.length := by
    simp [sectionSeries, grammarSeries]
  exact sectionSeries_ne (List.append_inj_left h hlength)

def upcoming (counter : BookmarkCounter) (series : Text) (n : Nat) : List Text :=
  (List.range n).map fun i => name series (counter.count series + i + 1)

theorem upcoming_succ (counter : BookmarkCounter) (series : Text) (n : Nat) :
    counter.upcoming series (n + 1) =
      counter.upcoming series n ++ [name series (counter.count series + n + 1)] := by
  rw [upcoming, List.range_succ, List.map_append, List.map_singleton, upcoming]

theorem nodup_upcoming (counter : BookmarkCounter) (series : Text) (n : Nat) :
    (counter.upcoming series n).Nodup := by
  refine List.Nodup.map ?_ List.nodup_range
  intro i j h
  have := name_injective series h
  omega

end BookmarkCounter

namespace Spec

open BookmarkCounter

variable {counter counter' : BookmarkCounter} {s : Spec}

/-- Sections and fragments have the next names of their series, and the counter stands behind the
last of them. -/
structure Bookmarked (counter counter' : BookmarkCounter) (s : Spec) : Prop where
  sections : s.sections.map (·.bookmark) = counter.upcoming sectionSeries s.sections.length
  fragments : s.fragments.map (·.bookmark) = counter.upcoming grammarSeries s.fragments.length
  count : ∀ series, counter'.count series = counter.count series +
    (if series = sectionSeries then s.sections.length else 0) +
      if series = grammarSeries then s.fragments.length else 0

namespace Bookmarked

theorem nodup (h : Bookmarked counter counter' s) :
    (s.sections.map (·.bookmark) ++ s.fragments.map (·.bookmark)).Nodup := by
  rw [h.sections, h.fragments]
  refine List.nodup_append.2 ⟨nodup_upcoming .., nodup_upcoming .., ?_⟩
  intro x hx y hy
  obtain ⟨i, -, rfl⟩ := List.mem_map.1 hx
  obtain ⟨j, -, rfl⟩ := List.mem_map.1 hy
  exact name_ne _ _

theorem next_section (h : Bookmarked counter counter' s) :
    (counter'.next sectionSeries).1 =
      name sectionSeries (counter.count sectionSeries + s.sections.length + 1) := by
  have hcount := h.count sectionSeries
  rw [if_pos rfl, if_neg sectionSeries_ne, Nat.add_zero] at hcount
  rw [next, hcount]

theorem next_fragment (h : Bookmarked counter counter' s) :
    (counter'.next grammarSeries).1 =
      name grammarSeries (counter.count grammarSeries + s.fragments.length + 1) := by
  have hcount := h.count grammarSeries
  rw [if_neg sectionSeries_ne.symm, if_pos rfl, Nat.add_zero] at hcount
  rw [next, hcount]

theorem step {d : Document} {block : Block} {r r' : Reader}
    (h : Bookmarked counter r.counter r.spec) (hstep : Reader.Step d r block r') :
    Bookmarked counter r'.counter r'.spec := by
  cases hstep with
  | passed | untitled | tooDeep | dropped => exact ⟨h.sections, h.fragments, h.count⟩
  | counted =>
    refine ⟨?_, h.fragments, ?_⟩
    · rw [Reader.withSection, List.map_append, h.sections, List.length_append,
        List.length_singleton, upcoming_succ, ← h.next_section]
      rfl
    · intro series
      rw [Reader.withSection, count_next, h.count, h.count, List.length_append]
      split <;> grind
  | parsed =>
    refine ⟨h.sections, ?_, ?_⟩
    · rw [Reader.withFragment, List.map_append, h.fragments, List.length_append,
        List.length_singleton, upcoming_succ, ← h.next_fragment]
      rfl
    · intro series
      rw [Reader.withFragment, count_next, h.count, h.count, List.length_append]
      split <;> grind

theorem start (settings : Settings) (counter : BookmarkCounter) :
    Bookmarked counter (Reader.start settings counter).counter
      (Reader.start settings counter).spec :=
  ⟨rfl, rfl, fun series => by simp [Reader.start]⟩

end Bookmarked

end Spec

end GrammarCheck
