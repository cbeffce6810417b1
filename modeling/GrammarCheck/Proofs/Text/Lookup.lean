import GrammarCheck.Proofs.EditDistance.ClosestRange
import GrammarCheck.Proofs.Text.Units

namespace GrammarCheck

open EditDistance

variable {t : Text} {s : Span}

section FirstLeast

variable {α : Type} {cost : α → Nat} {xs : List α} {x y : α}

theorem mem_of_firstLeast (h : firstLeast cost xs = some x) : x ∈ xs := by
  induction xs generalizing x with
  | nil => cases h
  | cons y ys ih =>
    rw [firstLeast] at h
    cases hrest : firstLeast cost ys with
    | none =>
      rw [hrest] at h
      obtain rfl := Option.some.inj h
      exact List.mem_cons_self
    | some z =>
      rw [hrest] at h
      dsimp only at h
      split at h
      · obtain rfl := Option.some.inj h
        exact List.mem_cons_of_mem y (ih hrest)
      · obtain rfl := Option.some.inj h
        exact List.mem_cons_self

theorem firstLeast_eq_none_iff : firstLeast cost xs = none ↔ xs = [] := by
  cases xs with
  | nil => simp [firstLeast]
  | cons x xs =>
    rw [firstLeast]
    split
    · simp
    · split <;> simp

theorem le_of_firstLeast (h : firstLeast cost xs = some x) (hy : y ∈ xs) : cost x ≤ cost y := by
  induction xs generalizing x with
  | nil => cases hy
  | cons z xs ih =>
    rw [firstLeast] at h
    cases hrest : firstLeast cost xs with
    | none =>
      rw [hrest] at h
      obtain rfl := Option.some.inj h
      rw [firstLeast_eq_none_iff.1 hrest] at hy
      rw [List.mem_singleton.1 hy]
    | some w =>
      rw [hrest] at h
      dsimp only at h
      split at h
      · obtain rfl := Option.some.inj h
        obtain rfl | hy := List.mem_cons.1 hy
        · omega
        · exact ih hrest hy
      · obtain rfl := Option.some.inj h
        obtain rfl | hy := List.mem_cons.1 hy
        · exact Nat.le_refl _
        · have := ih hrest hy
          omega

theorem firstLeast_cons_eq_some_iff :
    firstLeast cost (y :: xs) = some x ↔
      (y = x ∧ ∀ z ∈ xs, cost y ≤ cost z) ∨ firstLeast cost xs = some x ∧ cost x < cost y := by
  rw [firstLeast]
  cases hrest : firstLeast cost xs with
  | none => simp [firstLeast_eq_none_iff.1 hrest]
  | some z =>
    have hleast : (∀ w ∈ xs, cost y ≤ cost w) ↔ cost y ≤ cost z :=
      ⟨fun h => h z (mem_of_firstLeast hrest),
        fun h _ hw => Nat.le_trans h (le_of_firstLeast hrest hw)⟩
    rw [hleast]
    dsimp only
    split
    · rename_i hlt
      simp only [Nat.not_le.2 hlt, and_false, false_or, Option.some.injEq, iff_self_and]
      rintro rfl
      exact hlt
    · rename_i hle
      simp only [Nat.not_lt.1 hle, and_true, Option.some.injEq, iff_self_or, and_imp]
      rintro rfl h
      exact absurd h hle

theorem eq_of_pairwise_lt {key : α → Int} (hkey : xs.Pairwise (key · < key ·)) (hx : x ∈ xs)
    (hy : y ∈ xs) (h : key x = key y) : x = y := by
  have hnodup : (xs.map key).Nodup := List.pairwise_map.2 (hkey.imp Int.ne_of_lt)
  exact List.inj_on_of_nodup_map hnodup hx hy h

theorem firstLeast_eq_some_iff {key : α → Int} (hkey : xs.Pairwise (key · < key ·)) (hx : x ∈ xs) :
    firstLeast cost xs = some x ↔
      ∀ y ∈ xs, (key y < key x → cost x < cost y) ∧ (key x < key y → cost x ≤ cost y) := by
  induction xs with
  | nil => cases hx
  | cons z xs ih =>
    obtain ⟨hz, hkey⟩ := List.pairwise_cons.1 hkey
    rw [firstLeast_cons_eq_some_iff, List.forall_mem_cons]
    obtain rfl | hx := List.mem_cons.1 hx
    · have hnot : ¬(firstLeast cost xs = some x ∧ cost x < cost x) := fun h => Nat.lt_irrefl _ h.2
      simp only [hnot, or_false, true_and, Int.lt_irrefl, false_imp_iff, and_self]
      refine forall₂_congr fun y hy => ?_
      simp [hz y hy, Int.le_of_lt (hz y hy)]
    · have hne : z ≠ x := by
        rintro rfl
        exact Int.lt_irrefl _ (hz z hx)
      rw [ih hkey hx]
      simp [hne, hz x hx, Int.le_of_lt (hz x hx), and_comm]

end FirstLeast

namespace Text

theorem proper_of_findSection {level : Int} {title : Text}
    (h : t.findSection level title = some s) : s.Proper t.length := by
  obtain ⟨found, hfound, rfl⟩ := Option.map_eq_some_iff.1 h
  exact Section.proper_of_mem (List.mem_filter.1 (mem_of_firstLeast hfound)).1

theorem proper_of_findParagraph {target : List Text} (h : t.findParagraph target = some s) :
    s.Proper t.length := by
  obtain ⟨found, hfound, rfl⟩ := Option.map_eq_some_iff.1 h
  exact Paragraph.proper_of_mem (mem_of_firstLeast hfound)

theorem exists_of_findWords {target : List Text} (h : t.findWords target = some s) :
    ∃ (first last : Nat) (hlt : first < last) (hle : last ≤ (Word.all t).length),
      closestRanges target t.words = {(first, last)} ∧
      s.start = (Word.all t)[first].span.start ∧
      s.stop = if hnext : last < (Word.all t).length then (Word.all t)[last].span.start
        else (Word.all t)[last - 1].span.stop := by
  rw [findWords] at h
  dsimp only at h
  split at h
  · cases h
  · rename_i hne
    have hwords : t.words ≠ [] := by
      intro hnil
      simp [List.map_eq_nil_iff.1 hnil] at hne
    obtain ⟨found, hfound, h⟩ := Option.bind_eq_some_iff.1 h
    obtain ⟨first, last, rfl, hclosest⟩ : ∃ first last, found = .between first last ∧
        closestRanges target t.words = {(first, last)} :=
      closestRanges_eq_of_closestRange hfound
    have hlt := lt_of_closestRanges_eq hwords hclosest
    have hle : last ≤ (Word.all t).length := by
      have hmem : (first, last) ∈ closestRanges target t.words := by simp [hclosest]
      have hlast : last ≤ t.words.length := hmem.2.1
      rwa [words, List.length_map] at hlast
    refine ⟨first, last, hlt, hle, hclosest, ?_⟩
    have hlength : (Span.between first last).length ≠ 0 := by
      simp only [Span.between]
      omega
    have hstart : (Span.between first last).start.toNat = first := Int.toNat_natCast first
    have hstop : (Span.between first last).stop.toNat = last := by
      rw [Span.stop_between, Int.toNat_natCast]
    rw [if_neg hlength, hstart, hstop, List.getElem?_eq_getElem (by omega),
      List.getLast?_eq_getElem?, List.getElem?_eq_getElem (by omega)] at h
    obtain rfl := Option.some.inj h
    refine ⟨rfl, ?_⟩
    rw [Span.stop_mk_sub]
    by_cases hnext : last < (Word.all t).length
    · rw [dif_pos hnext, List.getElem?_eq_getElem hnext]
    · obtain rfl : last = (Word.all t).length := by omega
      rw [dif_neg hnext, List.getElem?_eq_none (Nat.le_refl _)]

theorem proper_of_findWords {target : List Text} (h : t.findWords target = some s) :
    s.Proper t.length := by
  obtain ⟨first, last, hlt, hle, -, hstart, hstop⟩ := exists_of_findWords h
  have hfirst := Word.proper_getElem (t := t) (i := first) (by omega)
  refine ⟨?_, ?_, ?_⟩
  · rw [hstart]
    exact hfirst.nonneg
  · rw [hstart, hstop]
    split
    · rename_i hnext
      exact Int.lt_trans hfirst.lt (Word.stop_lt_start hlt hnext)
    · exact Word.start_lt_stop (Nat.le_sub_one_of_lt hlt) _
  · rw [hstop]
    split
    · rename_i hnext
      have hnext := Word.proper_getElem hnext
      exact Int.le_trans (Int.le_of_lt hnext.lt) hnext.le
    · exact (Word.proper_getElem _).le

end Text

end GrammarCheck
