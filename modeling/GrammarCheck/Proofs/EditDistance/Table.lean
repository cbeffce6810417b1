import GrammarCheck.Proofs.EditDistance.Alignment
import Mathlib.Data.List.Infix

/-!
Tables of distances. Row `i` holds a cost of the first `i` elements of one sequence, with an entry for
each beginning of the other. The two rows that are kept hold rows of the table throughout, whatever
the cost is, as long as it obeys the recurrence. In a search it is the least distance from the ranges
that end at an entry.
-/

namespace GrammarCheck.EditDistance

variable {α : Type} {xs ys : List α} {n : Nat}

noncomputable def endCost (xs ys : List α) : Nat := sInf {n | ∃ s, s <:+ ys ∧ Aligned xs s n}

theorem isLeast_endCost (xs ys : List α) :
    IsLeast {n | ∃ s, s <:+ ys ∧ Aligned xs s n} (endCost xs ys) := by
  obtain ⟨n, h⟩ := Aligned.exists_cost xs ys
  exact ⟨Nat.sInf_mem ⟨n, ys, List.suffix_refl ys, h⟩, fun _ => Nat.sInf_le⟩

@[simp] theorem endCost_nil_left (ys : List α) : endCost [] ys = 0 :=
  Nat.le_zero.1 ((isLeast_endCost [] ys).2 ⟨[], List.nil_suffix, .nil⟩)

@[simp] theorem endCost_nil_right (xs : List α) : endCost xs [] = xs.length := by
  obtain ⟨s, hs, h⟩ := (isLeast_endCost xs []).1
  obtain rfl := List.suffix_nil.1 hs
  exact Aligned.nil_right_iff.1 h

theorem exists_suffix_concat_iff {x y : α} :
    (∃ s, s <:+ ys ++ [y] ∧ Aligned (xs ++ [x]) s n) ↔
      (∃ m, n = m + 1 ∧ ∃ s, s <:+ ys ++ [y] ∧ Aligned xs s m) ∨
        (∃ m, n = m + 1 ∧ ∃ s, s <:+ ys ∧ Aligned (xs ++ [x]) s m) ∨
          (∃ m, n = m + 1 ∧ ∃ s, s <:+ ys ∧ Aligned xs s m) ∨
            x = y ∧ ∃ s, s <:+ ys ∧ Aligned xs s n := by
  constructor
  · rintro ⟨s, hs, h⟩
    obtain rfl | ⟨t, rfl, ht⟩ := List.suffix_concat_iff.1 hs
    · have hn := Aligned.nil_right_iff.1 h
      exact .inl ⟨xs.length, by simpa using hn, [], List.nil_suffix, Aligned.nil_right_iff.2 rfl⟩
    · obtain ⟨m, rfl, h'⟩ | ⟨m, rfl, h'⟩ | ⟨m, rfl, h'⟩ | ⟨rfl, h'⟩ := Aligned.concat_concat_iff.1 h
      · exact .inl ⟨m, rfl, t ++ [y], hs, h'⟩
      · exact .inr (.inl ⟨m, rfl, t, ht, h'⟩)
      · exact .inr (.inr (.inl ⟨m, rfl, t, ht, h'⟩))
      · exact .inr (.inr (.inr ⟨rfl, t, ht, h'⟩))
  · have hgrow : ∀ {t : List α}, t <:+ ys → t ++ [y] <:+ ys ++ [y] := by
      rintro t ⟨u, rfl⟩
      exact ⟨u, by simp⟩
    rintro (⟨m, rfl, s, hs, h⟩ | ⟨m, rfl, s, hs, h⟩ | ⟨m, rfl, s, hs, h⟩ | ⟨rfl, s, hs, h⟩)
    · exact ⟨s, hs, by simpa using h.append (.delete x .nil)⟩
    · exact ⟨s ++ [y], hgrow hs, by simpa using h.append (.insert y .nil)⟩
    · exact ⟨s ++ [y], hgrow hs, by simpa using h.append (.substitute x y .nil)⟩
    · exact ⟨s ++ [x], hgrow hs, by simpa using h.append (.keep x .nil)⟩

variable [DecidableEq α]

structure Recurrence (cost : List α → List α → Nat) : Prop where
  nil_right (xs : List α) : cost xs [] = xs.length
  step (xs ys : List α) (x y : α) :
    cost (xs ++ [x]) (ys ++ [y]) =
      min (min (cost xs (ys ++ [y]) + 1) (cost (xs ++ [x]) ys + 1))
        (cost xs ys + if x = y then 0 else 1)

theorem Recurrence.of_isLeast {cost : List α → List α → Nat} {Costs : List α → List α → Nat → Prop}
    (hnil : ∀ xs, cost xs [] = xs.length) (hleast : ∀ xs ys, IsLeast {n | Costs xs ys n} (cost xs ys))
    (hconcat : ∀ {xs ys n x y}, Costs (xs ++ [x]) (ys ++ [y]) n ↔
      (∃ m, n = m + 1 ∧ Costs xs (ys ++ [y]) m) ∨ (∃ m, n = m + 1 ∧ Costs (xs ++ [x]) ys m) ∨
        (∃ m, n = m + 1 ∧ Costs xs ys m) ∨ x = y ∧ Costs xs ys n) : Recurrence cost where
  nil_right := hnil
  step xs ys x y := by
    have habove := hleast xs (ys ++ [y])
    have hleft := hleast (xs ++ [x]) ys
    have hdiagonal := hleast xs ys
    have hentry := hleast (xs ++ [x]) (ys ++ [y])
    apply Nat.le_antisymm
    · refine Nat.le_min.2 ⟨Nat.le_min.2 ⟨?_, ?_⟩, ?_⟩
      · exact hentry.2 (hconcat.2 (.inl ⟨_, rfl, habove.1⟩))
      · exact hentry.2 (hconcat.2 (.inr (.inl ⟨_, rfl, hleft.1⟩)))
      · split
        · rename_i h
          exact hentry.2 (hconcat.2 (.inr (.inr (.inr ⟨h, hdiagonal.1⟩))))
        · exact hentry.2 (hconcat.2 (.inr (.inr (.inl ⟨_, rfl, hdiagonal.1⟩))))
    · obtain ⟨m, hm, h⟩ | ⟨m, hm, h⟩ | ⟨m, hm, h⟩ | ⟨rfl, h⟩ := hconcat.1 hentry.1
      · have := habove.2 h
        omega
      · have := hleft.2 h
        omega
      · have := hdiagonal.2 h
        split <;> omega
      · have := hdiagonal.2 h
        rw [if_pos rfl]
        omega

/-- What each entry is beside those of the first row, which a table may choose. -/
structure IsTable (xs ys : List α) (table : Nat → Nat → Nat) : Prop where
  column {i : Nat} : i ≤ xs.length → table i 0 = i
  entry {i j : Nat} {x y : α} : xs[i]? = some x → ys[j]? = some y →
    table (i + 1) (j + 1) =
      min (min (table i (j + 1) + 1) (table (i + 1) j + 1)) (table i j + if x = y then 0 else 1)

theorem Recurrence.isTable {cost : List α → List α → Nat} (h : Recurrence cost) (xs ys : List α) :
    IsTable xs ys fun i j => cost (xs.take i) (ys.take j) where
  column hi := by rw [List.take_zero, h.nil_right, List.length_take, Nat.min_eq_left hi]
  entry hx hy := by simp only [List.take_add_one, hx, hy, Option.toList_some, h.step]

theorem getElem?_map_range {β : Type} (f : Nat → β) (width k : Nat) :
    ((List.range (width + 1)).map f)[k]? = if k ≤ width then some (f k) else none := by
  by_cases hk : k ≤ width
  · rw [if_pos hk, List.getElem?_map, List.getElem?_range (Nat.lt_succ_of_le hk), Option.map_some]
  · have hlength : ((List.range (width + 1)).map f).length ≤ k := by
      rw [List.length_map, List.length_range]
      omega
    rw [if_neg hk, List.getElem?_eq_none hlength]

namespace Rows

variable {table : Nat → Nat → Nat} {width i j written : Nat} {rows : Rows} {x y : α}

theorem fill_concat (x y : α) (ys : List α) (rows : Rows) :
    rows.fill x (ys ++ [y]) = (rows.fill x ys).write x y ys.length := by
  simp [fill, List.zipIdx_append]

theorem run_concat (x : α) (xs ys : List α) (rows : Rows) :
    rows.run (xs ++ [x]) ys =
      (((rows.run xs ys).setFollowing 0 (xs.length + 1)).fill x ys).swap := by
  simp [run, List.zipIdx_append, Nat.add_comm]

/-- Row `i`, and the first entries of the row after it written over the row before it. Zeros stand
where there is no row before. -/
structure Hold (table : Nat → Nat → Nat) (width i written : Nat) (rows : Rows) : Prop where
  current (k : Nat) : rows.current[k]? = if k ≤ width then some (table i k) else none
  following (k : Nat) : rows.following[k]? =
    if k ≤ width then
      some (if k < written then table (i + 1) k else if i = 0 then 0 else table (i - 1) k)
    else none

namespace Hold

omit [DecidableEq α] in
theorem ofFirst (table : Nat → Nat → Nat) (width : Nat) :
    (Rows.ofFirst ((List.range (width + 1)).map (table 0)).toArray).Hold table width 0 0 where
  current k := by rw [Rows.ofFirst, List.getElem?_toArray, getElem?_map_range]
  following k := by
    rw [Rows.ofFirst, List.size_toArray, List.length_map, List.length_range, Array.getElem?_replicate]
    by_cases hk : k ≤ width
    · rw [if_pos hk, if_pos (Nat.lt_succ_of_le hk), if_neg (Nat.not_lt_zero k), if_pos rfl]
    · rw [if_neg hk, if_neg (mt Nat.le_of_lt_succ hk)]

omit [DecidableEq α] in
theorem setFollowing (h : rows.Hold table width i written) :
    (rows.setFollowing written (table (i + 1) written)).Hold table width i (written + 1) where
  current := h.current
  following k := by
    have hk := h.following k
    have hsize : k < rows.following.size ↔ k ≤ width := by
      rw [← not_iff_not, not_lt, ← Array.getElem?_eq_none_iff, hk]
      simp
    simp only [Rows.setFollowing, Array.getElem?_setIfInBounds]
    split
    · subst k
      simp [hsize]
    · rw [hk]
      split <;> congr 2
      rw [Nat.lt_succ_iff_lt_or_eq]
      simp [Ne.symm ‹_›]

omit [DecidableEq α] in
theorem swap (h : rows.Hold table width i (width + 1)) : rows.swap.Hold table width (i + 1) 0 where
  current k := by
    rw [Rows.swap, h.following]
    by_cases hk : k ≤ width
    · rw [if_pos hk, if_pos hk, if_pos (Nat.lt_succ_of_le hk)]
    · rw [if_neg hk, if_neg hk]
  following k := by
    refine (h.current k).trans ?_
    simp

theorem write (h : rows.Hold table width i (j + 1)) (hj : j < width)
    (hentry : table (i + 1) (j + 1) =
      min (min (table i (j + 1) + 1) (table (i + 1) j + 1)) (table i j + if x = y then 0 else 1)) :
    (rows.write x y j).Hold table width i (j + 2) := by
  have habove : rows.current.getD (j + 1) 0 = table i (j + 1) := by
    simp [Array.getD_eq_getD_getElem?, h.current, Nat.succ_le_of_lt hj]
  have hleft : rows.following.getD j 0 = table (i + 1) j := by
    simp [Array.getD_eq_getD_getElem?, h.following, hj.le]
  have hdiagonal : rows.current.getD j 0 = table i j := by
    simp [Array.getD_eq_getD_getElem?, h.current, hj.le]
  rw [Rows.write, habove, hleft, hdiagonal, ← hentry]
  exact h.setFollowing

end Hold
end Rows

namespace IsTable

variable {table : Nat → Nat → Nat} {i j : Nat} {x : α} {rows : Rows}

theorem hold_fill (h : IsTable xs ys table) (hrows : rows.Hold table ys.length i 0)
    (hx : xs[i]? = some x) (hj : j ≤ ys.length) :
    ((rows.setFollowing 0 (i + 1)).fill x (ys.take j)).Hold table ys.length i (j + 1) := by
  have hi : i + 1 ≤ xs.length := (List.getElem?_eq_some_iff.1 hx).1
  induction j with
  | zero => simpa [Rows.fill, h.column hi] using hrows.setFollowing
  | succ j ih =>
    have hy : ys[j]? = some ys[j] := List.getElem?_eq_getElem hj
    rw [List.take_add_one, hy, Option.toList_some, Rows.fill_concat, List.length_take,
      Nat.min_eq_left (Nat.le_of_succ_le hj)]
    exact (ih (Nat.le_of_succ_le hj)).write hj (h.entry hx hy)

theorem hold_run (h : IsTable xs ys table) (hrows : rows.Hold table ys.length 0 0)
    (hi : i ≤ xs.length) : (rows.run (xs.take i) ys).Hold table ys.length i 0 := by
  induction i with
  | zero => simpa [Rows.run] using hrows
  | succ i ih =>
    have hx : xs[i]? = some xs[i] := List.getElem?_eq_getElem hi
    rw [List.take_add_one, hx, Option.toList_some, Rows.run_concat, List.length_take,
      Nat.min_eq_left (Nat.le_of_succ_le hi)]
    have hfill := h.hold_fill (ih (Nat.le_of_succ_le hi)) hx (Nat.le_refl ys.length)
    rw [List.take_length] at hfill
    exact hfill.swap

theorem lastRow_eq (h : IsTable xs ys table) :
    lastRow xs ys ((List.range (ys.length + 1)).map (table 0)) =
      (List.range (ys.length + 1)).map (table xs.length) := by
  have hlast := h.hold_run (.ofFirst table ys.length) (Nat.le_refl xs.length)
  rw [List.take_length] at hlast
  refine List.ext_getElem? fun k => ?_
  rw [lastRow, Array.getElem?_toList, hlast.current, getElem?_map_range]

end IsTable

omit [DecidableEq α] in
theorem map_range_take {β : Type} (f : List α → β) (ys : List α) :
    ((List.range (ys.length + 1)).map fun k => f (ys.take k)) = ys.inits.map f := by
  refine List.ext_getElem (by simp) fun k hk _ => ?_
  simp

theorem recurrence_endCost : Recurrence (endCost (α := α)) :=
  .of_isLeast endCost_nil_right isLeast_endCost exists_suffix_concat_iff

theorem matchRow_eq (needle haystack : List α) :
    matchRow needle haystack = haystack.inits.map (endCost needle) := by
  have hfirst : List.replicate (haystack.length + 1) 0 =
      (List.range (haystack.length + 1)).map fun k => endCost (needle.take 0) (haystack.take k) := by
    simp [List.map_const']
  rw [matchRow, hfirst, (recurrence_endCost.isTable needle haystack).lastRow_eq, List.take_length,
    map_range_take]

end GrammarCheck.EditDistance
