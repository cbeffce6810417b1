import GrammarCheck.Proofs.EditDistance.Table

namespace GrammarCheck.EditDistance

variable {α : Type} {xs ys : List α} {n : Nat}

namespace Aligned

theorem length_le (h : Aligned xs ys n) : ys.length ≤ xs.length + n := by
  induction h with
  | nil => exact Nat.le_refl 0
  | keep | delete | insert | substitute => simp only [List.length_cons]; omega

theorem append_left (xs zs : List α) : Aligned xs (zs ++ xs) zs.length := by
  induction zs with
  | nil => exact .refl xs
  | cons z zs ih => exact .insert z ih

end Aligned

theorem editDistance_append_left (xs zs : List α) : editDistance xs (zs ++ xs) = zs.length := by
  have hleast := isLeast_editDistance xs (zs ++ xs)
  have hlength := hleast.1.length_le
  have hinsert := hleast.2 (Aligned.append_left xs zs)
  rw [List.length_append] at hlength
  omega

theorem editDistance_nil_left (ys : List α) : editDistance [] ys = ys.length := by
  simpa using editDistance_append_left [] ys

theorem editDistance_nil_right (xs : List α) : editDistance xs [] = xs.length :=
  Aligned.nil_right_iff.1 (isLeast_editDistance xs []).1

theorem editDistance_eq_zero_iff : editDistance xs ys = 0 ↔ xs = ys := by
  constructor
  · intro h
    have hedits := (isLeast_edits xs ys).1
    rw [h] at hedits
    cases hedits
    rfl
  · rintro rfl
    simpa using editDistance_append_left xs []

variable [DecidableEq α]

theorem recurrence_editDistance : Recurrence (editDistance (α := α)) :=
  .of_isLeast editDistance_nil_right isLeast_editDistance Aligned.concat_concat_iff

def matrix (xs ys : List α) : Nat → Nat → Nat
  | 0, j => j
  | i + 1, 0 => i + 1
  | i + 1, j + 1 =>
    min (min (matrix xs ys i (j + 1) + 1) (matrix xs ys (i + 1) j + 1))
      (matrix xs ys i j + if xs[i]? = ys[j]? then 0 else 1)
termination_by i j => (i, j)

theorem isTable_matrix (xs ys : List α) : IsTable xs ys (matrix xs ys) where
  column {i} _ := by cases i <;> simp [matrix]
  entry hx hy := by simp [matrix, hx, hy]

theorem IsTable.unique {table table' : Nat → Nat → Nat} (h : IsTable xs ys table)
    (h' : IsTable xs ys table') (hfirst : ∀ j ≤ ys.length, table 0 j = table' 0 j) {i j : Nat}
    (hi : i ≤ xs.length) (hj : j ≤ ys.length) : table i j = table' i j := by
  induction i generalizing j with
  | zero => exact hfirst j hj
  | succ i above =>
    induction j with
    | zero => rw [h.column hi, h'.column hi]
    | succ j left =>
      have hx : xs[i]? = some xs[i] := List.getElem?_eq_getElem hi
      have hy : ys[j]? = some ys[j] := List.getElem?_eq_getElem hj
      rw [h.entry hx hy, h'.entry hx hy, above (Nat.le_of_succ_le hi) hj,
        left (Nat.le_of_succ_le hj), above (Nat.le_of_succ_le hi) (Nat.le_of_succ_le hj)]

theorem matrix_eq {i j : Nat} (hi : i ≤ xs.length) (hj : j ≤ ys.length) :
    matrix xs ys i j = editDistance (xs.take i) (ys.take j) := by
  refine (isTable_matrix xs ys).unique (recurrence_editDistance.isTable xs ys) ?_ hi hj
  intro j hj
  simp [matrix, editDistance_nil_left, Nat.min_eq_left hj]

theorem map_matrix_zero (xs ys : List α) (n : Nat) :
    (List.range n).map (matrix xs ys 0) = List.range n :=
  (List.map_congr_left fun j _ => by rw [matrix]).trans (List.map_id' _)

theorem distance_eq (xs ys : List α) : distance xs ys = editDistance xs ys := by
  unfold distance
  split
  next h => rw [List.isEmpty_iff.1 h, editDistance_nil_left]
  next =>
    split
    next h => rw [List.isEmpty_iff.1 h, editDistance_nil_right]
    next =>
      rw [← map_matrix_zero xs ys, (isTable_matrix xs ys).lastRow_eq]
      simp [matrix_eq]

/-- The distance is the least number of edits, and so is each entry of the matrix for the beginnings
it stands for. The rows that are kept hold the matrix between any two rows, and while a row is
written, after its first entry and any number of others. -/
theorem isLeast_distance_and_rows_hold (xs ys : List α) :
    IsLeast {n | Edits n xs ys} (distance xs ys) ∧
      (∀ i ≤ xs.length, ∀ j ≤ ys.length,
        IsLeast {n | Edits n (xs.take i) (ys.take j)} (matrix xs ys i j)) ∧
      let first := Rows.ofFirst (List.range (ys.length + 1)).toArray
      ∀ i ≤ xs.length,
        (first.run (xs.take i) ys).Hold (matrix xs ys) ys.length i 0 ∧
        ∀ x, xs[i]? = some x → ∀ j ≤ ys.length,
          (((first.run (xs.take i) ys).setFollowing 0 (i + 1)).fill x (ys.take j)).Hold
            (matrix xs ys) ys.length i (j + 1) := by
  refine ⟨?_, fun i hi j hj => ?_, fun i hi => ?_⟩
  · rw [distance_eq]
    exact isLeast_edits xs ys
  · rw [matrix_eq hi hj]
    exact isLeast_edits _ _
  · have hfirst := Rows.Hold.ofFirst (matrix xs ys) ys.length
    rw [map_matrix_zero] at hfirst
    have hrows := (isTable_matrix xs ys).hold_run hfirst hi
    exact ⟨hrows, fun x hx j hj => (isTable_matrix xs ys).hold_fill hrows hx hj⟩

theorem rows_hold_kitten :
    IsLeast {n | Edits n "kitten".toList "sitting".toList} 3 ∧
      (((Rows.ofFirst #[0, 1, 2, 3, 4, 5, 6, 7]).run ['k', 'i'] "sitting".toList).setFollowing 0 3
        |>.fill 't' ['s', 'i', 't']).Hold (matrix "kitten".toList "sitting".toList) 7 2 4 := by
  obtain ⟨hleast, -, hrows⟩ := isLeast_distance_and_rows_hold "kitten".toList "sitting".toList
  have hdistance : distance "kitten".toList "sitting".toList = 3 := by decide +kernel
  exact ⟨hdistance ▸ hleast, (hrows 2 (by decide)).2 't' rfl 3 (by decide)⟩

end GrammarCheck.EditDistance
