import GrammarCheck.Proofs.EditDistance.Distance
import Mathlib.Algebra.Order.Group.Abs
import Mathlib.Algebra.Order.Group.Int

namespace GrammarCheck.EditDistance

variable {α : Type} {xs ys zs : List α} {m n : Nat}

theorem Edit.symm (h : Edit xs ys) : Edit ys xs := by
  cases h with
  | insert before y after => exact .delete before y after
  | delete before x after => exact .insert before x after
  | substitute before x y after => exact .substitute before y x after

namespace Edits

theorem trans (h : Edits m xs ys) (h' : Edits n ys zs) : Edits (m + n) xs zs := by
  induction h with
  | refl => rwa [Nat.zero_add]
  | step first _ ih =>
    rw [Nat.add_right_comm]
    exact .step first (ih h')

theorem symm (h : Edits n xs ys) : Edits n ys xs := by
  induction h with
  | refl xs => exact .refl xs
  | step first _ ih => exact ih.trans (.step first.symm (.refl _))

end Edits

theorem editDistance_symm_le (xs ys : List α) : editDistance xs ys ≤ editDistance ys xs :=
  (isLeast_edits xs ys).2 (isLeast_edits ys xs).1.symm

theorem editDistance_comm (xs ys : List α) : editDistance xs ys = editDistance ys xs :=
  Nat.le_antisymm (editDistance_symm_le xs ys) (editDistance_symm_le ys xs)

theorem editDistance_triangle (xs ys zs : List α) :
    editDistance xs zs ≤ editDistance xs ys + editDistance ys zs :=
  (isLeast_edits xs zs).2 ((isLeast_edits xs ys).1.trans (isLeast_edits ys zs).1)

/-- Elements at the same place are substituted, and those left over are deleted or inserted. -/
theorem Aligned.max_length (xs ys : List α) : Aligned xs ys (max xs.length ys.length) := by
  induction xs generalizing ys with
  | nil => simpa using Aligned.append_left [] ys
  | cons x xs ih =>
    cases ys with
    | nil => exact nil_right_iff.2 (Nat.max_zero _)
    | cons y ys =>
      rw [List.length_cons, List.length_cons, Nat.succ_max_succ]
      exact .substitute x y (ih ys)

theorem editDistance_le_max (xs ys : List α) : editDistance xs ys ≤ max xs.length ys.length :=
  (isLeast_editDistance xs ys).2 (.max_length xs ys)

theorem length_le_add_editDistance (xs ys : List α) : ys.length ≤ xs.length + editDistance xs ys :=
  (isLeast_editDistance xs ys).1.length_le

theorem abs_length_sub_le (xs ys : List α) :
    |(xs.length : ℤ) - ys.length| ≤ editDistance xs ys := by
  have hleft := length_le_add_editDistance xs ys
  have hright := length_le_add_editDistance ys xs
  rw [editDistance_comm] at hright
  rw [abs_le]
  omega

variable [DecidableEq α]

theorem distance_metric (xs ys zs : List α) :
    (distance xs ys = 0 ↔ xs = ys) ∧ distance xs ys = distance ys xs ∧
      distance xs zs ≤ distance xs ys + distance ys zs ∧
      |(xs.length : ℤ) - ys.length| ≤ distance xs ys ∧
      distance xs ys ≤ max xs.length ys.length := by
  simp only [distance_eq]
  refine ⟨editDistance_eq_zero_iff, editDistance_comm xs ys, editDistance_triangle xs ys zs, ?_, ?_⟩
  · exact abs_length_sub_le xs ys
  · exact editDistance_le_max xs ys

end GrammarCheck.EditDistance
