import GrammarCheck.EditDistance
import Mathlib.Order.Lattice.Nat
import Mathlib.Order.Bounds.Basic

namespace GrammarCheck.EditDistance

variable {α : Type} {xs ys zs us vs : List α} {m n : Nat}

inductive Edit : List α → List α → Prop
  | insert (before : List α) (y : α) (after : List α) : Edit (before ++ after) (before ++ y :: after)
  | delete (before : List α) (x : α) (after : List α) : Edit (before ++ x :: after) (before ++ after)
  | substitute (before : List α) (x y : α) (after : List α) :
    Edit (before ++ x :: after) (before ++ y :: after)

inductive Edits : Nat → List α → List α → Prop
  | refl (xs : List α) : Edits 0 xs xs
  | step {n : Nat} {xs ys zs : List α} : Edit xs ys → Edits n ys zs → Edits (n + 1) xs zs

noncomputable def editDistance (xs ys : List α) : Nat := sInf {n | Edits n xs ys}

inductive Aligned : List α → List α → Nat → Prop
  | nil : Aligned [] [] 0
  | keep (x : α) {xs ys : List α} {n : Nat} : Aligned xs ys n → Aligned (x :: xs) (x :: ys) n
  | delete (x : α) {xs ys : List α} {n : Nat} : Aligned xs ys n → Aligned (x :: xs) ys (n + 1)
  | insert (y : α) {xs ys : List α} {n : Nat} : Aligned xs ys n → Aligned xs (y :: ys) (n + 1)
  | substitute (x y : α) {xs ys : List α} {n : Nat} :
    Aligned xs ys n → Aligned (x :: xs) (y :: ys) (n + 1)

theorem Edit.cons (z : α) (h : Edit xs ys) : Edit (z :: xs) (z :: ys) := by
  cases h with
  | insert before y after => exact .insert (z :: before) y after
  | delete before x after => exact .delete (z :: before) x after
  | substitute before x y after => exact .substitute (z :: before) x y after

theorem Edits.cons (z : α) (h : Edits n xs ys) : Edits n (z :: xs) (z :: ys) := by
  induction h with
  | refl xs => exact .refl (z :: xs)
  | step h _ ih => exact .step (h.cons z) ih

namespace Aligned

theorem refl (xs : List α) : Aligned xs xs 0 := by
  induction xs with
  | nil => exact .nil
  | cons x xs ih => exact .keep x ih

theorem edits (h : Aligned xs ys n) : Edits n xs ys := by
  induction h with
  | nil => exact .refl []
  | keep x _ ih => exact ih.cons x
  | delete x _ ih => exact .step (.delete [] x _) ih
  | insert y _ ih => exact .step (.insert [] y _) (ih.cons y)
  | substitute x y _ ih => exact .step (.substitute [] x y _) (ih.cons y)

theorem append (h : Aligned xs ys m) (h' : Aligned us vs n) :
    Aligned (xs ++ us) (ys ++ vs) (m + n) := by
  induction h with
  | nil => simpa using h'
  | keep x _ ih => exact .keep x ih
  | delete x _ ih => simpa [Nat.add_right_comm] using Aligned.delete x ih
  | insert y _ ih => simpa [Nat.add_right_comm] using Aligned.insert y ih
  | substitute x y _ ih => simpa [Nat.add_right_comm] using Aligned.substitute x y ih

theorem reverse (h : Aligned xs ys n) : Aligned xs.reverse ys.reverse n := by
  induction h with
  | nil => exact .nil
  | keep x _ ih => simpa using ih.append (.keep x .nil)
  | delete x _ ih => simpa using ih.append (.delete x .nil)
  | insert y _ ih => simpa using ih.append (.insert y .nil)
  | substitute x y _ ih => simpa using ih.append (.substitute x y .nil)

@[simp] theorem reverse_iff : Aligned xs.reverse ys.reverse n ↔ Aligned xs ys n :=
  ⟨fun h => by simpa using h.reverse, reverse⟩

theorem split (h : Aligned (us ++ vs) zs n) :
    ∃ us' vs' m k, zs = us' ++ vs' ∧ n = m + k ∧ Aligned us us' m ∧ Aligned vs vs' k := by
  generalize huv : us ++ vs = xs at h
  induction h generalizing us with
  | nil =>
    obtain ⟨rfl, rfl⟩ := List.append_eq_nil_iff.1 huv
    exact ⟨[], [], 0, 0, rfl, rfl, .nil, .nil⟩
  | insert z _ ih =>
    obtain ⟨us', vs', m, k, rfl, rfl, hu, hv⟩ := ih huv
    exact ⟨z :: us', vs', m + 1, k, rfl, by omega, .insert z hu, hv⟩
  | @keep x xs ys n h ih =>
    cases us with
    | nil =>
      obtain rfl : vs = x :: xs := huv
      exact ⟨[], x :: ys, 0, n, rfl, by omega, .nil, .keep x h⟩
    | cons u us =>
      obtain ⟨rfl, htail⟩ := List.cons.inj huv
      obtain ⟨us', vs', m, k, rfl, rfl, hu, hv⟩ := ih htail
      exact ⟨u :: us', vs', m, k, rfl, rfl, .keep u hu, hv⟩
  | @delete x xs ys n h ih =>
    cases us with
    | nil =>
      obtain rfl : vs = x :: xs := huv
      exact ⟨[], ys, 0, n + 1, rfl, by omega, .nil, .delete x h⟩
    | cons u us =>
      obtain ⟨rfl, htail⟩ := List.cons.inj huv
      obtain ⟨us', vs', m, k, rfl, rfl, hu, hv⟩ := ih htail
      exact ⟨us', vs', m + 1, k, rfl, by omega, .delete u hu, hv⟩
  | @substitute x y xs ys n h ih =>
    cases us with
    | nil =>
      obtain rfl : vs = x :: xs := huv
      exact ⟨[], y :: ys, 0, n + 1, rfl, by omega, .nil, .substitute x y h⟩
    | cons u us =>
      obtain ⟨rfl, htail⟩ := List.cons.inj huv
      obtain ⟨us', vs', m, k, rfl, rfl, hu, hv⟩ := ih htail
      exact ⟨y :: us', vs', m + 1, k, rfl, by omega, .substitute u y hu, hv⟩

theorem tail {x : α} (h : Aligned (x :: xs) ys n) : ∃ k ≤ n + 1, Aligned xs ys k := by
  generalize hx : x :: xs = us at h
  induction h with
  | nil => cases hx
  | insert y _ ih =>
    obtain ⟨k, hk, h⟩ := ih hx
    exact ⟨k + 1, by omega, .insert y h⟩
  | keep x h =>
    cases hx
    exact ⟨_, Nat.le_refl _, .insert x h⟩
  | delete x h =>
    cases hx
    exact ⟨_, by omega, h⟩
  | substitute x y h =>
    cases hx
    exact ⟨_, by omega, .insert y h⟩

theorem replaceHead {x : α} (z : α) (h : Aligned (x :: xs) ys n) :
    ∃ k ≤ n + 1, Aligned (z :: xs) ys k := by
  generalize hx : x :: xs = us at h
  induction h with
  | nil => cases hx
  | insert y _ ih =>
    obtain ⟨k, hk, h⟩ := ih hx
    exact ⟨k + 1, by omega, .insert y h⟩
  | keep x h =>
    cases hx
    exact ⟨_, Nat.le_refl _, .substitute z x h⟩
  | delete x h =>
    cases hx
    exact ⟨_, by omega, .delete z h⟩
  | substitute x y h =>
    cases hx
    exact ⟨_, by omega, .substitute z y h⟩

end Aligned

theorem Edit.aligned (h : Edit xs ys) (h' : Aligned ys zs n) : ∃ k ≤ n + 1, Aligned xs zs k := by
  cases h with
  | insert before y after =>
    obtain ⟨us, vs, m, k, rfl, rfl, hu, hv⟩ := h'.split
    obtain ⟨k', hk, hv⟩ := hv.tail
    exact ⟨m + k', by omega, hu.append hv⟩
  | delete before x after =>
    obtain ⟨us, vs, m, k, rfl, rfl, hu, hv⟩ := h'.split
    exact ⟨m + (k + 1), by omega, hu.append (.delete x hv)⟩
  | substitute before x y after =>
    obtain ⟨us, vs, m, k, rfl, rfl, hu, hv⟩ := h'.split
    obtain ⟨k', hk, hv⟩ := hv.replaceHead x
    exact ⟨m + k', by omega, hu.append hv⟩

theorem Edits.aligned (h : Edits n xs ys) : ∃ k ≤ n, Aligned xs ys k := by
  induction h with
  | refl xs => exact ⟨0, Nat.le_refl 0, .refl xs⟩
  | step h _ ih =>
    obtain ⟨k, hk, h'⟩ := ih
    obtain ⟨k', hk', h'⟩ := h.aligned h'
    exact ⟨k', by omega, h'⟩

namespace Aligned

theorem exists_cost (xs ys : List α) : ∃ n, Aligned xs ys n := by
  induction xs with
  | nil =>
    induction ys with
    | nil => exact ⟨0, .nil⟩
    | cons y ys ih => exact ih.imp' (· + 1) fun _ => .insert y
  | cons x xs ih => exact ih.imp' (· + 1) fun _ => .delete x

theorem nil_right_iff : Aligned xs [] n ↔ n = xs.length := by
  constructor
  · intro h
    generalize hy : [] = ys at h
    induction h with
    | nil => rfl
    | delete x _ ih => rw [ih hy, List.length_cons]
    | keep | insert | substitute => cases hy
  · rintro rfl
    induction xs with
    | nil => exact .nil
    | cons x xs ih => exact .delete x ih

theorem cons_cons_iff {x y : α} :
    Aligned (x :: xs) (y :: ys) n ↔
      (∃ m, n = m + 1 ∧ Aligned xs (y :: ys) m) ∨ (∃ m, n = m + 1 ∧ Aligned (x :: xs) ys m) ∨
        (∃ m, n = m + 1 ∧ Aligned xs ys m) ∨ x = y ∧ Aligned xs ys n := by
  constructor
  · intro h
    cases h with
    | keep _ h => exact .inr (.inr (.inr ⟨rfl, h⟩))
    | delete _ h => exact .inl ⟨_, rfl, h⟩
    | insert _ h => exact .inr (.inl ⟨_, rfl, h⟩)
    | substitute _ _ h => exact .inr (.inr (.inl ⟨_, rfl, h⟩))
  · rintro (⟨m, rfl, h⟩ | ⟨m, rfl, h⟩ | ⟨m, rfl, h⟩ | ⟨rfl, h⟩)
    · exact .delete x h
    · exact .insert y h
    · exact .substitute x y h
    · exact .keep x h

theorem concat_concat_iff {x y : α} :
    Aligned (xs ++ [x]) (ys ++ [y]) n ↔
      (∃ m, n = m + 1 ∧ Aligned xs (ys ++ [y]) m) ∨ (∃ m, n = m + 1 ∧ Aligned (xs ++ [x]) ys m) ∨
        (∃ m, n = m + 1 ∧ Aligned xs ys m) ∨ x = y ∧ Aligned xs ys n := by
  have h : Aligned (x :: xs.reverse) (y :: ys.reverse) n ↔ _ := cons_cons_iff
  have hx : x :: xs.reverse = (xs ++ [x]).reverse := by simp
  have hy : y :: ys.reverse = (ys ++ [y]).reverse := by simp
  simpa only [hx, hy, reverse_iff] using h

end Aligned

theorem isLeast_edits (xs ys : List α) : IsLeast {n | Edits n xs ys} (editDistance xs ys) := by
  obtain ⟨n, h⟩ := Aligned.exists_cost xs ys
  exact ⟨Nat.sInf_mem ⟨n, h.edits⟩, fun _ => Nat.sInf_le⟩

theorem isLeast_editDistance (xs ys : List α) :
    IsLeast {n | Aligned xs ys n} (editDistance xs ys) := by
  have hleast := isLeast_edits xs ys
  obtain ⟨k, hk, h⟩ := hleast.1.aligned
  have heq : k = editDistance xs ys := Nat.le_antisymm hk (hleast.2 h.edits)
  exact ⟨heq ▸ h, fun _ h => hleast.2 h.edits⟩

theorem editDistance_reverse (xs ys : List α) :
    editDistance xs.reverse ys.reverse = editDistance xs ys := by
  have h := isLeast_editDistance xs.reverse ys.reverse
  simp only [Aligned.reverse_iff] at h
  exact h.unique (isLeast_editDistance xs ys)

end GrammarCheck.EditDistance
