import GrammarCheck.Text.Basic
import Mathlib.Data.Nat.Digits.Defs

namespace GrammarCheck.Text

variable {separator : Char} {t : Text} {parts : List Text}

theorem pieces_of_not_mem (h : separator ∉ t) : t.pieces separator = [t] := by
  induction t with
  | nil => rfl
  | cons c t ih =>
    obtain ⟨hc, ht⟩ := not_or.1 (mt List.mem_cons.2 h)
    simp [pieces, Ne.symm hc, ih ht]

theorem pieces_ne_nil (separator : Char) (t : Text) : t.pieces separator ≠ [] := by
  fun_cases pieces separator t <;> simp

theorem pieces_append_cons (separator : Char) (t rest : Text) :
    (t ++ separator :: rest).pieces separator = t.pieces separator ++ rest.pieces separator := by
  induction t with
  | nil => simp [pieces]
  | cons c t ih =>
    rw [List.cons_append, pieces, pieces, ih]
    split
    · rfl
    · obtain ⟨piece, others, hpieces⟩ := List.exists_cons_of_ne_nil (pieces_ne_nil separator t)
      rw [hpieces]
      rfl

theorem pieces_append (h : separator ∉ t) (rest : Text) :
    (t ++ separator :: rest).pieces separator = t :: rest.pieces separator := by
  rw [pieces_append_cons, pieces_of_not_mem h, List.singleton_append]

theorem pieces_join (hne : parts ≠ []) (h : ∀ part ∈ parts, separator ∉ part) :
    (join [separator] parts).pieces separator = parts := by
  induction parts with
  | nil => exact absurd rfl hne
  | cons part parts ih =>
    have hpart : separator ∉ part := h part List.mem_cons_self
    cases parts with
    | nil => exact pieces_of_not_mem hpart
    | cons other parts =>
      rw [join, List.append_assoc, List.singleton_append, pieces_append hpart]
      · rw [ih (List.cons_ne_nil _ _) fun p hp => h p (List.mem_cons_of_mem part hp)]
      · exact List.cons_ne_nil _ _

theorem isDigit_of_mem_ofNat {n : Nat} {c : Char} (h : c ∈ ofNat n) : c.isDigit :=
  Nat.isDigit_of_mem_toDigits (by decide) (by decide) h

theorem ofNat_injective : Function.Injective ofNat := by
  intro m n h
  calc
    m = Nat.ofDigitChars 10 (ofNat m) 0 := Nat.ofDigitChars_ten_toDigits.symm
    _ = Nat.ofDigitChars 10 (ofNat n) 0 := by rw [h]
    _ = n := Nat.ofDigitChars_ten_toDigits

end GrammarCheck.Text
