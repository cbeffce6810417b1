import GrammarCheck.Text.Basic

namespace GrammarCheck.Text

variable {c : Char} {t u : Text}

theorem trimRight_concat (h : isBlank c = false) (t : Text) : trimRight (t ++ [c]) = t ++ [c] := by
  rw [trimRight, List.reverse_concat, List.dropWhile_cons_of_neg (by simp [h]), List.reverse_cons,
    List.reverse_reverse]

theorem trimRight_append_cons (hc : isBlank c = false) (t u : Text) :
    trimRight (t ++ c :: u) = t ++ c :: trimRight u := by
  rw [trimRight, trimRight, List.reverse_append, List.reverse_cons, List.append_assoc,
    List.dropWhile_append]
  split
  · rename_i hempty
    rw [List.isEmpty_iff.1 hempty]
    simp [hc]
  · simp

theorem trimRight_append_of_blank (hu : ∀ c ∈ u, isBlank c) (t : Text) :
    trimRight (t ++ u) = trimRight t := by
  rw [trimRight, List.reverse_append, List.dropWhile_append_of_pos (by simpa using hu), trimRight]

theorem trimRight_eq_nil (h : ∀ c ∈ t, isBlank c) : trimRight t = [] := by
  simpa [trimRight] using trimRight_append_of_blank h []

theorem exists_blanks (t : Text) : ∃ u, (∀ c ∈ u, isBlank c) ∧ t = trimRight t ++ u := by
  refine ⟨(t.reverse.takeWhile isBlank).reverse, ?_, ?_⟩
  · intro c hc
    exact List.all_eq_true.1 List.all_takeWhile c (List.mem_reverse.1 hc)
  · rw [trimRight, ← List.reverse_append, List.takeWhile_append_dropWhile, List.reverse_reverse]

theorem trimLeft_append_of_blank (ht : ∀ c ∈ t, isBlank c) (u : Text) :
    trimLeft (t ++ u) = trimLeft u :=
  List.dropWhile_append_of_pos ht

theorem trimLeft_of_head (h : ∀ c ∈ t.head?, isBlank c = false) : trimLeft t = t := by
  cases t with
  | nil => rfl
  | cons c t => exact List.dropWhile_cons_of_neg (by simp [h c rfl])

theorem trimRight_of_getLast (h : ∀ c ∈ t.getLast?, isBlank c = false) : trimRight t = t := by
  have hhead : ∀ c ∈ t.reverse.head?, isBlank c = false := by
    rwa [List.head?_reverse]
  have hleft : t.reverse.dropWhile isBlank = t.reverse := trimLeft_of_head hhead
  rw [trimRight, hleft, List.reverse_reverse]

theorem isBlank_getLast_trimRight (t : Text) : ∀ c ∈ (trimRight t).getLast?, isBlank c = false := by
  intro c hc
  have hnot := List.head?_dropWhile_not isBlank t.reverse
  rw [trimRight, List.getLast?_reverse, Option.mem_def] at hc
  simpa [hc] using hnot

theorem isBlank_head_trim (t : Text) : ∀ c ∈ t.trim.head?, isBlank c = false := by
  intro c hc
  have hnot := List.head?_dropWhile_not isBlank t.trimRight
  rw [trim, trimLeft, Option.mem_def] at hc
  simpa [hc] using hnot

theorem takeWhile_trimRight (h : t.trim ≠ []) : t.trimRight.takeWhile isBlank = t.takeWhile isBlank := by
  obtain ⟨u, -, ht⟩ := exists_blanks t
  have hshort : (t.trimRight.takeWhile isBlank).length ≠ t.trimRight.length := by
    intro hlength
    have hwhole := (List.takeWhile_prefix isBlank (l := t.trimRight)).eq_of_length hlength
    have hall : t.trimRight.all isBlank := by
      rw [← hwhole]
      exact List.all_takeWhile
    have hleft := trimLeft_append_of_blank (List.all_eq_true.1 hall) []
    rw [List.append_nil] at hleft
    exact h hleft
  have happend : (t.trimRight ++ u).takeWhile isBlank = t.trimRight.takeWhile isBlank := by
    rw [List.takeWhile_append, if_neg hshort]
  rw [← ht] at happend
  exact happend.symm

theorem trimRight_trimRight (t : Text) : trimRight (trimRight t) = trimRight t :=
  trimRight_of_getLast (isBlank_getLast_trimRight t)

theorem trimRight_append (hu : trimRight u = u) (hne : u ≠ []) (t : Text) :
    trimRight (t ++ u) = t ++ u := by
  apply trimRight_of_getLast
  rw [List.getLast?_append, List.getLast?_eq_some_getLast hne, Option.some_or,
    ← List.getLast?_eq_some_getLast hne, ← hu]
  exact isBlank_getLast_trimRight u

end GrammarCheck.Text
