import GrammarCheck.Notation.Reading
import GrammarCheck.Proofs.Text.Trim

namespace GrammarCheck.Text

variable {c : Char} {t u : Text}

theorem isLineEnd_iff : isLineEnd c ↔ c = '\r' ∨ c = '\n' := by
  rw [isLineEnd, Bool.or_eq_true, beq_iff_eq, beq_iff_eq]

theorem unifyLineEnds_feed (t : Text) : unifyLineEnds ('\n' :: t) = '\n' :: unifyLineEnds t := rfl

theorem unifyLineEnds_return_feed (t : Text) :
    unifyLineEnds ('\r' :: '\n' :: t) = '\n' :: unifyLineEnds t := rfl

theorem unifyLineEnds_return (h : t.head? ≠ some '\n') :
    unifyLineEnds ('\r' :: t) = '\n' :: unifyLineEnds t := by
  rw [unifyLineEnds]
  rintro rest rfl
  exact h rfl

theorem unifyLineEnds_cons (h : isLineEnd c = false) (t : Text) :
    unifyLineEnds (c :: t) = c :: unifyLineEnds t := by
  have hreturn : c ≠ '\r' := by
    rintro rfl
    cases h
  rw [unifyLineEnds]
  · rintro rest rfl
    contradiction
  · exact hreturn

theorem getLast?_ne_of_cons (h : (c :: t).getLast? ≠ some '\r') : t.getLast? ≠ some '\r' := by
  cases t with
  | nil => simp
  | cons d t => rwa [List.getLast?_cons_cons] at h

theorem head?_append_ne (h : ('\r' :: t).getLast? ≠ some '\r' ∨ u.head? ≠ some '\n')
    (ht : t.head? ≠ some '\n') : (t ++ u).head? ≠ some '\n' := by
  cases t with
  | nil => exact h.resolve_left fun hlast => hlast rfl
  | cons d t => exact ht

theorem unifyLineEnds_append (h : t.getLast? ≠ some '\r' ∨ u.head? ≠ some '\n') :
    unifyLineEnds (t ++ u) = unifyLineEnds t ++ unifyLineEnds u := by
  fun_induction unifyLineEnds t with
  | case1 => rfl
  | case2 t ih =>
    have hmore := ih (h.imp_left fun h => getLast?_ne_of_cons (getLast?_ne_of_cons h))
    rw [List.cons_append, List.cons_append, unifyLineEnds_return_feed, hmore, List.cons_append]
  | case3 t hno ih =>
    have hmore := ih (h.imp_left getLast?_ne_of_cons)
    have hhead : t.head? ≠ some '\n' := by
      intro hfeed
      obtain ⟨rest, rfl⟩ := List.head?_eq_some_iff.1 hfeed
      exact hno rest rfl
    rw [List.cons_append, unifyLineEnds_return (head?_append_ne h hhead), hmore, List.cons_append]
  | case4 c t hno hreturn ih =>
    have hmore := ih (h.imp_left getLast?_ne_of_cons)
    by_cases hline : isLineEnd c
    · obtain rfl | rfl := isLineEnd_iff.1 hline
      · exact absurd rfl hreturn
      · rw [List.cons_append, unifyLineEnds_feed, hmore, List.cons_append]
    · rw [List.cons_append, unifyLineEnds_cons (by simpa using hline), hmore, List.cons_append]

theorem unifyLineEnds_of_not_mem (h : '\r' ∉ t) : unifyLineEnds t = t := by
  fun_induction unifyLineEnds t <;> simp_all

theorem unifyLineEnds_idem (t : Text) : unifyLineEnds (unifyLineEnds t) = unifyLineEnds t :=
  unifyLineEnds_of_not_mem (not_mem_unifyLineEnds t)

theorem sourceLine_unifyLineEnds (t : Text) (n : Int) :
    t.unifyLineEnds.sourceLine n = t.sourceLine n := by
  rw [sourceLine, sourceLine, unifyLineEnds_idem]

theorem isBlank_unifyLineEnds (h : ∀ c ∈ t, isBlank c) : ∀ c ∈ unifyLineEnds t, isBlank c := by
  fun_induction unifyLineEnds t with
  | case1 => exact h
  | case2 t ih =>
    exact List.forall_mem_cons.2 ⟨rfl, ih (List.forall_mem_cons.1 (List.forall_mem_cons.1 h).2).2⟩
  | case3 t _ ih => exact List.forall_mem_cons.2 ⟨rfl, ih (List.forall_mem_cons.1 h).2⟩
  | case4 c t _ _ ih =>
    exact List.forall_mem_cons.2 ⟨(List.forall_mem_cons.1 h).1, ih (List.forall_mem_cons.1 h).2⟩

theorem trimRight_unifyLineEnds (t : Text) :
    (unifyLineEnds t).trimRight = unifyLineEnds t.trimRight := by
  obtain ⟨blanks, hblanks, ht⟩ := exists_blanks t
  have hlast := isBlank_getLast_trimRight t
  generalize t.trimRight = core at ht hlast ⊢
  subst ht
  have hreturn : core.getLast? ≠ some '\r' := by
    intro hreturn
    cases hlast '\r' hreturn
  rw [unifyLineEnds_append (.inl hreturn), trimRight_append_of_blank (isBlank_unifyLineEnds hblanks)]
  obtain rfl | ⟨init, c, rfl⟩ := List.eq_nil_or_concat core
  · rfl
  · have hc : isBlank c = false := hlast c (by simp)
    have hline := not_isLineEnd_of_plain hc
    have hfeed : [c].head? ≠ some '\n' := by
      rintro hfeed
      cases hfeed
      cases hline
    rw [List.concat_eq_append, unifyLineEnds_append (.inr hfeed), unifyLineEnds_cons hline]
    exact trimRight_concat hc _

end GrammarCheck.Text
