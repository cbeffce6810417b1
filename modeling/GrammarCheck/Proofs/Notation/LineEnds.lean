import GrammarCheck.Proofs.Notation.SoundTokens

namespace GrammarCheck

variable {c : Char} {t r value : Text} {kind : Token.Kind} {extra : Nat} {ss : List Symbol}

theorem Text.leadingSpace_prefix (t : Text) : leadingSpace t <+: t := List.takeWhile_prefix _

theorem Text.leadingLine_prefix (t : Text) : leadingLine t <+: t := List.takeWhile_prefix _

theorem Text.leadingWord_prefix (t : Text) : leadingWord t <+: t := by
  induction t with
  | nil => exact List.prefix_refl _
  | cons c t ih =>
    rw [leadingWord]
    split
    · exact List.nil_prefix
    · exact List.cons_prefix_cons.2 ⟨rfl, ih⟩

theorem Quotation.noLineEnd_take (t : Text) :
    ∀ c ∈ t.take (read t).size, isLineEnd c = false := by
  fun_induction read t with
  | case1 | case4 | case5 | case6 => simp
  | case2 => exact List.forall_mem_singleton.2 rfl
  | case3 c rest hescapable ih =>
    have hc := Text.not_isLineEnd_of_isEscapable hescapable
    rw [after, Nat.add_comm 2]
    exact List.forall_mem_cons.2 ⟨rfl, List.forall_mem_cons.2 ⟨hc, ih⟩⟩
  | case7 c rest _ _ hline _ ih =>
    rw [after, Nat.add_comm 1]
    exact List.forall_mem_cons.2 ⟨by simpa using hline, ih⟩

theorem Lexeme.take_of_start (h : value <+: c :: t) (hne : value ≠ []) :
    value.length - 1 ≤ t.length ∧ c :: t.take (value.length - 1) = value := by
  obtain ⟨d, value, rfl⟩ := List.exists_cons_of_ne_nil hne
  obtain ⟨rfl, hstart⟩ := List.cons_prefix_cons.1 h
  rw [List.length_cons, Nat.add_sub_cancel, ← List.prefix_iff_eq_take.1 hstart]
  exact ⟨hstart.length_le, rfl⟩

theorem Lexeme.leadingLine_ne_nil (h : Text.opensComment (c :: t)) :
    Text.leadingLine (c :: t) ≠ [] := by
  have hslash : c = '/' := by
    by_cases hc : c = '/'
    · exact hc
    · rw [opensComment_cons_of_ne hc] at h
      cases h
  subst hslash
  exact List.cons_ne_nil _ _

theorem Lexeme.noLineEnd_of_first (h : first c t = .token kind value extra)
    (hkind : kind ≠ .newline) : ∀ d ∈ c :: t.take extra, isLineEnd d = false := by
  obtain ⟨rfl, -⟩ | ⟨hoperator, rfl⟩ | ⟨-, hopens, rfl, rfl, -⟩ | ⟨-, -, rfl, rfl, -⟩ |
    ⟨-, rfl, rfl, hne⟩ := token_cases h
  · contradiction
  · refine List.forall_mem_singleton.2 (Bool.eq_false_iff.2 fun hline => ?_)
    rw [(ne_of_isBlank (isBlank_of_isLineEnd hline)).1] at hoperator
    cases hoperator
  · have hne := leadingLine_ne_nil hopens
    rw [(take_of_start (Text.leadingLine_prefix _) hne).2]
    have hall : (Text.leadingLine (c :: t)).all fun c => !isLineEnd c := List.all_takeWhile
    simpa using hall
  · exact List.forall_mem_cons.2 ⟨rfl, Quotation.noLineEnd_take t⟩
  · rw [(take_of_start (Text.leadingWord_prefix _) hne).2]
    exact fun d hd => not_isLineEnd_of_plain (Text.plain_leadingWord _ d hd).1

theorem Lexeme.noLineEnd_of_fault {reason : Fault} {n : Nat} (h : first c t = .fault reason n) :
    ∀ d ∈ (c :: t).take n, isLineEnd d = false := by
  obtain ⟨-, rfl, -⟩ | ⟨rfl, -, rfl⟩ | ⟨-, rfl, -⟩ := fault_cases h
  · have htake : (c :: t).take (Text.leadingLine (c :: t)).length = Text.leadingLine (c :: t) :=
      (List.prefix_iff_eq_take.1 (Text.leadingLine_prefix _)).symm
    have hall : (Text.leadingLine (c :: t)).all fun c => !isLineEnd c := List.all_takeWhile
    rw [htake]
    simpa using hall
  · exact List.forall_mem_cons.2 ⟨rfl, Quotation.noLineEnd_take t⟩
  · simp

theorem Lexeme.isLineEnd_of_newline (h : first c t = .token .newline value extra) :
    isLineEnd c := by
  obtain ⟨-, hline, -⟩ | ⟨hoperator, -⟩ | ⟨hkind, -⟩ | ⟨hkind, -⟩ | ⟨hkind, -⟩ := token_cases h
  · exact hline
  · exact absurd rfl (operator?_kind hoperator).2.2.2.2
  · cases hkind
  · cases hkind
  · cases hkind

theorem Scanned.exists_newline_iff (h : Scanned t ss []) :
    (∃ s ∈ ss, s.1 = .newline) ↔ ∃ c ∈ t, isLineEnd c := by
  generalize hend : [] = u at h
  induction h with
  | nil =>
    subst hend
    simp
  | @space d t r ss hspace _ ih =>
    have hline : isLineEnd d = false := (isSpace_iff.1 hspace).2
    rw [ih hend]
    simp [hline]
  | @token d t r value ss kind extra hfirst _ ih =>
    by_cases hkind : kind = .newline
    · subst hkind
      have hline := Lexeme.isLineEnd_of_newline hfirst
      simp [hline]
    · have hplain := Lexeme.noLineEnd_of_first hfirst hkind
      have hsplit : (∃ c ∈ d :: t, isLineEnd c) ↔ ∃ c ∈ t.drop extra, isLineEnd c := by
        rw [← List.take_append_drop extra t, ← List.cons_append]
        simp only [List.mem_append, List.take_append_drop]
        constructor
        · rintro ⟨c, hc | hc, hline⟩
          · rw [hplain c hc] at hline
            cases hline
          · exact ⟨c, hc, hline⟩
        · rintro ⟨c, hc, hline⟩
          exact ⟨c, .inr hc, hline⟩
      rw [hsplit, ← ih hend]
      simp [hkind]

end GrammarCheck
