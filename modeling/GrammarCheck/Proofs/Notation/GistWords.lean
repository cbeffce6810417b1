import GrammarCheck.Proofs.Notation.Gist

namespace GrammarCheck

variable {ss : List Symbol} {t u rest : Text}

def isPlain (c : Char) : Bool := isSpace c || (Token.Kind.operator? c).isSome

theorem isPlain_iff {c : Char} : isPlain c ↔ isSpace c ∨ Token.Kind.operator? c ≠ none := by
  rw [isPlain, Bool.or_eq_true, Option.isSome_iff_ne_none]

def operatorSymbols (t : Text) : List Symbol :=
  t.filterMap fun c => (Token.Kind.operator? c).map (·, [c])

theorem closesGroup_comment (blanks comment : Text) (hblanks : ∀ c ∈ blanks, isSpace c) :
    Text.closesGroup (blanks ++ '/' :: '/' :: comment) = Text.closesGroup comment := by
  induction blanks with
  | nil => simp [Text.closesGroup, Text.occursIn_pair_cons]
  | cons c blanks ih =>
    obtain ⟨hc, hblanks⟩ := List.forall_mem_cons.1 hblanks
    have hstar : ('*' == c) = false := by
      apply beq_false_of_ne
      rintro rfl
      cases hc
    rw [List.cons_append, Text.closesGroup, Text.occursIn_pair_cons, hstar, Bool.false_and,
      Bool.false_or]
    exact ih hblanks

namespace Text

theorem exists_comment (h : occursIn ['/', '/'] t) :
    ∃ u v, t = u ++ '/' :: '/' :: v ∧ occursIn ['/', '/'] (u ++ ['/']) = false := by
  induction t with
  | nil => cases h
  | cons c t ih =>
    by_cases hopens : c = '/' ∧ t.head? = some '/'
    · obtain ⟨rfl, hhead⟩ := hopens
      obtain ⟨v, rfl⟩ := List.head?_eq_some_iff.1 hhead
      exact ⟨[], v, rfl, rfl⟩
    · have hnot : ('/' == c && t.head? == some '/') = false := by
        apply Bool.eq_false_iff.2
        intro hpair
        rw [Bool.and_eq_true, beq_iff_eq, beq_iff_eq] at hpair
        exact hopens ⟨hpair.1.symm, hpair.2⟩
      rw [occursIn_pair_cons, hnot, Bool.false_or] at h
      obtain ⟨u, v, rfl, hu⟩ := ih h
      have hhead : (u ++ '/' :: '/' :: v).head? = (u ++ ['/']).head? := by cases u <;> rfl
      rw [hhead] at hnot
      exact ⟨c :: u, v, rfl, by rw [List.cons_append, occursIn_pair_cons, hnot, hu]; rfl⟩

theorem leadingWord_of_comment (hplain : ∀ c ∈ u, isBlank c = false ∧ stopsWord c = false)
    (h : occursIn ['/', '/'] (u ++ ['/']) = false) (t : Text) :
    leadingWord (u ++ '/' :: '/' :: t) = u := by
  induction u with
  | nil => rfl
  | cons c u ih =>
    obtain ⟨⟨hblank, hstops⟩, hplain⟩ := List.forall_mem_cons.1 hplain
    rw [List.cons_append, occursIn_pair_cons, Bool.or_eq_false_iff] at h
    have hhead : (u ++ '/' :: '/' :: t).head? = (u ++ ['/']).head? := by cases u <;> rfl
    have hopens : opensComment (c :: (u ++ '/' :: '/' :: t)) = false := by
      rw [Bool.eq_false_iff, Ne, opensComment_cons_iff, hhead]
      rintro ⟨rfl, hslash⟩
      simp [hslash] at h
    rw [List.cons_append, leadingWord, hblank, hstops, hopens, ih hplain h.2]
    rfl

theorem stopsWord_of_operator {c : Char} (h : Token.Kind.operator? c ≠ none) : stopsWord c := by
  unfold Token.Kind.operator? at h
  split at h
  all_goals first | contradiction | rfl

end Text

namespace HasGist

theorem word_iff (hword : Text.leadingWord (u ++ rest) = u) (hne : u ≠ []) :
    HasGist (u ++ rest) ss ↔ ∃ ss', ss = (.word, u) :: ss' ∧ HasGist rest ss' := by
  obtain ⟨c, u, rfl⟩ := List.exists_cons_of_ne_nil hne
  have hstart : isBlank c = false ∧ Text.stopsWord c = false ∧
      Text.opensComment (c :: (u ++ rest)) = false := by
    rw [List.cons_append, Text.leadingWord] at hword
    split at hword
    · cases hword
    · rename_i hplain
      simpa [not_or, and_assoc] using hplain
  have hfirst := Lexeme.first_of_word hstart.1 hstart.2.1 hstart.2.2
  rw [← List.cons_append, hword, List.length_cons, Nat.add_sub_cancel] at hfirst
  rw [List.cons_append, token_iff hstart.1 hfirst, List.drop_left]
  rfl

theorem terminal_iff (ht : ∀ c ∈ t, isLineEnd c = false) :
    HasGist ('\'' :: t.escapeTerminal ++ ['\''] ++ rest) ss ↔
      ∃ ss', ss = (.terminal, t) :: ss' ∧ HasGist rest ss' := by
  have hkind : noted (.terminal, t) = (.terminal, t) :=
    noted_of_ne (by decide : Token.Kind.terminal ≠ .comment)
  have htoken : HasGist _ ss ↔ _ := token_iff (by decide) (Lexeme.first_quoted ht rest)
  rw [Text.drop_escapeTerminal, hkind] at htoken
  simpa using htoken

theorem plain_iff (ht : ∀ c ∈ t, isPlain c) :
    HasGist (t ++ rest) ss ↔ ∃ ss', ss = operatorSymbols t ++ ss' ∧ HasGist rest ss' := by
  induction t generalizing ss with
  | nil => simp [operatorSymbols]
  | cons c t ih =>
    obtain ⟨hc, ht⟩ := List.forall_mem_cons.1 ht
    cases hkind : Token.Kind.operator? c with
    | none =>
      have hspace : isSpace c := (isPlain_iff.1 hc).resolve_right fun hne => hne hkind
      have hsymbols : operatorSymbols (c :: t) = operatorSymbols t := by simp [operatorSymbols, hkind]
      rw [List.cons_append, blank_iff (isSpace_iff.1 hspace).1, ih ht, hsymbols]
    | some kind =>
      have hblank : isBlank c = false := Lexeme.not_isBlank_of_operator (by simp [hkind])
      have hne : kind ≠ .comment := (Lexeme.operator?_kind hkind).2.2.1
      have hsymbols : operatorSymbols (c :: t) = (kind, [c]) :: operatorSymbols t := by
        simp [operatorSymbols, hkind]
      rw [List.cons_append, token_iff hblank (Lexeme.first_of_operator hkind), noted_of_ne hne,
        List.drop_zero, hsymbols]
      simp only [ih ht]
      constructor
      · rintro ⟨_, rfl, ss', rfl, h⟩
        exact ⟨ss', rfl, h⟩
      · rintro ⟨ss', rfl, h⟩
        exact ⟨_, rfl, ss', rfl, h⟩

theorem comment_iff (ht : ∀ c ∈ t, isLineEnd c = false) (hrest : ∀ c ∈ rest.head?, isLineEnd c) :
    HasGist ('/' :: '/' :: t ++ rest) ss ↔
      Text.closesGroup t = false ∧ ∃ ss', ss = (.comment, []) :: ss' ∧ HasGist rest ss' := by
  cases hclose : Text.closesGroup t with
  | true =>
    have hline : Text.leadingLine ('/' :: '/' :: (t ++ rest)) = '/' :: '/' :: t := by
      refine leadingLine_append (t := '/' :: '/' :: t) ?_ hrest
      simpa [isLineEnd] using ht
    have hclosed : Text.closesGroup ('/' :: '/' :: t) = true :=
      (closesGroup_comment [] t (List.forall_mem_nil _)).trans hclose
    have hfirst : Lexeme.first '/' ('/' :: (t ++ rest)) =
        Lexeme.comment ('/' :: '/' :: (t ++ rest)) := rfl
    rw [Lexeme.comment, hline, if_pos hclosed] at hfirst
    refine iff_of_false (not_of_fault (by decide) hfirst) fun h => ?_
    cases h.1
  | false =>
    have htoken : HasGist _ ss ↔ _ := token_iff (by decide) (first_comment ⟨ht, hclose⟩ hrest)
    rw [List.drop_succ_cons, List.drop_left] at htoken
    rw [and_iff_right rfl]
    exact htoken

end HasGist

end GrammarCheck
