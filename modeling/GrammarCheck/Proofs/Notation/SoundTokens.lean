import GrammarCheck.Proofs.Notation.Spells

namespace GrammarCheck

variable {c : Char} {t u : Text}

namespace Text

variable {a b : Char}

theorem occursIn_pair_cons :
    occursIn [a, b] (c :: t) = (a == c && t.head? == some b || occursIn [a, b] t) := by
  cases t with
  | nil => simp [occursIn, List.isPrefixOf]
  | cons d t =>
    have hcomm : (b == d) = (d == b) := by rw [Bool.eq_iff_iff, beq_iff_eq, beq_iff_eq, eq_comm]
    simp [occursIn, List.isPrefixOf, hcomm]

theorem not_occursIn_of_suffix (h : occursIn [a, b] t = false) (hu : u <:+ t) :
    occursIn [a, b] u = false := by
  obtain ⟨before, rfl⟩ := hu
  induction before with
  | nil => exact h
  | cons c before ih =>
    rw [List.cons_append, occursIn_pair_cons, Bool.or_eq_false_iff] at h
    exact ih h.2

theorem not_occursIn_of_start (h : occursIn [a, b] t = false) (hu : u <+: t) :
    occursIn [a, b] u = false := by
  induction u generalizing t with
  | nil => rfl
  | cons c u ih =>
    obtain ⟨v, rfl⟩ := hu
    rw [List.cons_append, occursIn_pair_cons, Bool.or_eq_false_iff] at h
    rw [occursIn_pair_cons, ih h.2 (List.prefix_append u v), Bool.or_false]
    cases u with
    | nil => simp
    | cons d u => exact h.1

theorem not_occursIn_append_cons (ht : occursIn [a, b] t = false) (hu : occursIn [a, b] u = false)
    (ha : a ≠ c) (hb : b ≠ c) : occursIn [a, b] (t ++ c :: u) = false := by
  induction t with
  | nil => simp [occursIn_pair_cons, hu, ha]
  | cons d t ih =>
    rw [occursIn_pair_cons, Bool.or_eq_false_iff] at ht
    rw [List.cons_append, occursIn_pair_cons, ih ht.2, Bool.or_false]
    cases t with
    | nil => simp [hb.symm]
    | cons e t => exact ht.1

theorem plain_leadingWord (t : Text) :
    ∀ c ∈ leadingWord t, isBlank c = false ∧ stopsWord c = false := by
  induction t with
  | nil => simp [leadingWord]
  | cons c t ih =>
    intro d hd
    rw [leadingWord] at hd
    split at hd
    · cases hd
    · rename_i hplain
      simp only [Bool.or_eq_true, not_or, Bool.not_eq_true] at hplain
      obtain rfl | hd := List.mem_cons.1 hd
      · exact hplain.1
      · exact ih d hd

theorem head?_leadingWord {t : Text} (h : (leadingWord t).head? = some c) : t.head? = some c := by
  cases t with
  | nil => cases h
  | cons d t =>
    rw [leadingWord] at h
    split at h
    · cases h
    · exact h

theorem noComment_leadingWord (t : Text) : occursIn ['/', '/'] (leadingWord t) = false := by
  induction t with
  | nil => rfl
  | cons c t ih =>
    rw [leadingWord]
    split
    · rfl
    · rename_i hplain
      simp only [Bool.or_eq_true, not_or, Bool.not_eq_true] at hplain
      rw [occursIn_pair_cons, ih, Bool.or_false, Bool.and_eq_false_imp]
      intro hc
      obtain rfl : '/' = c := by simpa using hc
      apply Bool.eq_false_iff.2
      intro hhead
      obtain ⟨rest, rfl⟩ := List.head?_eq_some_iff.1 (head?_leadingWord (by simpa using hhead))
      cases hplain.2

end Text

namespace OneLine

theorem nil : OneLine [] := ⟨by simp, rfl⟩

theorem of_start (h : OneLine t) (hu : u <+: t) : OneLine u where
  noLineEnd c hc := h.noLineEnd c (hu.subset hc)
  noClose := Text.not_occursIn_of_start h.noClose hu

theorem append_space (h : OneLine t) (hu : OneLine u) : OneLine (t ++ ' ' :: u) where
  noLineEnd c hc := by
    obtain hc | hc := List.mem_append.1 hc
    · exact h.noLineEnd c hc
    · obtain rfl | hc := List.mem_cons.1 hc
      · rfl
      · exact hu.noLineEnd c hc
  noClose := Text.not_occursIn_append_cons h.noClose hu.noClose (by decide) (by decide)

end OneLine

structure Token.Sound (t : Token) : Prop where
  word : t.kind = .word → Bareword t.value
  terminal : t.kind = .terminal → ∀ c ∈ t.value, isLineEnd c = false
  comment : t.kind = .comment → ∃ text, t.value = '/' :: '/' :: text ∧ OneLine text
  newline : t.kind = .newline → IsNewline t.value

/-- Tokens as they can be written one behind another: a comment runs to the end of its line. -/
inductive SoundTokens : List Token → Prop
  | nil : SoundTokens []
  | cons {t : Token} {ts : List Token} (sound : t.Sound)
      (lineEnds : t.kind = .comment → ∀ u ∈ ts.head?, u.kind = .newline) (more : SoundTokens ts) :
    SoundTokens (t :: ts)

theorem SoundTokens.of_suffix {ts us : List Token} (h : SoundTokens ts) (hsuffix : us <:+ ts) :
    SoundTokens us := by
  obtain ⟨before, rfl⟩ := hsuffix
  induction before with
  | nil => exact h
  | cons t before ih =>
    cases h with
    | cons _ _ more => exact ih more

theorem SoundTokens.tail {t : Token} {ts : List Token} (h : SoundTokens (t :: ts)) :
    SoundTokens ts :=
  h.of_suffix (List.suffix_cons t ts)

theorem SoundTokens.of_start {ts us : List Token} (h : SoundTokens ts) (hstart : us <+: ts) :
    SoundTokens us := by
  obtain ⟨after, rfl⟩ := hstart
  induction us with
  | nil => exact .nil
  | cons t us ih =>
    cases h with
    | cons sound lineEnds more =>
      refine .cons sound (fun hkind u hu => lineEnds hkind u ?_) (ih more)
      have happend : u ∈ (us ++ after).head? := by
        rw [List.head?_append, Option.mem_def.1 hu]
        rfl
      exact happend

theorem Text.not_isLineEnd_of_isEscapable (h : isEscapable c) : isLineEnd c = false := by
  simp only [isEscapable, Bool.or_eq_true, beq_iff_eq] at h
  obtain (rfl | rfl) | rfl := h <;> rfl

theorem Quotation.noLineEnd_read (t : Text) : ∀ c ∈ (read t).value, isLineEnd c = false := by
  fun_induction read t with
  | case1 | case2 => simp
  | case3 c rest hescapable ih =>
    exact List.forall_mem_cons.2 ⟨Text.not_isLineEnd_of_isEscapable hescapable, ih⟩
  | case4 | case5 | case6 => simp
  | case7 c rest _ _ hline _ ih =>
    exact List.forall_mem_cons.2 ⟨by simpa using hline, ih⟩

namespace Lexeme

variable {kind : Token.Kind} {value : Text} {extra : Nat} {p : Position}

theorem oneLine_of_leadingLine (h : Text.closesGroup (Text.leadingLine ('/' :: '/' :: t)) = false) :
    OneLine (Text.leadingLine t) where
  noLineEnd := by
    have hall : (Text.leadingLine t).all fun c => !isLineEnd c := List.all_takeWhile
    simpa using hall
  noClose := by
    have hcons : Text.leadingLine ('/' :: '/' :: t) = '/' :: '/' :: Text.leadingLine t := rfl
    rw [hcons] at h
    exact Text.not_occursIn_of_suffix h ⟨['/', '/'], rfl⟩

theorem sound_of_first (h : first c t = .token kind value extra) :
    Token.Sound ⟨kind, value, p⟩ := by
  obtain ⟨rfl, hline, hvalue⟩ | ⟨hoperator, -⟩ | ⟨rfl, hopens, rfl, -, hclose⟩ | ⟨rfl, rfl, -⟩ |
    ⟨rfl, rfl, -, hne⟩ := token_cases h
  · refine ⟨by simp, by simp, by simp, fun _ => ?_⟩
    obtain rfl | rfl := hvalue
    · exact .inl rfl
    · simp only [isLineEnd, Bool.or_eq_true, beq_iff_eq] at hline
      obtain rfl | rfl := hline
      · exact .inr (.inl rfl)
      · exact .inr (.inr rfl)
  · obtain ⟨hword, hterminal, hcomment, -, hnewline⟩ := operator?_kind hoperator
    exact ⟨fun hk => absurd hk hword, fun hk => absurd hk hterminal, fun hk => absurd hk hcomment,
      fun hk => absurd hk hnewline⟩
  · obtain ⟨rest, hrest⟩ : ∃ rest, c :: t = '/' :: '/' :: rest := by
      unfold Text.opensComment at hopens
      split at hopens
      · exact ⟨_, by assumption⟩
      · cases hopens
    rw [hrest] at hclose ⊢
    exact ⟨by simp, by simp,
      fun _ => ⟨Text.leadingLine rest, rfl, oneLine_of_leadingLine hclose⟩, by simp⟩
  · exact ⟨by simp, fun _ => Quotation.noLineEnd_read t, by simp, by simp⟩
  · exact ⟨fun _ => ⟨hne, Text.plain_leadingWord _, Text.noComment_leadingWord _⟩, by simp, by simp,
      by simp⟩

theorem isLineEnd_of_comment (h : first c t = .token .comment value extra) :
    ∀ d ∈ (t.drop extra).head?, isLineEnd d := by
  obtain ⟨hkind, -⟩ | ⟨hoperator, -⟩ | ⟨-, hopens, rfl, rfl, -⟩ | ⟨hkind, -⟩ | ⟨hkind, -⟩ :=
    token_cases h
  · cases hkind
  · exact absurd rfl (operator?_kind hoperator).2.2.1
  · have hslash : c = '/' := by
      by_cases hc : c = '/'
      · exact hc
      · rw [opensComment_cons_of_ne hc] at hopens
        cases hopens
    subst hslash
    have hcons : Text.leadingLine ('/' :: t) = '/' :: Text.leadingLine t := rfl
    rw [hcons, List.length_cons, Nat.add_sub_cancel, Text.leadingLine, Text.drop_length_takeWhile]
    intro d hd
    have hnot := List.head?_dropWhile_not (fun c => !isLineEnd c) t
    rw [Option.mem_def.1 hd] at hnot
    simpa using hnot
  · cases hkind
  · cases hkind

theorem first_of_isLineEnd (h : isLineEnd c) :
    ∃ value extra, first c t = .token .newline value extra := by
  unfold first
  split
  · exact ⟨_, _, rfl⟩
  · exact ⟨_, _, rfl⟩

end Lexeme

theorem SoundTokens.spaceToken_append {c : Cursor} {ts : List Token} (h : SoundTokens ts) :
    SoundTokens (c.spaceToken ++ ts) := by
  unfold Cursor.spaceToken
  split
  · exact h
  · exact .cons ⟨by simp, by simp, by simp, by simp⟩ (by simp) h

namespace Cursor

theorem head_readOn_of_isLineEnd {c : Cursor} (h : ∀ d ∈ c.unread.head?, isLineEnd d) :
    ∀ u ∈ c.readOn.tokens.head?, u.kind = .newline := by
  cases hunread : c.unread with
  | nil => simp [readOn_of_nil hunread]
  | cons ch t =>
    obtain ⟨value, extra, hfirst⟩ := Lexeme.first_of_isLineEnd (t := t) (h ch (by rw [hunread]; rfl))
    obtain ⟨after, next, -, -, -, htokens⟩ := readOn_of_first hunread hfirst
    simp [htokens]

theorem sound_readOn (c : Cursor) : SoundTokens c.readOn.tokens := by
  fun_induction readOn c with
  | case1 => exact .nil
  | case2 => exact .nil
  | case3 c ch rest hcons kind value extra hfirst after reading ih =>
    refine .cons (Lexeme.sound_of_first hfirst) (fun hkind => ?_) (SoundTokens.spaceToken_append ih)
    have hkind' : kind = .comment := hkind
    subst hkind'
    have hafter : after.unread = rest.drop extra := by simp [after, hcons]
    have hlineEnd := Lexeme.isLineEnd_of_comment hfirst
    rw [← hafter] at hlineEnd
    have hnoSpace : ∀ d ∈ after.unread.head?, isSpace d = false := by
      intro d hd
      simp [isSpace, hlineEnd d hd]
    have hskip : reading = after.readOn := by
      simp only [reading, leadingSpace_eq_nil hnoSpace]
      rfl
    rw [spaceToken_eq_nil hnoSpace, hskip]
    exact head_readOn_of_isLineEnd hlineEnd

end Cursor

theorem TokenList.sound_ofText {source text : Text} {ts : TokenList}
    (h : ofText source text = .ok ts) : SoundTokens ts.tokens := by
  rw [← (ofText_eq_ok_iff.1 h).2.1]
  exact Cursor.sound_readOn _

end GrammarCheck
