import GrammarCheck.Proofs.Notation.BlankBehind

/-!
The gist of a text: what its tokens stand for without blanks and line ends, and of its comments only
where they stand. The blanks at the ends of a text play no part in it.
-/

namespace GrammarCheck

variable {b c : Char} {t u value : Text} {ss : List Symbol} {kind : Token.Kind} {extra : Nat}

/-- A symbol as it is noted: of a comment it does not matter what it says. -/
def noted (s : Symbol) : Symbol := if s.1 = .comment then (.comment, []) else s

def gist (ss : List Symbol) : List Symbol :=
  (ss.filter fun s => s.1 != .newline && s.1 != .whitespace).map noted

inductive HasGist : Text → List Symbol → Prop
  | nil : HasGist [] []
  | blank {c : Char} {t : Text} {ss : List Symbol} (isBlank : isBlank c) (more : HasGist t ss) :
    HasGist (c :: t) ss
  | token {c : Char} {t value : Text} {ss : List Symbol} {kind : Token.Kind} {extra : Nat}
      (notBlank : isBlank c = false) (first : Lexeme.first c t = .token kind value extra)
      (more : HasGist (t.drop extra) ss) : HasGist (c :: t) (noted (kind, value) :: ss)

namespace Lexeme

theorem kind_of_notBlank (hc : isBlank c = false) (h : first c t = .token kind value extra) :
    kind ≠ .newline ∧ kind ≠ .whitespace := by
  refine ⟨?_, ne_whitespace_of_first h⟩
  rintro rfl
  rw [isBlank_of_isLineEnd (isLineEnd_of_newline h)] at hc
  cases hc

end Lexeme

namespace HasGist

theorem nil_iff : HasGist [] ss ↔ ss = [] := by
  constructor
  · intro h
    cases h
    rfl
  · rintro rfl
    exact .nil

theorem blank_iff (hc : isBlank c) : HasGist (c :: t) ss ↔ HasGist t ss := by
  refine ⟨fun h => ?_, .blank hc⟩
  cases h with
  | blank _ more => exact more
  | token hno =>
    rw [hc] at hno
    cases hno

theorem token_iff (hc : isBlank c = false) (hfirst : Lexeme.first c t = .token kind value extra) :
    HasGist (c :: t) ss ↔ ∃ ss', ss = noted (kind, value) :: ss' ∧ HasGist (t.drop extra) ss' := by
  constructor
  · intro h
    cases h with
    | blank hblank =>
      rw [hc] at hblank
      cases hblank
    | token _ hfirst' more =>
      rw [hfirst] at hfirst'
      cases hfirst'
      exact ⟨_, rfl, more⟩
  · rintro ⟨ss', rfl, more⟩
    exact .token hc hfirst more

theorem not_of_fault {reason : Fault} {n : Nat} (hc : isBlank c = false)
    (hfirst : Lexeme.first c t = .fault reason n) : ¬ HasGist (c :: t) ss := by
  intro h
  cases h with
  | blank hblank =>
    rw [hc] at hblank
    cases hblank
  | token _ htoken =>
    rw [hfirst] at htoken
    cases htoken

theorem append_iff_of_blank (hu : ∀ c ∈ u, isBlank c) : HasGist (u ++ t) ss ↔ HasGist t ss := by
  induction u with
  | nil => rw [List.nil_append]
  | cons c u ih =>
    rw [List.forall_mem_cons] at hu
    rw [List.cons_append, blank_iff hu.1, ih hu.2]

theorem concat_iff (hb : isBlank b) : HasGist (t ++ [b]) ss ↔ HasGist t ss := by
  -- a token may take any number of characters
  induction hn : t.length using Nat.strongRecOn generalizing t ss with
  | ind n ih =>
    cases t with
    | nil => exact blank_iff hb
    | cons c t =>
      have hmore : ∀ {extra ss}, extra ≤ t.length →
          (HasGist ((t ++ [b]).drop extra) ss ↔ HasGist (t.drop extra) ss) := by
        intro extra ss hextra
        rw [List.drop_append_of_le_length hextra]
        refine ih _ ?_ rfl
        rw [← hn, List.length_drop, List.length_cons]
        omega
      rw [List.cons_append]
      by_cases hblank : isBlank c
      · rw [blank_iff hblank, blank_iff hblank]
        exact hmore (Nat.zero_le _)
      rw [Bool.not_eq_true] at hblank
      have hconcat := Lexeme.first_concat hb c t
      generalize hfirst : Lexeme.first c t = left, hlonger : Lexeme.first c (t ++ [b]) = right,
        hsize : t.length = size at hconcat
      subst hsize
      cases hconcat with
      | same inside => simp only [token_iff hblank hlonger, token_iff hblank hfirst, hmore inside]
      | comment =>
        simp only [token_iff hblank hlonger, token_iff hblank hfirst, List.drop_length]
        rw [List.drop_of_length_le (by simp)]
        rfl
      | newline => exact absurd rfl (Lexeme.kind_of_notBlank hblank hfirst).1
      | fault => exact iff_of_false (not_of_fault hblank hlonger) (not_of_fault hblank hfirst)

theorem append_blank_iff (hu : ∀ c ∈ u, isBlank c) : HasGist (t ++ u) ss ↔ HasGist t ss := by
  induction u generalizing t with
  | nil => rw [List.append_nil]
  | cons c u ih =>
    rw [List.forall_mem_cons] at hu
    rw [List.append_cons, ih hu.2, concat_iff hu.1]

theorem trim_iff : HasGist t.trim ss ↔ HasGist t ss := by
  obtain ⟨u, hu, ht⟩ := Text.exists_blanks t
  have hleft : t.trimRight = t.trimRight.takeWhile isBlank ++ t.trim :=
    List.takeWhile_append_dropWhile.symm
  have hblank : ∀ c ∈ t.trimRight.takeWhile isBlank, isBlank c :=
    List.all_eq_true.1 List.all_takeWhile
  calc HasGist t.trim ss
    _ ↔ HasGist t.trimRight ss := by rw [hleft, append_iff_of_blank hblank]
    _ ↔ HasGist (t.trimRight ++ u) ss := (append_blank_iff hu).symm
    _ ↔ HasGist t ss := by rw [← ht]

theorem dropWhile_iff : HasGist (t.dropWhile isSpace) ss ↔ HasGist t ss := by
  have hblank : ∀ c ∈ t.takeWhile isSpace, isBlank c := by
    intro c hc
    exact (isSpace_iff.1 (List.all_eq_true.1 List.all_takeWhile c hc)).1
  rw [← append_iff_of_blank hblank, List.takeWhile_append_dropWhile]

theorem lineEnd_iff (hfirst : Lexeme.first c t = .token .newline value extra) :
    HasGist (c :: t) ss ↔ HasGist (t.drop extra) ss := by
  rw [blank_iff (isBlank_of_isLineEnd (Lexeme.isLineEnd_of_newline hfirst))]
  obtain ⟨u, rfl, -, -, rfl⟩ | ⟨-, -, -, rfl⟩ | ⟨-, -, rfl⟩ := Lexeme.newline_cases hfirst
  · exact blank_iff (by decide)
  · rfl
  · rfl

end HasGist

theorem gist_cons_of_layout {s : Symbol} (h : s.1 = .newline ∨ s.1 = .whitespace) (ss : List Symbol) :
    gist (s :: ss) = gist ss := by
  obtain h | h := h <;> simp [gist, h]

theorem gist_cons {s : Symbol} (h : s.1 ≠ .newline ∧ s.1 ≠ .whitespace) (ss : List Symbol) :
    gist (s :: ss) = noted s :: gist ss := by
  simp [gist, h]

theorem Lexeme.newline_of_isBlank (hc : isBlank c) (h : first c t = .token kind value extra) :
    kind = .newline := by
  have hline : isLineEnd c := by
    have hspace := isSpace_of_first h
    simpa [isSpace, hc] using hspace
  obtain ⟨value', extra', hnewline⟩ := first_of_isLineEnd (t := t) hline
  rw [h] at hnewline
  cases hnewline
  rfl

theorem Tokenized.hasGist (h : Tokenized t ss []) : HasGist t (gist ss) := by
  generalize hend : [] = r at h
  induction h with
  | nil =>
    subst hend
    exact .nil
  | space _ _ ih =>
    rw [gist_cons_of_layout (.inr rfl)]
    exact HasGist.dropWhile_iff.1 (ih hend)
  | @token c t _ value ss kind extra hfirst _ ih =>
    cases hblank : isBlank c with
    | false =>
      rw [gist_cons (Lexeme.kind_of_notBlank hblank hfirst)]
      exact .token hblank hfirst (ih hend)
    | true =>
      obtain rfl := Lexeme.newline_of_isBlank hblank hfirst
      rw [gist_cons_of_layout (.inl rfl)]
      exact (HasGist.lineEnd_iff hfirst).2 (ih hend)

theorem HasGist.exists_tokenized (h : HasGist t ss) :
    ∃ ss', Tokenized t ss' [] ∧ gist ss' = ss := by
  -- a token may take any number of characters, and so may a run of blanks
  induction hn : t.length using Nat.strongRecOn generalizing t ss with
  | ind n ih =>
    cases h with
    | nil => exact ⟨[], .nil, rfl⟩
    | @token c t value ss kind extra hblank hfirst more =>
      obtain ⟨ss', hss', rfl⟩ :=
        ih _ (by rw [← hn, List.length_drop, List.length_cons]; omega) more rfl
      exact ⟨_, .token hfirst hss', gist_cons (Lexeme.kind_of_notBlank hblank hfirst) ss'⟩
    | @blank c t _ hblank more =>
      by_cases hline : isLineEnd c
      · obtain ⟨value, extra, hfirst⟩ := Lexeme.first_of_isLineEnd (t := t) hline
        have hrest := (lineEnd_iff hfirst).1 (.blank hblank more)
        obtain ⟨ss', hss', rfl⟩ :=
          ih _ (by rw [← hn, List.length_drop, List.length_cons]; omega) hrest rfl
        exact ⟨_, .token hfirst hss', gist_cons_of_layout (.inl rfl) ss'⟩
      · have hspace : isSpace c := isSpace_iff.2 ⟨hblank, by simpa using hline⟩
        have hdrop : (c :: t).dropWhile isSpace = t.dropWhile isSpace :=
          List.dropWhile_cons_of_pos hspace
        have hshort := (List.dropWhile_suffix isSpace (l := t)).length_le
        obtain ⟨ss', hss', rfl⟩ := ih _ (by rw [← hn, List.length_cons]; omega)
          (dropWhile_iff.2 more) rfl
        rw [← hdrop] at hss'
        refine ⟨_, .space ?_ hss', gist_cons_of_layout (.inr rfl) ss'⟩
        rw [Cursor.leadingSpace_eq, List.takeWhile_cons_of_pos hspace]
        exact List.cons_ne_nil _ _

theorem fst_noted (s : Symbol) : (noted s).1 = s.1 := by
  unfold noted
  split
  · rename_i hs
    exact hs.symm
  · rfl

theorem noted_of_ne {s : Symbol} (h : s.1 ≠ .comment) : noted s = s := if_neg h

theorem eq_of_noted {s s' : Symbol} (h : noted s = s') (hs' : s'.1 ≠ .comment) : s = s' := by
  subst h
  rw [fst_noted] at hs'
  exact (noted_of_ne hs').symm

theorem significant_gist (ss : List Symbol) : significant (gist ss) = significant ss := by
  induction ss with
  | nil => rfl
  | cons s ss ih =>
    obtain ⟨kind, value⟩ := s
    cases kind <;> simpa [gist, significant, noted, Token.Kind.isTrivia] using ih

theorem meaning_eq_significant (ts : List Token) : meaning ts = significant (ts.map Token.symbol) := by
  rw [meaning, significant, List.filter_map]
  rfl

theorem kind_of_gist_eq_nil {ts : List Token} (h : gist (ts.map Token.symbol) = []) :
    ∀ t ∈ ts, t.kind = .whitespace ∨ t.kind = .newline := by
  intro t ht
  have hfilter := List.filter_eq_nil_iff.1 (List.map_eq_nil_iff.1 h) t.symbol
    (List.mem_map_of_mem ht)
  have hkind : t.kind = .newline ∨ t.kind = .whitespace := by
    simpa [Token.symbol, Decidable.or_iff_not_imp_left] using hfilter
  exact hkind.symm

theorem exists_token_of_gist {ts : List Token} {s : Symbol} {ss ss' : List Symbol}
    (h : gist (ts.map Token.symbol) = ss ++ s :: ss') :
    ∃ before t after, ts = before ++ t :: after ∧ gist (before.map Token.symbol) = ss ∧
      noted t.symbol = s ∧ gist (after.map Token.symbol) = ss' := by
  induction ts generalizing ss with
  | nil => cases ss <;> cases h
  | cons t ts ih =>
    rw [List.map_cons] at h
    by_cases ht : t.kind = .newline ∨ t.kind = .whitespace
    · rw [gist_cons_of_layout ht] at h
      obtain ⟨before, t', after, rfl, rfl, hsymbol, hafter⟩ := ih h
      exact ⟨t :: before, t', after, rfl, gist_cons_of_layout ht _, hsymbol, hafter⟩
    · rw [not_or] at ht
      rw [gist_cons ht] at h
      cases ss with
      | nil =>
        obtain ⟨hsymbol, hafter⟩ := List.cons.inj h
        exact ⟨[], t, ts, rfl, rfl, hsymbol, hafter⟩
      | cons s' ss =>
        obtain ⟨rfl, hts⟩ := List.cons.inj h
        obtain ⟨before, t', after, rfl, rfl, hsymbol, hafter⟩ := ih hts
        exact ⟨t :: before, t', after, rfl, gist_cons ht _, hsymbol, hafter⟩

theorem exists_first_of_gist {ts : List Token} {s : Symbol} {ss : List Symbol}
    (h : gist (ts.map Token.symbol) = s :: ss) :
    ∃ gap t after, ts = gap ++ t :: after ∧ (∀ u ∈ gap, u.kind = .whitespace ∨ u.kind = .newline) ∧
      noted t.symbol = s ∧ gist (after.map Token.symbol) = ss := by
  rw [← List.nil_append (s :: ss)] at h
  obtain ⟨gap, t, after, rfl, hgap, hsymbol, hafter⟩ := exists_token_of_gist h
  exact ⟨gap, t, after, rfl, kind_of_gist_eq_nil hgap, hsymbol, hafter⟩

/-- A text is read as tokens of a gist exactly if it has that gist itself. -/
theorem TokenList.exists_ofText_gist_iff {source : Text} :
    (∃ ts, ofText source t = .ok ts ∧ gist (ts.tokens.map Token.symbol) = ss) ↔ HasGist t ss := by
  rw [← HasGist.trim_iff]
  constructor
  · rintro ⟨ts, hts, rfl⟩
    exact (exists_ofText_iff.1 ⟨ts, hts, rfl⟩).hasGist
  · intro h
    obtain ⟨ss', hss', rfl⟩ := h.exists_tokenized
    obtain ⟨ts, hts, rfl⟩ := exists_ofText_iff.2 hss'
    exact ⟨ts, hts, rfl⟩

end GrammarCheck
