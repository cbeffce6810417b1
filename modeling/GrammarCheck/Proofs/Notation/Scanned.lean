import GrammarCheck.Proofs.Notation.Lexed

namespace GrammarCheck

def tokenMarks (ts : List Token) : List Symbol :=
  (ts.filter (·.kind != .whitespace)).map Token.symbol

def significant (ss : List Symbol) : List Symbol := ss.filter (!·.1.isTrivia)

inductive Scanned : Text → List Symbol → Text → Prop
  | nil {t : Text} : Scanned t [] t
  | space {c : Char} {t r : Text} {ss : List Symbol} (isSpace : isSpace c)
      (more : Scanned t ss r) : Scanned (c :: t) ss r
  | token {c : Char} {t r value : Text} {ss : List Symbol} {kind : Token.Kind} {extra : Nat}
      (first : Lexeme.first c t = .token kind value extra) (more : Scanned (t.drop extra) ss r) :
    Scanned (c :: t) ((kind, value) :: ss) r

theorem meaning_eq (ts : List Token) : meaning ts = significant (tokenMarks ts) := by
  have hkind : ∀ t : Token, (t.kind != .whitespace && !t.isTrivia) = !t.isTrivia := by
    rintro ⟨kind, value, position⟩
    cases kind <;> rfl
  simp only [meaning, tokenMarks, significant, List.filter_map, List.filter_filter]
  congr 2
  funext t
  rw [← hkind t, Bool.and_comm]
  rfl

@[simp] theorem tokenMarks_append (ts us : List Token) :
    tokenMarks (ts ++ us) = tokenMarks ts ++ tokenMarks us := by
  simp [tokenMarks]

theorem tokenMarks_cons {t : Token} (h : t.kind ≠ .whitespace) (ts : List Token) :
    tokenMarks (t :: ts) = t.symbol :: tokenMarks ts := by
  simp [tokenMarks, h]

theorem tokenMarks_cons_of_whitespace {t : Token} (h : t.kind = .whitespace) (ts : List Token) :
    tokenMarks (t :: ts) = tokenMarks ts := by
  simp [tokenMarks, h]

@[simp] theorem significant_append (ss ss' : List Symbol) :
    significant (ss ++ ss') = significant ss ++ significant ss' :=
  List.filter_append ..

namespace Scanned

variable {t r r' : Text} {ss ss' : List Symbol}

theorem append (h : Scanned t ss r) (h' : Scanned r ss' r') : Scanned t (ss ++ ss') r' := by
  induction h with
  | nil => exact h'
  | space hspace _ ih => exact .space hspace (ih h')
  | token hfirst _ ih => exact .token hfirst (ih h')

theorem lexed (h : Scanned t ss r) : Lexed t (significant ss) r := by
  induction h with
  | nil => exact .nil
  | space hspace _ ih => exact .space hspace ih
  | @token _ _ _ value ss kind _ hfirst _ ih =>
    cases htrivia : kind.isTrivia with
    | true => simpa [significant, htrivia] using Lexed.layout hfirst htrivia ih
    | false => simpa [significant, htrivia] using Lexed.symbol hfirst htrivia ih

end Scanned

theorem Lexeme.ne_whitespace_of_first {c : Char} {t value : Text} {kind : Token.Kind} {extra : Nat}
    (h : first c t = .token kind value extra) : kind ≠ .whitespace := by
  obtain ⟨rfl, -⟩ | ⟨hoperator, -⟩ | ⟨rfl, -⟩ | ⟨rfl, -⟩ | ⟨rfl, -⟩ := token_cases h
  · decide
  · exact (operator?_kind hoperator).2.2.2.1
  · decide
  · decide
  · decide

theorem Cursor.tokenMarks_spaceToken (c : Cursor) : tokenMarks c.spaceToken = [] := by
  unfold spaceToken
  split <;> rfl

theorem Scanned.readOn {t : Text} {ss : List Symbol} {c : Cursor} (h : Scanned t ss [])
    (hc : c.unread = t.dropWhile isSpace) :
    c.readOn.misstep = none ∧ tokenMarks c.readOn.tokens = ss := by
  generalize hend : [] = u at h
  induction h generalizing c with
  | nil =>
    subst hend
    rw [Cursor.readOn_of_nil hc]
    exact ⟨rfl, rfl⟩
  | space hspace _ ih => exact ih (by rw [hc, List.dropWhile_cons_of_pos hspace]) hend
  | token hfirst _ ih =>
    rw [List.dropWhile_cons_of_neg (by simp [Lexeme.isSpace_of_first hfirst])] at hc
    obtain ⟨after, next, -, hnext, hmisstep, htokens⟩ := Cursor.readOn_of_first hc hfirst
    obtain ⟨hnone, hmarks⟩ := ih hnext hend
    refine ⟨hmisstep.trans hnone, ?_⟩
    rw [htokens, tokenMarks_cons (Lexeme.ne_whitespace_of_first hfirst), tokenMarks_append,
      Cursor.tokenMarks_spaceToken, hmarks, List.nil_append]
    rfl

theorem Lexed.exists_scanned {t r : Text} {ss : List Symbol} (h : Lexed t ss r) :
    ∃ ss', Scanned t ss' r ∧ significant ss' = ss := by
  induction h with
  | nil => exact ⟨[], .nil, rfl⟩
  | space hspace _ ih =>
    obtain ⟨ss', hscanned, hss'⟩ := ih
    exact ⟨ss', .space hspace hscanned, hss'⟩
  | layout hfirst htrivia _ ih =>
    obtain ⟨ss', hscanned, hss'⟩ := ih
    exact ⟨_, .token hfirst hscanned, by simpa [significant, htrivia] using hss'⟩
  | symbol hfirst hsymbol _ ih =>
    obtain ⟨ss', hscanned, hss'⟩ := ih
    exact ⟨_, .token hfirst hscanned, by simpa [significant, hsymbol] using hss'⟩

theorem Lexed.readOn {t : Text} {ss : List Symbol} {c : Cursor} (h : Lexed t ss [])
    (hc : c.unread = t.dropWhile isSpace) :
    c.readOn.misstep = none ∧ meaning c.readOn.tokens = ss := by
  obtain ⟨ss', hscanned, rfl⟩ := h.exists_scanned
  obtain ⟨hnone, hmarks⟩ := hscanned.readOn hc
  exact ⟨hnone, by rw [meaning_eq, hmarks]⟩

theorem Cursor.exists_readAll (text : Text) :
    ∃ c : Cursor, (Cursor.start text).readAll = c.readOn ∧
      c.unread = text.trim.dropWhile isSpace := by
  refine ⟨_, rfl, ?_⟩
  rw [Cursor.unread_skip, Text.drop_length_takeWhile]
  cases htrim : text.trim with
  | nil => exact htrim
  | cons c t =>
    have hblank := List.head?_dropWhile_not isBlank text.trimRight
    have htrim' : text.trimRight.dropWhile isBlank = c :: t := htrim
    rw [htrim'] at hblank
    have hc : isBlank c = false := by simpa using hblank
    rw [List.dropWhile_cons_of_neg (by simp [isSpace, hc])]
    exact htrim'

theorem Scanned.exists_tokens {text : Text} {ss : List Symbol} (h : Scanned text.trim ss [])
    (source : Text) : ∃ ts, TokenList.ofText source text = .ok ts ∧ tokenMarks ts.tokens = ss := by
  obtain ⟨c, hread, hc⟩ := Cursor.exists_readAll text
  obtain ⟨hnone, hmarks⟩ := h.readOn hc
  rw [← hread] at hnone hmarks
  exact ⟨⟨_, _⟩, TokenList.ofText_eq_ok_iff.2 ⟨hnone, rfl, rfl⟩, hmarks⟩

theorem Scanned.readOn_of_fault {t r : Text} {ch : Char} {ss : List Symbol} {fault : Fault}
    {n : Nat} (h : Scanned t ss (ch :: r)) (hspace : isSpace ch = false)
    (hfirst : Lexeme.first ch r = .fault fault n) {c : Cursor}
    (hc : c.unread = t.dropWhile isSpace) : c.readOn.misstep ≠ none := by
  generalize hend : ch :: r = u at h
  induction h generalizing c with
  | nil =>
    subst hend
    rw [List.dropWhile_cons_of_neg (by simp [hspace])] at hc
    rw [Cursor.readOn_of_fault hc hfirst]
    exact Option.some_ne_none _
  | space hspace _ ih => exact ih (by rw [hc, List.dropWhile_cons_of_pos hspace]) hend
  | token hfirst _ ih =>
    rw [List.dropWhile_cons_of_neg (by simp [Lexeme.isSpace_of_first hfirst])] at hc
    obtain ⟨after, next, -, hnext, hmisstep, -⟩ := Cursor.readOn_of_first hc hfirst
    rw [hmisstep]
    exact ih hnext hend

theorem Scanned.refused {text r : Text} {ch : Char} {ss : List Symbol} {fault : Fault} {n : Nat}
    (h : Scanned text.trim ss (ch :: r)) (hspace : isSpace ch = false)
    (hfirst : Lexeme.first ch r = .fault fault n) (source : Text) (ts : TokenList) :
    TokenList.ofText source text ≠ .ok ts := by
  obtain ⟨c, hread, hc⟩ := Cursor.exists_readAll text
  intro hok
  have hnone := (TokenList.ofText_eq_ok_iff.1 hok).1
  rw [hread] at hnone
  exact h.readOn_of_fault hspace hfirst hc hnone

end GrammarCheck
