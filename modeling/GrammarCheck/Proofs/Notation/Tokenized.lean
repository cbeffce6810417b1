import GrammarCheck.Proofs.Notation.Tiling

namespace GrammarCheck

variable {c : Char} {t u r r' value : Text} {ss ss' : List Symbol} {kind : Token.Kind} {extra : Nat}

inductive Tokenized : Text → List Symbol → Text → Prop
  | nil {t : Text} : Tokenized t [] t
  | space {t r : Text} {ss : List Symbol} (blanks : t.leadingSpace ≠ [])
      (more : Tokenized (t.dropWhile isSpace) ss r) :
    Tokenized t ((.whitespace, t.leadingSpace) :: ss) r
  | token {c : Char} {t r value : Text} {ss : List Symbol} {kind : Token.Kind} {extra : Nat}
      (first : Lexeme.first c t = .token kind value extra) (more : Tokenized (t.drop extra) ss r) :
    Tokenized (c :: t) ((kind, value) :: ss) r

/-- What blanks are read as: line ends and runs of blanks within lines. -/
def IsGap (ss : List Symbol) : Prop := ∀ s ∈ ss, s.1 = .newline ∨ s.1 = .whitespace

namespace Text

end Text

theorem Quotation.read_append (h : (read t).fault = none) (u : Text) : read (t ++ u) = read t := by
  fun_induction read t with
  | case1 | case4 | case5 | case6 => cases h
  | case2 => rfl
  | case3 c rest hescapable ih =>
    rw [List.cons_append, List.cons_append, read, if_pos hescapable, ih h]
  | case7 c rest hquote _ hline hbackslash ih =>
    rw [List.cons_append, read_plain hquote (by simpa using hbackslash) (by simpa using hline), ih h]

theorem dropWhile_isSpace_of_head (h : ∀ c ∈ t.head?, isSpace c = false) :
    t.dropWhile isSpace = t := by
  cases t with
  | nil => rfl
  | cons c t => exact List.dropWhile_cons_of_neg (by simp [h c rfl])

namespace Tokenized

theorem append (h : Tokenized t ss r) (h' : Tokenized r ss' r') : Tokenized t (ss ++ ss') r' := by
  induction h with
  | nil => exact h'
  | space hblanks _ ih => exact .space hblanks (ih h')
  | token hfirst _ ih => exact .token hfirst (ih h')

theorem of_lineEnd (hc : isLineEnd c) (ht : t.head? ≠ some '\n') (u : Text) :
    ∃ value v, v <:+ u ∧ ∀ {ss r}, Tokenized (v ++ t) ss r →
      Tokenized (c :: (u ++ t)) ((.newline, value) :: ss) r := by
  obtain ⟨value, extra, hfirst⟩ := Lexeme.first_of_isLineEnd (t := u ++ t) hc
  have hextra : extra ≤ u.length := by
    obtain ⟨v, hv, -, -, rfl⟩ | ⟨-, -, -, rfl⟩ | ⟨-, -, rfl⟩ := Lexeme.newline_cases hfirst
    · cases u with
      | nil => exact absurd (congrArg List.head? hv) ht
      | cons => simp
    · exact Nat.zero_le _
    · exact Nat.zero_le _
  refine ⟨value, u.drop extra, List.drop_suffix _ _, fun hmore => .token hfirst ?_⟩
  rwa [List.drop_append_of_le_length hextra]

theorem of_isSpace (hc : isSpace c) (ht : ∀ d ∈ t.head?, isSpace d = false) (u : Text) :
    ∃ value v, v <:+ u ∧ ∀ {ss r}, Tokenized (v ++ t) ss r →
      Tokenized (c :: (u ++ t)) ((.whitespace, value) :: ss) r := by
  have hdrop : (c :: (u ++ t)).dropWhile isSpace = u.dropWhile isSpace ++ t := by
    rw [List.dropWhile_cons_of_pos hc, List.dropWhile_append]
    split
    · rename_i hempty
      rw [List.isEmpty_iff.1 hempty, dropWhile_isSpace_of_head ht, List.nil_append]
    · rfl
  refine ⟨_, u.dropWhile isSpace, List.dropWhile_suffix _, fun hmore => .space ?_ ?_⟩
  · rw [Cursor.leadingSpace_eq, List.takeWhile_cons_of_pos hc]
    exact List.cons_ne_nil _ _
  · rwa [hdrop]

theorem of_blanks (ht : ∀ c ∈ t.head?, isBlank c = false) (hu : ∀ c ∈ u, isBlank c) :
    ∃ gap, Tokenized (u ++ t) gap t ∧ IsGap gap := by
  -- a line end may take two blanks, a run within a line any number
  induction hn : u.length using Nat.strongRecOn generalizing u with
  | ind n ih =>
    cases u with
    | nil => exact ⟨[], .nil, by simp [IsGap]⟩
    | cons c u =>
      rw [List.forall_mem_cons] at hu
      have hmore : ∀ {v}, v <:+ u → ∃ gap, Tokenized (v ++ t) gap t ∧ IsGap gap := by
        intro v hv
        have hshort := hv.length_le
        rw [List.length_cons] at hn
        exact ih v.length (by omega) (fun d hd => hu.2 d (hv.subset hd)) rfl
      by_cases hline : isLineEnd c
      · have hfeed : t.head? ≠ some '\n' := fun hhead => absurd (ht '\n' hhead) (by decide)
        obtain ⟨value, v, hv, hstep⟩ := of_lineEnd hline hfeed u
        obtain ⟨gap, hgap, hkind⟩ := hmore hv
        exact ⟨_, hstep hgap, List.forall_mem_cons.2 ⟨.inl rfl, hkind⟩⟩
      · have hspace : isSpace c := by simp [isSpace, hu.1, hline]
        obtain ⟨value, v, hv, hstep⟩ :=
          of_isSpace hspace (fun d hd => by simp [isSpace, ht d hd]) u
        obtain ⟨gap, hgap, hkind⟩ := hmore hv
        exact ⟨_, hstep hgap, List.forall_mem_cons.2 ⟨.inr rfl, hkind⟩⟩

end Tokenized

namespace Cursor

theorem skipSpace_eq_self {a : Cursor} (h : a.unread.leadingSpace = []) : a.skipSpace = a := by
  rw [skipSpace, h]
  rfl

theorem leadingSpace_skipSpace (a : Cursor) : a.skipSpace.unread.leadingSpace = [] :=
  leadingSpace_eq_nil a.isSpace_head_skipSpace

def symbols (a : Cursor) : List Symbol :=
  (a.spaceToken ++ a.skipSpace.readOn.tokens).map Token.symbol

theorem symbols_of_space {a : Cursor} (h : a.unread.leadingSpace ≠ []) :
    a.symbols = (.whitespace, a.unread.leadingSpace) :: a.skipSpace.symbols := by
  rw [symbols, symbols, skipSpace_eq_self a.leadingSpace_skipSpace, spaceToken, spaceToken,
    leadingSpace_skipSpace]
  split
  · contradiction
  · rfl

theorem symbols_of_noSpace {a : Cursor} (h : a.unread.leadingSpace = []) :
    a.symbols = a.readOn.tokens.map Token.symbol := by
  rw [symbols, spaceToken, h, skipSpace_eq_self h, List.nil_append]

theorem leadingSpace_of_token {a : Cursor} (hunread : a.unread = c :: t)
    (hfirst : Lexeme.first c t = .token kind value extra) : a.unread.leadingSpace = [] := by
  apply leadingSpace_eq_nil
  rw [hunread]
  rintro d ⟨⟩
  exact Lexeme.isSpace_of_first hfirst

theorem symbols_of_token {a : Cursor} (hunread : a.unread = c :: t)
    (hfirst : Lexeme.first c t = .token kind value extra) :
    a.symbols = (kind, value) :: (a.skip (extra + 1)).symbols := by
  rw [symbols_of_noSpace (leadingSpace_of_token hunread hfirst), readOn_of_token hunread hfirst]
  rfl

theorem misstep_of_token {a : Cursor} (hunread : a.unread = c :: t)
    (hfirst : Lexeme.first c t = .token kind value extra) :
    a.skipSpace.readOn.misstep = (a.skip (extra + 1)).skipSpace.readOn.misstep := by
  rw [skipSpace_eq_self (leadingSpace_of_token hunread hfirst), readOn_of_token hunread hfirst]

theorem tokenized_readOn {a : Cursor} (h : a.readOn.misstep = none) :
    Tokenized a.unread (a.readOn.tokens.map Token.symbol) [] := by
  have hsymbols : ∀ {b : Cursor}, Tokenized b.skipSpace.unread
      (b.skipSpace.readOn.tokens.map Token.symbol) [] → Tokenized b.unread b.symbols [] := by
    intro b hb
    by_cases hspace : b.unread.leadingSpace = []
    · rw [symbols_of_noSpace hspace]
      rwa [skipSpace_eq_self hspace] at hb
    · rw [symbols_of_space hspace, symbols_of_noSpace b.leadingSpace_skipSpace]
      exact .space hspace (by rwa [← unread_skipSpace])
  fun_induction readOn a with
  | case1 a hnil =>
    rw [hnil]
    exact .nil
  | case2 => cases h
  | case3 a ch rest hcons kind value extra hfirst after reading ih =>
    have hafter : after.unread = rest.drop extra := by simp [after, hcons]
    have hmore : Tokenized after.unread after.symbols [] := hsymbols (ih h)
    rw [hcons]
    exact .token hfirst (by rwa [← hafter])

end Cursor

theorem Tokenized.readOn {a : Cursor} (h : Tokenized a.unread ss []) :
    a.skipSpace.readOn.misstep = none ∧ a.symbols = ss := by
  generalize hunread : a.unread = t at h
  generalize hend : [] = r at h
  induction h generalizing a with
  | nil =>
    subst hend
    have hspace : a.unread.leadingSpace = [] := by rw [hunread]; rfl
    rw [Cursor.symbols_of_noSpace hspace, Cursor.skipSpace_eq_self hspace,
      Cursor.readOn_of_nil hunread]
    exact ⟨rfl, rfl⟩
  | @space t r ss hblanks _ ih =>
    obtain ⟨hnone, hsymbols⟩ := ih (a := a.skipSpace) (by rw [Cursor.unread_skipSpace, hunread]) hend
    rw [Cursor.skipSpace_eq_self a.leadingSpace_skipSpace] at hnone
    rw [Cursor.symbols_of_space (by rwa [hunread]), hsymbols, hunread]
    exact ⟨hnone, rfl⟩
  | @token c t r value ss kind extra hfirst _ ih =>
    obtain ⟨hnone, hsymbols⟩ := ih (a := a.skip (extra + 1)) (by simp [hunread]) hend
    rw [Cursor.misstep_of_token hunread hfirst, Cursor.symbols_of_token hunread hfirst, hsymbols]
    exact ⟨hnone, rfl⟩

namespace TokenList

variable {source : Text} {ts : TokenList}

theorem exists_ofText_iff : (∃ ts, ofText source t = .ok ts ∧ ts.tokens.map Token.symbol = ss) ↔
    Tokenized t.trim ss [] := by
  have hunread := Cursor.unread_readAll t
  constructor
  · rintro ⟨ts, h, rfl⟩
    obtain ⟨hnone, htokens, -⟩ := ofText_eq_ok_iff.1 h
    rw [← hunread, ← htokens]
    exact Cursor.tokenized_readOn hnone
  · intro h
    have hspace : ((Cursor.start t).skip
        ((Cursor.start t).unread.takeWhile isBlank).length).unread.leadingSpace = [] :=
      Cursor.leadingSpace_eq_nil (Cursor.isSpace_head_readAll t)
    rw [← hunread] at h
    obtain ⟨hnone, hsymbols⟩ := h.readOn
    rw [Cursor.skipSpace_eq_self hspace] at hnone
    rw [Cursor.symbols_of_noSpace hspace] at hsymbols
    exact ⟨⟨_, _⟩, ofText_eq_ok_iff.2 ⟨hnone, rfl, rfl⟩, hsymbols⟩

end TokenList

end GrammarCheck
