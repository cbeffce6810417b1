import GrammarCheck.Notation.Lexer
import GrammarCheck.Proofs.Parsing.Derivation
import GrammarCheck.Proofs.Text.Trim

namespace GrammarCheck

def isSpace (c : Char) : Bool := isBlank c && !isLineEnd c

theorem isSpace_iff {c : Char} : isSpace c ↔ isBlank c ∧ isLineEnd c = false := by
  simp [isSpace]

/-- From a place of a text up to another one, the text stands for some symbols. -/
inductive Lexed : Text → List Symbol → Text → Prop
  | nil {t : Text} : Lexed t [] t
  | space {c : Char} {t r : Text} {ss : List Symbol} (isSpace : isSpace c) (more : Lexed t ss r) :
    Lexed (c :: t) ss r
  | layout {c : Char} {t r value : Text} {ss : List Symbol} {kind : Token.Kind} {extra : Nat}
      (first : Lexeme.first c t = .token kind value extra) (isTrivia : kind.isTrivia)
      (more : Lexed (t.drop extra) ss r) : Lexed (c :: t) ss r
  | symbol {c : Char} {t r value : Text} {ss : List Symbol} {kind : Token.Kind} {extra : Nat}
      (first : Lexeme.first c t = .token kind value extra) (noTrivia : kind.isTrivia = false)
      (more : Lexed (t.drop extra) ss r) : Lexed (c :: t) ((kind, value) :: ss) r

namespace Text

theorem drop_length_takeWhile (p : Char → Bool) (t : Text) :
    t.drop (t.takeWhile p).length = t.dropWhile p := by
  have hdrop : (t.takeWhile p ++ t.dropWhile p).drop (t.takeWhile p).length = t.dropWhile p :=
    List.drop_left
  rwa [List.takeWhile_append_dropWhile] at hdrop

end Text

namespace Lexeme

variable {c : Char} {t : Text} {kind : Token.Kind}

theorem ne_of_isBlank (h : isBlank c) :
    Token.Kind.operator? c = none ∧ c ≠ '/' ∧ c ≠ '\'' := by
  have hne : ∀ d, isBlank d = false → c ≠ d := by
    rintro d hd rfl
    rw [h] at hd
    cases hd
  refine ⟨?_, hne _ (by decide), hne _ (by decide)⟩
  have hcolon := hne ':' (by decide)
  have hsemicolon := hne ';' (by decide)
  have hbar := hne '|' (by decide)
  have hstar := hne '*' (by decide)
  have hplus := hne '+' (by decide)
  have hquestion := hne '?' (by decide)
  have hopen := hne '(' (by decide)
  have hclose := hne ')' (by decide)
  unfold Token.Kind.operator?
  split <;> first | contradiction | rfl

theorem not_isBlank_of_operator (h : Token.Kind.operator? c ≠ none) : isBlank c = false := by
  apply Bool.eq_false_iff.2
  intro hblank
  exact h (ne_of_isBlank hblank).1

theorem opensComment_cons_of_ne (h : c ≠ '/') : Text.opensComment (c :: t) = false := by
  unfold Text.opensComment
  split
  · simp_all
  · rfl

theorem first_of_isSpace (h : isSpace c) : first c t = .fault (.unexpectedCharacter c) 0 := by
  obtain ⟨hblank, hline⟩ := isSpace_iff.1 h
  obtain ⟨hoperator, hslash, hquote⟩ := ne_of_isBlank hblank
  have hreturn : c ≠ '\r' := by
    rintro rfl
    simp [isLineEnd] at hline
  simp [first, hline, hreturn, hoperator, opensComment_cons_of_ne hslash, hquote, Text.leadingWord,
    hblank]

theorem isSpace_of_first {value : Text} {extra : Nat} (h : first c t = .token kind value extra) :
    isSpace c = false := by
  apply Bool.eq_false_iff.2
  intro hspace
  rw [first_of_isSpace hspace] at h
  cases h

theorem first_of_operator (h : Token.Kind.operator? c = some kind) :
    first c t = .token kind [c] 0 := by
  have hline : isLineEnd c = false := not_isLineEnd_of_plain (not_isBlank_of_operator (by simp [h]))
  have hreturn : c ≠ '\r' := by
    rintro rfl
    cases h
  simp [first, hline, hreturn, h]

theorem operator?_kind (h : Token.Kind.operator? c = some kind) :
    kind ≠ .word ∧ kind ≠ .terminal ∧ kind ≠ .comment ∧ kind ≠ .whitespace ∧ kind ≠ .newline := by
  unfold Token.Kind.operator? at h
  split at h <;> cases h <;> decide

theorem token_cases {value : Text} {extra : Nat} (h : first c t = .token kind value extra) :
    kind = .newline ∧ isLineEnd c ∧ (value = ['\r', '\n'] ∨ value = [c]) ∨
      Token.Kind.operator? c = some kind ∧ extra = 0 ∨
      kind = .comment ∧ Text.opensComment (c :: t) ∧ value = Text.leadingLine (c :: t) ∧
        extra = value.length - 1 ∧ Text.closesGroup value = false ∨
      kind = .terminal ∧ value = (Quotation.read t).value ∧ extra = (Quotation.read t).size ∧
        c = '\'' ∧ (Quotation.read t).fault = none ∨
      kind = .word ∧ value = Text.leadingWord (c :: t) ∧ extra = value.length - 1 ∧ value ≠ [] := by
  unfold first at h
  split at h
  · rename_i hfeed
    obtain ⟨hreturn, -⟩ := Bool.and_eq_true_iff.1 hfeed
    cases h
    exact .inl ⟨rfl, by simp [isLineEnd, hreturn], .inl rfl⟩
  split at h
  · rename_i hline
    cases h
    exact .inl ⟨rfl, hline, .inr rfl⟩
  split at h
  · rename_i hoperator
    cases h
    exact .inr (.inl ⟨hoperator, rfl⟩)
  split at h
  · rename_i hopens
    unfold comment at h
    dsimp only at h
    split at h
    · cases h
    · rename_i hclose
      cases h
      exact .inr (.inr (.inl ⟨rfl, hopens, rfl, rfl, by simpa using hclose⟩))
  split at h
  · rename_i hquote
    unfold terminal at h
    dsimp only at h
    split at h
    · cases h
    · rename_i hfault
      cases h
      exact .inr (.inr (.inr (.inl ⟨rfl, rfl, rfl, by simpa using hquote, hfault⟩)))
  dsimp only at h
  split at h
  · cases h
  · rename_i hword
    cases h
    exact .inr (.inr (.inr (.inr ⟨rfl, rfl, rfl, by simpa using hword⟩)))

theorem stopsWord_cases (h : Text.stopsWord c) :
    c = '\'' ∨ isLineEnd c ∨ Token.Kind.operator? c ≠ none := by
  have hmem : c ∈ [':', '*', '?', '|', '+', ';', '(', ')', '\'', '\r', '\n'] :=
    List.contains_iff_mem.1 h
  simp only [List.mem_cons, List.not_mem_nil, or_false] at hmem
  obtain rfl | rfl | rfl | rfl | rfl | rfl | rfl | rfl | rfl | rfl | rfl := hmem <;> decide

/-- Nothing but a blank stops a word before its first character where no other token starts. -/
theorem isBlank_of_noToken (hline : isLineEnd c = false) (hoperator : Token.Kind.operator? c = none)
    (hopens : Text.opensComment (c :: t) = false) (hquote : c ≠ '\'')
    (hword : Text.leadingWord (c :: t) = []) : isBlank c := by
  rw [Text.leadingWord, hopens, Bool.or_false] at hword
  split at hword
  · rename_i hstop
    obtain hblank | hstop := Bool.or_eq_true_iff.1 hstop
    · exact hblank
    · obtain h | h | h := stopsWord_cases hstop
      · contradiction
      · rw [hline] at h
        cases h
      · contradiction
  · cases hword

theorem fault_cases {reason : Fault} {n : Nat} (h : first c t = .fault reason n) :
    reason = .commentClosesGroup ∧ n = (Text.leadingLine (c :: t)).length ∧
        Text.opensComment (c :: t) ∧ Text.closesGroup (Text.leadingLine (c :: t)) ∨
      c = '\'' ∧ (Quotation.read t).fault = some reason ∧ n = (Quotation.read t).size + 1 ∨
      reason = .unexpectedCharacter c ∧ n = 0 ∧ isSpace c := by
  unfold first at h
  split at h
  · cases h
  split at h
  · cases h
  rename_i hline
  split at h
  · cases h
  rename_i hoperator
  split at h
  · rename_i hopens
    unfold comment at h
    dsimp only at h
    split at h
    · rename_i hcloses
      cases h
      exact .inl ⟨rfl, rfl, hopens, hcloses⟩
    · cases h
  split at h
  · rename_i hquote
    unfold terminal at h
    dsimp only at h
    split at h
    · rename_i hfault
      cases h
      exact .inr (.inl ⟨by simpa using hquote, hfault, rfl⟩)
    · cases h
  rename_i hopens hquote
  dsimp only at h
  split at h
  · rename_i hword
    cases h
    have hno : isLineEnd c = false := by simpa using hline
    have hblank := isBlank_of_noToken hno hoperator (by simpa using hopens) (by simpa using hquote)
      (List.isEmpty_iff.1 hword)
    exact .inr (.inr ⟨rfl, rfl, by simp [isSpace, hblank, hno]⟩)
  · cases h

end Lexeme

namespace Lexed

variable {t t' r r' : Text} {ss ss' : List Symbol}

theorem append (h : Lexed t ss r) (h' : Lexed r ss' r') : Lexed t (ss ++ ss') r' := by
  induction h with
  | nil => exact h'
  | space hspace _ ih => exact .space hspace (ih h')
  | layout hfirst htrivia _ ih => exact .layout hfirst htrivia (ih h')
  | symbol hfirst htrivia _ ih => exact .symbol hfirst htrivia (ih h')

theorem of_isSpace {c : Char} (hc : isSpace c) (h : Lexed (c :: t) ss r) :
    ss = [] ∧ r = c :: t ∨ Lexed t ss r := by
  cases h with
  | nil => exact .inl ⟨rfl, rfl⟩
  | space _ more => exact .inr more
  | layout hfirst | symbol hfirst =>
    rw [Lexeme.first_of_isSpace hc] at hfirst
    cases hfirst

theorem of_first {c : Char} {kind : Token.Kind} {value : Text} {extra : Nat}
    (hfirst : Lexeme.first c t = .token kind value extra) (h : Lexed (c :: t) ss r) :
    ss = [] ∧ r = c :: t ∨ kind.isTrivia ∧ Lexed (t.drop extra) ss r ∨
      kind.isTrivia = false ∧ ∃ ss', ss = (kind, value) :: ss' ∧ Lexed (t.drop extra) ss' r := by
  cases h with
  | nil => exact .inl ⟨rfl, rfl⟩
  | space hspace =>
    rw [Lexeme.first_of_isSpace hspace] at hfirst
    cases hfirst
  | layout hfirst' htrivia more =>
    rw [hfirst] at hfirst'
    cases hfirst'
    exact .inr (.inl ⟨htrivia, more⟩)
  | symbol hfirst' hsymbol more =>
    rw [hfirst] at hfirst'
    cases hfirst'
    exact .inr (.inr ⟨hsymbol, _, rfl, more⟩)

theorem unique_upTo_semicolon (h : Lexed t ss (';' :: r)) (h' : Lexed t ss' (';' :: r'))
    (hss : ∀ s ∈ ss, s.1 ≠ .semicolon) (hss' : ∀ s ∈ ss', s.1 ≠ .semicolon) :
    ss = ss' ∧ r = r' := by
  have hsemicolon : ∀ t, Lexeme.first ';' t = .token .semicolon [';'] 0 :=
    fun _ => Lexeme.first_of_operator rfl
  generalize hend : ';' :: r = u at h
  induction h generalizing ss' with
  | nil =>
    subst hend
    obtain ⟨rfl, hr⟩ | ⟨htrivia, -⟩ | ⟨-, _, rfl, -⟩ := h'.of_first (hsemicolon r)
    · exact ⟨rfl, (List.cons.inj hr).2.symm⟩
    · cases htrivia
    · exact absurd rfl (hss' _ List.mem_cons_self)
  | space hspace _ ih =>
    obtain ⟨-, hr⟩ | hmore := h'.of_isSpace hspace
    · obtain rfl := (List.cons.inj hr).1
      cases hspace
    · exact ih hmore hss hss' hend
  | layout hfirst htrivia _ ih =>
    obtain ⟨-, hr⟩ | ⟨-, hmore⟩ | ⟨hsymbol, -⟩ := h'.of_first hfirst
    · obtain rfl := (List.cons.inj hr).1
      rw [hsemicolon] at hfirst
      cases hfirst
      cases htrivia
    · exact ih hmore hss hss' hend
    · rw [htrivia] at hsymbol
      cases hsymbol
  | symbol hfirst hsymbol _ ih =>
    obtain ⟨-, hr⟩ | ⟨htrivia, -⟩ | ⟨-, ss'', rfl, hmore⟩ := h'.of_first hfirst
    · obtain rfl := (List.cons.inj hr).1
      rw [hsemicolon] at hfirst
      cases hfirst
      exact absurd rfl (hss _ List.mem_cons_self)
    · rw [htrivia] at hsymbol
      cases hsymbol
    · obtain ⟨rfl, rfl⟩ := ih hmore (fun s hs => hss s (List.mem_cons_of_mem _ hs))
        (fun s hs => hss' s (List.mem_cons_of_mem _ hs)) hend
      exact ⟨rfl, rfl⟩

end Lexed

namespace Cursor

variable {c : Cursor}

theorem leadingSpace_eq (t : Text) : t.leadingSpace = t.takeWhile isSpace := rfl

theorem meaning_spaceToken (c : Cursor) : meaning c.spaceToken = [] := by
  unfold spaceToken
  split <;> rfl

theorem leadingSpace_eq_nil {t : Text} (h : ∀ c ∈ t.head?, isSpace c = false) :
    t.leadingSpace = [] := by
  rw [leadingSpace_eq]
  cases t with
  | nil => rfl
  | cons c t => rw [List.takeWhile_cons_of_neg (by simp [h c rfl])]

theorem spaceToken_eq_nil (h : ∀ ch ∈ c.unread.head?, isSpace ch = false) : c.spaceToken = [] := by
  unfold spaceToken
  rw [leadingSpace_eq_nil h]

theorem readOn_of_nil (h : c.unread = []) : c.readOn = ⟨[], c, none⟩ := by
  rw [readOn]
  split
  · rfl
  · rename_i hcons
    rw [h] at hcons
    cases hcons

theorem readOn_of_fault {ch : Char} {t : Text} {fault : Fault} {n : Nat} (h : c.unread = ch :: t)
    (hfirst : Lexeme.first ch t = .fault fault n) :
    c.readOn = ⟨[], c.skip n, some (c.misstep fault n)⟩ := by
  rw [readOn]
  split
  · rename_i hnil
    rw [h] at hnil
    cases hnil
  · rename_i hcons
    rw [h] at hcons
    cases hcons
    rw [hfirst]

def skipSpace (c : Cursor) : Cursor := c.skip c.unread.leadingSpace.length

theorem readOn_of_token {ch : Char} {t value : Text} {kind : Token.Kind} {extra : Nat}
    (h : c.unread = ch :: t) (hfirst : Lexeme.first ch t = .token kind value extra) :
    c.readOn =
      { (c.skip (extra + 1)).skipSpace.readOn with
        tokens := ⟨kind, value, c.position⟩ ::
          ((c.skip (extra + 1)).spaceToken ++ (c.skip (extra + 1)).skipSpace.readOn.tokens) } := by
  rw [readOn]
  split
  · rename_i hnil
    rw [h] at hnil
    cases hnil
  · rename_i hcons
    rw [h] at hcons
    cases hcons
    rw [hfirst]
    rfl

theorem readOn_of_first {ch : Char} {t value : Text} {kind : Token.Kind} {extra : Nat}
    (h : c.unread = ch :: t) (hfirst : Lexeme.first ch t = .token kind value extra) :
    ∃ after next : Cursor, after.unread = t.drop extra ∧
      next.unread = (t.drop extra).dropWhile isSpace ∧
      c.readOn.misstep = next.readOn.misstep ∧
      c.readOn.tokens = ⟨kind, value, c.position⟩ :: (after.spaceToken ++ next.readOn.tokens) := by
  have hafter : (c.skip (extra + 1)).unread = t.drop extra := by simp [h]
  refine ⟨c.skip (extra + 1), (c.skip (extra + 1)).skipSpace, hafter, ?_, ?_⟩
  · rw [skipSpace, unread_skip, hafter, leadingSpace_eq, Text.drop_length_takeWhile]
  · rw [readOn_of_token h hfirst]
    exact ⟨rfl, rfl⟩

theorem readAll_start {ch : Char} {t : Text} (hfirst : isBlank ch = false)
    (hlast : Text.trimRight (ch :: t) = ch :: t) :
    (start (ch :: t)).readAll = (start (ch :: t)).readOn := by
  have htake : (start (ch :: t)).unread.takeWhile isBlank = [] := by
    rw [start, hlast, List.takeWhile_cons_of_neg (by simp [hfirst])]
  rw [readAll, htake]
  rfl

end Cursor

theorem TokenList.ofText_eq_ok_iff {source text : Text} {tokens : TokenList} :
    ofText source text = .ok tokens ↔
      (Cursor.start text).readAll.misstep = none ∧
        (Cursor.start text).readAll.tokens = tokens.tokens ∧
        (Cursor.start text).readAll.stop.position = tokens.finish := by
  obtain ⟨ts, finish⟩ := tokens
  unfold ofText
  dsimp only
  split
  · rename_i m hm
    simp [hm]
  · rename_i hm
    simp [hm]

end GrammarCheck
