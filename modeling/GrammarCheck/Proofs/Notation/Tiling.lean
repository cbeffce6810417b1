import GrammarCheck.Proofs.Notation.Places
import Mathlib.Data.List.Chain

/-!
The tokens of a text tile it: they stand for slices of it, one behind another, that leave nothing out
but the blanks at its ends.
-/

namespace GrammarCheck

variable {c : Char} {t u value : Text} {kind : Token.Kind} {extra : Nat} {p : Position}

namespace Text

def unescape : Text → Text
  | [] => []
  | '\\' :: c :: rest =>
    if isEscapable c then c :: unescape rest else '\\' :: unescape (c :: rest)
  | c :: rest => c :: unescape rest

end Text

/-- A token of a slice of text: a terminal stands between quotes and may hold escapes, any other token
is as written. -/
def Token.SpelledAs (token : Token) (slice : Text) : Prop :=
  if token.kind = .terminal then
    ∃ body, slice = '\'' :: (body ++ ['\'']) ∧ Text.unescape body = token.value
  else slice = token.value

theorem Token.SpelledAs.of_value {token : Token} (h : token.kind ≠ .terminal)
    (hvalue : t = token.value) : token.SpelledAs t :=
  (if_neg h).mpr hvalue

/-- From an offset of a text on, tokens stand for slices one behind another, at the line and column at
which each slice starts. -/
inductive Tiles (t : Text) : Nat → List Token → Text → Prop
  | nil {offset : Nat} : Tiles t offset [] []
  | cons {offset : Nat} {token : Token} {tokens : List Token} {slice rest : Text}
      (nonempty : slice ≠ []) (spelled : token.SpelledAs slice)
      (place : token.position.coordinates = t.lineCol offset)
      (more : Tiles t (offset + slice.length) tokens rest) :
    Tiles t offset (token :: tokens) (slice ++ rest)

structure Token.Adjoins (token next : Token) : Prop where
  words : ¬ (token.kind = .word ∧ next.kind = .word)
  blanks : ¬ (token.kind = .whitespace ∧ next.kind = .whitespace)
  comment : token.kind = .comment → next.kind = .newline ∨ next.kind = .finish

theorem Text.unescape_cons (hc : c ≠ '\\') (t : Text) : unescape (c :: t) = c :: unescape t := by
  rw [unescape]
  rintro d rest rfl
  contradiction

theorem Text.leadingWord_drop (t : Text) : leadingWord (t.drop (leadingWord t).length) = [] := by
  induction t with
  | nil => rfl
  | cons c t ih =>
    rw [leadingWord]
    split
    · rename_i hstop
      rw [List.length_nil, List.drop_zero, leadingWord, if_pos hstop]
    · exact ih

theorem Quotation.exists_body (h : (read t).fault = none) :
    ∃ body, t.take (read t).size = body ++ ['\''] ∧ Text.unescape body = (read t).value ∧
      (read t).size ≤ t.length := by
  fun_induction read t with
  | case1 | case4 | case5 | case6 => cases h
  | case2 rest => exact ⟨[], rfl, rfl, by simp⟩
  | case3 c rest hescapable ih =>
    obtain ⟨body, htake, hvalue, hsize⟩ := ih h
    refine ⟨'\\' :: c :: body, ?_, ?_, ?_⟩
    · rw [after, Nat.add_comm 2, List.take_succ_cons, List.take_succ_cons, htake, List.cons_append,
        List.cons_append]
    · rw [Text.unescape, if_pos hescapable, hvalue, after]
    · simp only [after, List.length_cons]
      omega
  | case7 c rest hquote hmore hline hbackslash ih =>
    obtain ⟨body, htake, hvalue, hsize⟩ := ih h
    refine ⟨c :: body, ?_, ?_, ?_⟩
    · rw [after, Nat.add_comm 1, List.take_succ_cons, htake, List.cons_append]
    · rw [Text.unescape_cons (by simpa using hbackslash), hvalue, after]
    · simp only [after, List.length_cons]
      omega

theorem Quotation.expected_read : (read t).fault ≠ some (.unexpectedCharacter c) := by
  fun_induction read t with
  | case3 _ _ _ ih | case7 _ _ _ _ _ _ ih => exact ih
  | _ => simp

namespace Lexeme

theorem word_of_first (h : first c t = .token .word value extra) :
    value = Text.leadingWord (c :: t) ∧ extra = value.length - 1 ∧ value ≠ [] := by
  obtain ⟨hkind, -⟩ | ⟨hoperator, -⟩ | ⟨hkind, -⟩ | ⟨hkind, -⟩ | ⟨-, hword⟩ := token_cases h
  · cases hkind
  · exact absurd rfl (operator?_kind hoperator).1
  · cases hkind
  · cases hkind
  · exact hword

theorem leadingWord_of_word (h : first c t = .token .word value extra) :
    Text.leadingWord (t.drop extra) = [] := by
  obtain ⟨rfl, rfl, hne⟩ := word_of_first h
  obtain ⟨n, hn⟩ := Nat.exists_eq_add_one.2 (List.length_pos_iff.2 hne)
  have hdrop := Text.leadingWord_drop (c :: t)
  rw [hn] at hdrop ⊢
  exact hdrop

theorem spelledAs_of_first (h : first c t = .token kind value extra) (p : Position) :
    extra ≤ t.length ∧ Token.SpelledAs ⟨kind, value, p⟩ (c :: t.take extra) := by
  obtain ⟨rfl, -⟩ | ⟨hoperator, rfl⟩ | ⟨rfl, hopens, rfl, rfl, -⟩ | ⟨rfl, rfl, rfl, rfl, hfault⟩ |
    ⟨rfl, rfl, rfl, hne⟩ := token_cases h
  · obtain ⟨t, rfl, rfl, rfl, rfl⟩ | ⟨-, rfl, rfl, rfl⟩ | ⟨rfl, rfl, rfl⟩ := newline_cases h
    · exact ⟨by simp, rfl⟩
    · exact ⟨by simp, rfl⟩
    · exact ⟨by simp, rfl⟩
  · rw [first_of_operator hoperator] at h
    cases h
    exact ⟨by simp, .of_value (operator?_kind hoperator).2.1 rfl⟩
  · have htake := take_of_start (Text.leadingLine_prefix _) (leadingLine_ne_nil hopens)
    exact ⟨htake.1, .of_value (by simp) htake.2⟩
  · obtain ⟨body, htake, hvalue, hsize⟩ := Quotation.exists_body hfault
    exact ⟨hsize, body, congrArg ('\'' :: ·) htake, hvalue⟩
  · have htake := take_of_start (Text.leadingWord_prefix _) hne
    exact ⟨htake.1, .of_value (by simp) htake.2⟩

end Lexeme

namespace Cursor

theorem unread_skipSpace (a : Cursor) : a.skipSpace.unread = a.unread.dropWhile isSpace := by
  rw [skipSpace, unread_skip, leadingSpace_eq, Text.drop_length_takeWhile]

theorem isSpace_head_skipSpace (a : Cursor) : ∀ d ∈ a.skipSpace.unread.head?, isSpace d = false := by
  intro d hd
  have hnot := List.head?_dropWhile_not isSpace a.unread
  rw [← unread_skipSpace, Option.mem_def.1 hd] at hnot
  simpa using hnot

theorem leadingSpace_append_skipSpace (a : Cursor) :
    a.unread.leadingSpace ++ a.skipSpace.unread = a.unread := by
  rw [unread_skipSpace, leadingSpace_eq, List.takeWhile_append_dropWhile]

theorem tiles_spaceToken {a : Cursor} {n : Nat} {tokens : List Token} (ha : a.At n t)
    (h : Tiles t (n + a.unread.leadingSpace.length) tokens a.skipSpace.unread) :
    Tiles t n (a.spaceToken ++ tokens) a.unread := by
  rw [← leadingSpace_append_skipSpace a]
  unfold spaceToken
  cases hspace : a.unread.leadingSpace with
  | nil => rwa [hspace] at h
  | cons c space =>
    rw [hspace] at h
    exact .cons (List.cons_ne_nil c space) rfl ha.place h

theorem tiles_readOn {a : Cursor} {n : Nat} (ha : a.At n t) (h : a.readOn.misstep = none) :
    Tiles t n a.readOn.tokens a.unread := by
  fun_induction readOn a generalizing n with
  | case1 a hnil =>
    rw [hnil]
    exact .nil
  | case2 => cases h
  | case3 a ch rest hcons kind value extra hfirst after reading =>
    rename_i ih
    obtain ⟨hextra, hspelled⟩ := Lexeme.spelledAs_of_first hfirst a.position
    have hafter : after.At (n + (extra + 1)) t := ha.skip (by simpa [hcons] using hextra)
    have hspace : after.skipSpace.At (n + (extra + 1) + after.unread.leadingSpace.length) t :=
      hafter.skip (Text.leadingSpace_prefix after.unread).length_le
    have hlength : (ch :: rest.take extra).length = extra + 1 := by
      rw [List.length_cons, List.length_take_of_le hextra]
    have hsplit : a.unread = (ch :: rest.take extra) ++ after.unread := by
      rw [unread_skip, hcons, List.drop_succ_cons, List.cons_append, List.take_append_drop]
    rw [hsplit]
    refine .cons (List.cons_ne_nil _ _) hspelled ha.place ?_
    rw [hlength]
    exact tiles_spaceToken hafter (ih hspace h)

theorem head_readOn {a : Cursor} {p : Position} :
    ∀ u ∈ (a.readOn.tokens ++ [Token.finish p]).head?, u.kind = .finish ∨
      ∃ ch t value extra, a.unread = ch :: t ∧ Lexeme.first ch t = .token u.kind value extra := by
  cases hunread : a.unread with
  | nil =>
    rw [readOn_of_nil hunread]
    simp [Token.finish]
  | cons ch t =>
    cases hfirst : Lexeme.first ch t with
    | fault reason n =>
      rw [readOn_of_fault hunread hfirst]
      simp [Token.finish]
    | token kind value extra =>
      rw [readOn_of_token hunread hfirst]
      rintro u hu
      cases hu
      exact .inr ⟨ch, t, value, extra, rfl, hfirst⟩

theorem ne_whitespace_of_head {a : Cursor} {p : Position} :
    ∀ u ∈ (a.readOn.tokens ++ [Token.finish p]).head?, u.kind ≠ .whitespace := by
  intro u hu
  obtain hfinish | ⟨_, _, _, _, -, hfirst⟩ := head_readOn u hu
  · simp [hfinish]
  · exact Lexeme.ne_whitespace_of_first hfirst

structure Follows (kind : Token.Kind) (a : Cursor) : Prop where
  word : kind = .word → a.unread.leadingWord = []
  blanks : kind ≠ .whitespace
  comment : kind = .comment → ∀ d ∈ a.unread.head?, isLineEnd d

theorem follows_of_first {ch : Char} {a : Cursor} (h : Lexeme.first ch t = .token kind value extra)
    (ha : a.unread = t.drop extra) : Follows kind a where
  word := by
    rintro rfl
    rw [ha]
    exact Lexeme.leadingWord_of_word h
  blanks := Lexeme.ne_whitespace_of_first h
  comment := by
    rintro rfl
    rw [ha]
    exact Lexeme.isLineEnd_of_comment h

theorem Follows.adjoins_next {a : Cursor} (h : Follows kind a) (p q : Position) :
    ∀ u ∈ (a.readOn.tokens ++ [Token.finish q]).head?, Token.Adjoins ⟨kind, value, p⟩ u := by
  intro u hu
  obtain hfinish | ⟨ch, t, value', extra, hunread, hfirst⟩ := head_readOn u hu
  · exact ⟨by simp [hfinish], by simp [hfinish], fun _ => .inr hfinish⟩
  · refine ⟨fun ⟨hleft, hright⟩ => ?_, fun hboth => h.blanks hboth.1, fun hcomment => .inl ?_⟩
    · rw [hright] at hfirst
      obtain ⟨rfl, -, hne⟩ := Lexeme.word_of_first hfirst
      rw [← hunread] at hne
      exact hne (h.word hleft)
    · have hline := h.comment hcomment ch (by simp [hunread])
      obtain ⟨_, _, hnewline⟩ := Lexeme.first_of_isLineEnd (t := t) hline
      rw [hnewline] at hfirst
      exact (Lexeme.token.inj hfirst).1.symm

theorem Follows.adjoins_blanks {a : Cursor} {d : Char} {space : Text} (h : Follows kind a)
    (hspace : a.unread.leadingSpace = d :: space) (p q : Position) :
    Token.Adjoins ⟨kind, value, p⟩ ⟨.whitespace, d :: space, q⟩ := by
  refine ⟨by simp, fun hboth => h.blanks hboth.1, fun hcomment => ?_⟩
  obtain ⟨rest, hrest⟩ := Text.leadingSpace_prefix a.unread
  have hall : ∀ c ∈ a.unread.leadingSpace, isSpace c :=
    fun c hc => List.all_eq_true.1 List.all_takeWhile c hc
  have hd := hall d (by simp [hspace])
  rw [hspace] at hrest
  have hline := h.comment hcomment d (by rw [← hrest]; rfl)
  simp [isSpace, hline] at hd

theorem Follows.adjoins {a : Cursor} (h : Follows kind a) (p q : Position) :
    ∀ u ∈ (a.spaceToken ++ (a.skipSpace.readOn.tokens ++ [Token.finish q])).head?,
      Token.Adjoins ⟨kind, value, p⟩ u := by
  intro u hu
  cases hspace : a.unread.leadingSpace with
  | nil =>
    have hskip : a.skipSpace = a := by
      rw [skipSpace, hspace]
      rfl
    rw [spaceToken, hspace, List.nil_append, hskip] at hu
    exact h.adjoins_next p q u hu
  | cons d space =>
    rw [spaceToken, hspace] at hu
    cases hu
    exact h.adjoins_blanks hspace p a.position

theorem chain_readOn (a : Cursor) (q : Position) :
    (a.readOn.tokens ++ [Token.finish q]).IsChain Token.Adjoins := by
  fun_induction readOn a with
  | case1 => exact .singleton _
  | case2 => exact .singleton _
  | case3 a ch rest hcons kind value extra hfirst after reading =>
    rename_i ih
    have hafter : after.unread = rest.drop extra := by simp [after, hcons]
    have htokens : ⟨kind, value, a.position⟩ :: (after.spaceToken ++ reading.tokens) ++
        [Token.finish q] = ⟨kind, value, a.position⟩ ::
          (after.spaceToken ++ (after.skipSpace.readOn.tokens ++ [Token.finish q])) := by
      rw [List.cons_append, List.append_assoc]
      rfl
    have hmore : (after.spaceToken ++ (after.skipSpace.readOn.tokens ++
        [Token.finish q])).IsChain Token.Adjoins := by
      unfold spaceToken
      split
      · exact ih
      · exact List.IsChain.cons ih fun u hu =>
          ⟨by simp, fun h => ne_whitespace_of_head u hu h.2, by simp⟩
    rw [htokens]
    exact hmore.cons ((follows_of_first hfirst hafter).adjoins _ q)

theorem expected_readOn {a : Cursor} (hspace : ∀ ch ∈ a.unread.head?, isSpace ch = false) :
    ∀ m ∈ a.readOn.misstep, ∀ c, m.fault ≠ .unexpectedCharacter c := by
  fun_induction readOn a with
  | case1 => simp
  | case2 a ch rest hcons fault n hfirst =>
    rintro m hm c
    cases hm
    obtain ⟨rfl, -⟩ | ⟨-, hfault, -⟩ | ⟨-, -, hblank⟩ := Lexeme.fault_cases hfirst
    · simp [misstep]
    · rintro rfl
      exact Quotation.expected_read hfault
    · rw [hspace ch (by simp [hcons])] at hblank
      cases hblank
  | case3 a ch rest hcons kind value extra hfirst after reading =>
    rename_i ih
    exact ih after.isSpace_head_skipSpace

theorem unread_readAll (t : Text) :
    ((start t).skip ((start t).unread.takeWhile isBlank).length).unread = t.trim := by
  rw [unread_skip, Text.drop_length_takeWhile]
  rfl

theorem isSpace_head_readAll (t : Text) :
    ∀ c ∈ ((start t).skip ((start t).unread.takeWhile isBlank).length).unread.head?,
      isSpace c = false := by
  intro c hc
  rw [unread_readAll] at hc
  simp [isSpace, Text.isBlank_head_trim t c hc]

end Cursor

namespace TokenList

/-- Reading never fails for an unexpected character, and where it succeeds the tokens tile the text
without the blanks at its ends. -/
theorem ofText_tiles (source t : Text) :
    (∃ e, ofText source t = .error e ∧ ∀ c, e.fault ≠ .unexpectedCharacter c) ∨
      ∃ ts, ofText source t = .ok ts ∧ Tiles t (t.takeWhile isBlank).length ts.tokens t.trim ∧
        ts.toList.IsChain Token.Adjoins := by
  have hunread := Cursor.unread_readAll t
  cases hread : ofText source t with
  | error e =>
    obtain ⟨m, hm, rfl⟩ := ofText_eq_error_iff.1 hread
    refine .inl ⟨_, rfl, Cursor.expected_readOn (fun ch hch => ?_) m hm⟩
    rw [hunread] at hch
    simp [isSpace, Text.isBlank_head_trim t ch hch]
  | ok ts =>
    obtain ⟨hnone, htokens, -⟩ := ofText_eq_ok_iff.1 hread
    refine .inr ⟨ts, rfl, ?_, ?_⟩
    · rw [← htokens]
      by_cases htrim : t.trim = []
      · rw [Cursor.readAll, Cursor.readOn_of_nil (hunread.trans htrim), htrim]
        exact .nil
      · have hat : (Cursor.start t).At 0 t := ⟨rfl, Nat.zero_le _⟩
        have htiles := Cursor.tiles_readOn
          (hat.skip (List.takeWhile_prefix isBlank).length_le) hnone
        have hoffset : (Cursor.start t).unread.takeWhile isBlank = t.takeWhile isBlank :=
          Text.takeWhile_trimRight htrim
        rw [hunread, hoffset, Nat.zero_add] at htiles
        rwa [Cursor.readAll, hoffset]
    · rw [toList, ← htokens]
      exact Cursor.chain_readOn _ _

end TokenList

end GrammarCheck
