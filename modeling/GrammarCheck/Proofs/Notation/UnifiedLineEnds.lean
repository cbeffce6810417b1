import GrammarCheck.Proofs.Notation.LineEnds
import GrammarCheck.Proofs.Parsing.Respelling
import GrammarCheck.Proofs.Text.UnifiedLineEnds

namespace GrammarCheck

variable {c : Char} {t u : Text}

/-- Texts that go on alike up to the end of the line, where both or neither end. -/
inductive SameLine : Text → Text → Prop
  | nil : SameLine [] []
  | lineEnd {c d : Char} {t u : Text} (hc : isLineEnd c) (hd : isLineEnd d) :
    SameLine (c :: t) (d :: u)
  | cons {c : Char} {t u : Text} (hc : isLineEnd c = false) (more : SameLine t u) :
    SameLine (c :: t) (c :: u)

theorem Text.opensComment_cons_iff : opensComment (c :: t) ↔ c = '/' ∧ t.head? = some '/' := by
  unfold opensComment
  split
  · rename_i heq
    cases heq
    simp
  · rename_i hno
    refine iff_of_false Bool.false_ne_true ?_
    rintro ⟨rfl, hhead⟩
    obtain ⟨rest, rfl⟩ := List.head?_eq_some_iff.1 hhead
    exact hno rest rfl

theorem Quotation.read_of_isLineEnd (h : isLineEnd c) (t : Text) :
    read (c :: t) = ⟨[], 0, some .multilineTerminal⟩ := by
  obtain rfl | rfl := Text.isLineEnd_iff.1 h
  · rfl
  · rfl

namespace SameLine

theorem unifyLineEnds (t : Text) : SameLine t t.unifyLineEnds := by
  fun_induction Text.unifyLineEnds t with
  | case1 => exact .nil
  | case2 | case3 => exact .lineEnd rfl rfl
  | case4 c t _ _ ih =>
    by_cases hline : isLineEnd c
    · exact .lineEnd hline hline
    · exact .cons (by simpa using hline) ih

theorem takeWhile (h : SameLine t u) {p : Char → Bool} (hp : ∀ c, isLineEnd c → p c = false) :
    u.takeWhile p = t.takeWhile p := by
  induction h with
  | nil => rfl
  | lineEnd hc hd =>
    rw [List.takeWhile_cons_of_neg (Bool.eq_false_iff.1 (hp _ hc)),
      List.takeWhile_cons_of_neg (Bool.eq_false_iff.1 (hp _ hd))]
  | cons _ _ ih => rw [List.takeWhile_cons, List.takeWhile_cons, ih]

theorem leadingSpace (h : SameLine t u) : u.leadingSpace = t.leadingSpace :=
  h.takeWhile fun c hc => by simp [hc]

theorem leadingLine (h : SameLine t u) : u.leadingLine = t.leadingLine :=
  h.takeWhile fun c hc => by simp [hc]

theorem head?_eq_iff (h : SameLine t u) (hc : isLineEnd c = false) :
    u.head? = some c ↔ t.head? = some c := by
  cases h with
  | nil => exact .rfl
  | lineEnd hd hd' =>
    constructor
    · rintro ⟨⟩
      rw [hc] at hd'
      cases hd'
    · rintro ⟨⟩
      rw [hc] at hd
      cases hd
  | cons => exact .rfl

theorem opensComment_cons (h : SameLine t u) (c : Char) :
    Text.opensComment (c :: u) = Text.opensComment (c :: t) := by
  rw [Bool.eq_iff_iff, Text.opensComment_cons_iff, Text.opensComment_cons_iff, h.head?_eq_iff rfl]

theorem leadingWord (h : SameLine t u) : u.leadingWord = t.leadingWord := by
  induction h with
  | nil => rfl
  | lineEnd hc hd =>
    rw [Text.leadingWord, Text.leadingWord, isBlank_of_isLineEnd hc, isBlank_of_isLineEnd hd]
    rfl
  | cons hc more ih =>
    rw [Text.leadingWord, Text.leadingWord, ih, more.opensComment_cons]

theorem read (h : SameLine t u) : Quotation.read u = Quotation.read t := by
  fun_induction Quotation.read t generalizing u with
  | case1 =>
    cases h
    rfl
  | case2 =>
    obtain _ | ⟨hquote, _⟩ | _ := h
    · cases hquote
    · rfl
  | case3 c rest hescapable ih =>
    obtain _ | ⟨hbackslash, _⟩ | ⟨-, more⟩ := h
    · cases hbackslash
    obtain _ | ⟨hline, _⟩ | ⟨-, more⟩ := more
    · rw [Text.not_isLineEnd_of_isEscapable hescapable] at hline
      cases hline
    · rw [Quotation.read, if_pos hescapable, ih more]
  | case4 c rest hescapable =>
    obtain _ | ⟨hbackslash, _⟩ | ⟨-, more⟩ := h
    · cases hbackslash
    obtain _ | ⟨-, hline⟩ | _ := more
    · rw [Quotation.read, if_neg]
      intro hescapable
      rw [Text.not_isLineEnd_of_isEscapable hescapable] at hline
      cases hline
    · rw [Quotation.read, if_neg hescapable]
  | case5 c rest _ _ hline =>
    obtain _ | ⟨-, hline'⟩ | ⟨hno, -⟩ := h
    · exact Quotation.read_of_isLineEnd hline' _
    · rw [hline] at hno
      cases hno
  | case6 c rest hquote hmore hline hbackslash =>
    have hc : c = '\\' := by simpa using hbackslash
    cases rest with
    | nil =>
      obtain _ | _ | ⟨-, more⟩ := h
      · contradiction
      cases more
      rw [hc]
      rfl
    | cons d rest => exact (hmore d rest hc rfl).elim
  | case7 c rest hquote hmore hline hbackslash ih =>
    obtain _ | _ | ⟨hno, more⟩ := h
    · contradiction
    · rw [Quotation.read_plain hquote (by simpa using hbackslash) hno, ih more]

theorem first (h : SameLine t u) (hc : isLineEnd c = false) :
    Lexeme.first c u = Lexeme.first c t := by
  have hreturn : c ≠ '\r' := by
    rintro rfl
    cases hc
  have hcons := SameLine.cons hc h
  have hcomment : Lexeme.comment (c :: u) = Lexeme.comment (c :: t) := by
    rw [Lexeme.comment, hcons.leadingLine, Lexeme.comment]
  have hterminal : Lexeme.terminal u = Lexeme.terminal t := by
    rw [Lexeme.terminal, h.read, Lexeme.terminal]
  rw [Lexeme.first, Lexeme.first, h.opensComment_cons, hcomment, hterminal, hcons.leadingWord,
    beq_false_of_ne hreturn, Bool.false_and, Bool.false_and]

end SameLine

theorem Lexeme.newline_cases {value : Text} {extra : Nat}
    (h : first c t = .token .newline value extra) :
    (∃ u, t = '\n' :: u ∧ c = '\r' ∧ value = ['\r', '\n'] ∧ extra = 1) ∨
      (t.head? ≠ some '\n' ∧ c = '\r' ∧ value = ['\r'] ∧ extra = 0) ∨
      (c = '\n' ∧ value = ['\n'] ∧ extra = 0) := by
  obtain rfl | rfl := Text.isLineEnd_iff.1 (isLineEnd_of_newline h)
  · by_cases hhead : t.head? = some '\n'
    · obtain ⟨u, rfl⟩ := List.head?_eq_some_iff.1 hhead
      cases h
      exact .inl ⟨u, rfl, rfl, rfl, rfl⟩
    · have hfirst : first '\r' t = .token .newline ['\r'] 0 := by simp [first, hhead, isLineEnd]
      rw [hfirst] at h
      cases h
      exact .inr (.inl ⟨hhead, rfl, rfl, rfl⟩)
  · cases h
    exact .inr (.inr ⟨rfl, rfl, rfl⟩)

namespace Position

theorem past_of_not_lineEnd (hc : isLineEnd c = false) (p : Position) (next : Option Char) :
    p.past c next = ⟨p.line, p.column + 1⟩ := by
  rw [isLineEnd, Bool.or_eq_false_iff] at hc
  simp [past, hc.1, hc.2]

theorem past_of_ne_return (hc : c ≠ '\r') (p : Position) (next next' : Option Char) :
    p.past c next = p.past c next' := by
  simp [past, hc]

theorem past_return {next : Option Char} (h : next ≠ some '\n') (p : Position) :
    p.past '\r' next = ⟨p.line + 1, 1⟩ := by
  simp [past, h]

theorem past_lineEnd {next : Option Char} (hc : isLineEnd c) (h : c = '\r' → next ≠ some '\n')
    (p : Position) : p.past c next = ⟨p.line + 1, 1⟩ := by
  obtain rfl | rfl := Text.isLineEnd_iff.1 hc
  · exact past_return (h rfl) p
  · rfl

end Position

namespace Cursor

def unified (c : Cursor) : Cursor := ⟨c.unread.unifyLineEnds, c.position⟩

theorem next_unified {c : Cursor} (h : ∀ ch ∈ c.unread.head?, isLineEnd ch = false) :
    c.unified.next = c.next.unified := by
  obtain ⟨_ | ⟨ch, t⟩, p⟩ := c
  · rfl
  · have hline := h ch rfl
    rw [unified, Text.unifyLineEnds_cons hline, next, next, unified,
      Position.past_of_not_lineEnd hline, Position.past_of_not_lineEnd hline]

theorem skip_unified {c : Cursor} {n : Nat} (h : ∀ ch ∈ c.unread.take n, isLineEnd ch = false) :
    c.unified.skip n = (c.skip n).unified := by
  induction n generalizing c with
  | zero => rfl
  | succ n ih =>
    obtain ⟨_ | ⟨ch, t⟩, p⟩ := c
    · exact ih (c := ⟨[], p⟩) (by simp)
    · rw [List.take_succ_cons, List.forall_mem_cons] at h
      have hhead : ∀ d ∈ (ch :: t).head?, isLineEnd d = false := by simpa using h.1
      rw [skip, skip, next_unified hhead]
      exact ih h.2

theorem skip_lineEnd_unified {c : Cursor} {ch : Char} {t value : Text} {extra : Nat}
    (hunread : c.unread = ch :: t) (h : Lexeme.first ch t = .token .newline value extra) :
    c.unified.skip 1 = (c.skip (extra + 1)).unified := by
  obtain ⟨unread, p⟩ := c
  obtain rfl : unread = ch :: t := hunread
  obtain ⟨t, rfl, rfl, rfl, rfl⟩ | ⟨hhead, rfl, rfl, rfl⟩ | ⟨rfl, rfl, rfl⟩ :=
    Lexeme.newline_cases h
  · rfl
  · rw [unified, Text.unifyLineEnds_return hhead]
    simp only [skip, next, unified, Position.past_return hhead]
    rfl
  · rfl

theorem skip_takeWhile_cons {p : Char → Bool} {ch : Char} (h : p ch) (t : Text) (q : Position) :
    skip ((ch :: t).takeWhile p).length ⟨ch :: t, q⟩ =
      skip (t.takeWhile p).length ⟨t, q.past ch t.head?⟩ := by
  rw [List.takeWhile_cons_of_pos h]
  rfl

theorem skip_takeWhile_of_neg {p : Char → Bool} {ch : Char} (h : ¬ p ch) (t : Text) (q : Position) :
    skip ((ch :: t).takeWhile p).length ⟨ch :: t, q⟩ = ⟨ch :: t, q⟩ := by
  rw [List.takeWhile_cons_of_neg h]
  rfl

theorem skipBlanks_unified (c : Cursor) :
    c.unified.skip (c.unified.unread.takeWhile isBlank).length =
      (c.skip (c.unread.takeWhile isBlank).length).unified := by
  obtain ⟨t, p⟩ := c
  change skip (t.unifyLineEnds.takeWhile isBlank).length ⟨t.unifyLineEnds, p⟩ = _
  fun_induction Text.unifyLineEnds t generalizing p with
  | case1 => rfl
  | case2 t ih => exact ih _
  | case3 t hno ih =>
    have hhead : t.head? ≠ some '\n' := by
      intro hhead
      obtain ⟨rest, rfl⟩ := List.head?_eq_some_iff.1 hhead
      exact hno rest rfl
    rw [skip_takeWhile_cons rfl, skip_takeWhile_cons rfl, Position.past_return hhead]
    exact ih _
  | case4 ch t hno hreturn ih =>
    by_cases hblank : isBlank ch
    · rw [skip_takeWhile_cons hblank, skip_takeWhile_cons hblank,
        Position.past_of_ne_return hreturn _ _ t.head?]
      exact ih _
    · have hline := not_isLineEnd_of_plain (Bool.eq_false_iff.2 hblank)
      rw [skip_takeWhile_of_neg hblank, skip_takeWhile_of_neg hblank, unified,
        Text.unifyLineEnds_cons hline]

theorem spaceToken_unified (c : Cursor) : c.unified.spaceToken = c.spaceToken := by
  rw [spaceToken, spaceToken, unified, (SameLine.unifyLineEnds c.unread).leadingSpace]

theorem skipSpace_unified (c : Cursor) : c.unified.skipSpace = c.skipSpace.unified := by
  have hspace : c.unified.unread.leadingSpace = c.unread.leadingSpace :=
    (SameLine.unifyLineEnds c.unread).leadingSpace
  have htake : c.unread.take c.unread.leadingSpace.length = c.unread.leadingSpace :=
    (List.prefix_iff_eq_take.1 (List.takeWhile_prefix _)).symm
  rw [skipSpace, hspace]
  refine skip_unified fun ch hch => ?_
  rw [htake] at hch
  have hall := List.all_eq_true.1 (List.all_takeWhile (l := c.unread)) ch hch
  simpa using (Bool.and_eq_true_iff.1 hall).2

theorem exists_first_unified {c : Cursor} {ch : Char} {t value : Text} {kind : Token.Kind}
    {extra : Nat} (hunread : c.unread = ch :: t)
    (hfirst : Lexeme.first ch t = .token kind value extra) :
    ∃ ch' t' extra', c.unified.unread = ch' :: t' ∧
      Lexeme.first ch' t' =
        .token kind (if kind = .newline then ['\n'] else value) extra' ∧
      c.unified.skip (extra' + 1) = (c.skip (extra + 1)).unified := by
  by_cases hkind : kind = .newline
  · subst hkind
    have hskip := skip_lineEnd_unified hunread hfirst
    obtain ⟨u, hu⟩ : ∃ u, c.unified.unread = '\n' :: u := by
      rw [unified, hunread]
      obtain ⟨t, rfl, rfl, -⟩ | ⟨hhead, rfl, -⟩ | ⟨rfl, -⟩ := Lexeme.newline_cases hfirst
      · exact ⟨_, rfl⟩
      · exact ⟨_, Text.unifyLineEnds_return hhead⟩
      · exact ⟨_, rfl⟩
    exact ⟨'\n', u, 0, hu, rfl, hskip⟩
  · have hplain := Lexeme.noLineEnd_of_first hfirst hkind
    have hline := hplain ch List.mem_cons_self
    refine ⟨ch, t.unifyLineEnds, extra, ?_, ?_, skip_unified ?_⟩
    · rw [unified, hunread, Text.unifyLineEnds_cons hline]
    · rw [(SameLine.unifyLineEnds t).first hline, hfirst, if_neg hkind]
    · rwa [hunread, List.take_succ_cons]

end Cursor

def Respelling.unified : Respelling where
  keepsSpace := true
  token t := { t with value := if t.kind = .newline then ['\n'] else t.value }
  kind_token _ := rfl
  value_token _ h := if_neg h

theorem Respelling.tokens_append (ρ : Respelling) (ts us : List Token) :
    ρ.tokens (ts ++ us) = ρ.tokens ts ++ ρ.tokens us := by
  rw [tokens, List.filter_append, List.map_append]
  rfl

theorem Respelling.tokens_spaceToken (c : Cursor) :
    Respelling.unified.tokens c.spaceToken = c.spaceToken := by
  unfold Cursor.spaceToken
  split <;> rfl

namespace Reading

def unified (r : Reading) : Reading :=
  ⟨Respelling.unified.tokens r.tokens, r.stop.unified, r.misstep⟩

end Reading

namespace Cursor

theorem readOn_unified (c : Cursor) : c.unified.readOn = c.readOn.unified := by
  fun_induction readOn c with
  | case1 c hnil =>
    have hunified : c.unified.unread = [] := by rw [unified, hnil]; rfl
    rw [readOn_of_nil hunified]
    rfl
  | case2 c ch t hcons fault n hfirst =>
    have hplain := Lexeme.noLineEnd_of_fault hfirst
    have hskip : c.unified.skip n = (c.skip n).unified := skip_unified (by rwa [hcons])
    have hline : isLineEnd ch = false := by
      apply Bool.eq_false_iff.2
      intro hline
      obtain ⟨value, extra, htoken⟩ := Lexeme.first_of_isLineEnd (t := t) hline
      rw [htoken] at hfirst
      cases hfirst
    have hunread : c.unified.unread = ch :: Text.unifyLineEnds t := by
      rw [unified, hcons, Text.unifyLineEnds_cons hline]
    have hfirst' := ((SameLine.unifyLineEnds t).first hline).trans hfirst
    have hmisstep : c.unified.misstep fault n = c.misstep fault n := by
      rw [misstep, misstep, hskip]
      rfl
    rw [readOn_of_fault hunread hfirst', hskip, hmisstep]
    rfl
  | case3 c ch t hcons kind value extra hfirst after reading ih =>
    obtain ⟨ch', t', extra', hunread, hfirst', hskip⟩ := exists_first_unified hcons hfirst
    have htokens : ∀ p : Position, Respelling.unified.tokens
        (⟨kind, value, p⟩ :: (after.spaceToken ++ reading.tokens)) =
          ⟨kind, if kind = .newline then ['\n'] else value, p⟩ ::
            (after.spaceToken ++ Respelling.unified.tokens reading.tokens) := by
      intro p
      rw [Respelling.tokens_cons_of_keeps _ rfl, Respelling.tokens_append,
        Respelling.tokens_spaceToken]
      rfl
    have hmore : after.skipSpace.unified.readOn = reading.unified := ih
    rw [readOn_of_token hunread hfirst', hskip, spaceToken_unified, skipSpace_unified, hmore,
      Reading.unified, Reading.unified, htokens]
    rfl

theorem readAll_unified (c : Cursor) : c.unified.readAll = c.readAll.unified := by
  rw [readAll, readAll, skipBlanks_unified, readOn_unified]

theorem start_unifyLineEnds (t : Text) : start t.unifyLineEnds = (start t).unified := by
  rw [start, start, unified, Text.trimRight_unifyLineEnds]

end Cursor

namespace TokenList

variable {source : Text}

theorem ofText_eq_error_iff {e : SyntaxError} : ofText source t = .error e ↔
    ∃ m, (Cursor.start t).readAll.misstep = some m ∧ e = m.error source t := by
  unfold ofText
  dsimp only
  split
  · rename_i m hm
    simp [hm, eq_comm]
  · rename_i hm
    simp [hm]

theorem ofText_unifyLineEnds_of_error {e : SyntaxError} (h : ofText source t = .error e) :
    ofText source t.unifyLineEnds = .error e := by
  obtain ⟨m, hm, rfl⟩ := ofText_eq_error_iff.1 h
  rw [ofText_eq_error_iff, Cursor.start_unifyLineEnds, Cursor.readAll_unified]
  refine ⟨m, hm, ?_⟩
  rw [Misstep.error, Misstep.error, Text.sourceLine_unifyLineEnds]

theorem ofText_unifyLineEnds_of_ok {ts : TokenList} (h : ofText source t = .ok ts) :
    ofText source t.unifyLineEnds = .ok ⟨Respelling.unified.tokens ts.tokens, ts.finish⟩ := by
  obtain ⟨hnone, htokens, hfinish⟩ := ofText_eq_ok_iff.1 h
  rw [ofText_eq_ok_iff, Cursor.start_unifyLineEnds, Cursor.readAll_unified]
  exact ⟨hnone, congrArg Respelling.unified.tokens htokens, hfinish⟩

end TokenList

end GrammarCheck
