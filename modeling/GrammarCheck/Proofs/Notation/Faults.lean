import GrammarCheck.Proofs.Notation.Sessions
import GrammarCheck.Proofs.Notation.Tokenized

namespace GrammarCheck

variable {c : Char} {t u : Text} {fault : Fault} {n offset : Nat}

inductive Quoted : Text → Prop
  | nil : Quoted []
  | plain {c : Char} {t : Text} (quote : c ≠ '\'') (backslash : c ≠ '\\')
      (line : isLineEnd c = false) (more : Quoted t) : Quoted (c :: t)
  | escape {c : Char} {t : Text} (escapable : Text.isEscapable c) (more : Quoted t) :
    Quoted ('\\' :: c :: t)

theorem Quoted.append (h : Quoted t) (h' : Quoted u) : Quoted (t ++ u) := by
  induction h with
  | nil => exact h'
  | plain hquote hbackslash hline _ ih => exact .plain hquote hbackslash hline ih
  | escape hescapable _ ih => exact .escape hescapable ih

/-- A text that starts with a bad comment or a bad terminal, and how far from its start the fault is.
The comment holds the mark no comment may hold; the terminal comes to the end of the text or of its
line before its closing quote, or to a backslash that escapes nothing. -/
inductive Spoils : Text → Fault → Nat → Prop
  | comment {t : Text} (opens : t.opensComment) (closes : t.leadingLine.closesGroup) :
    Spoils t .commentClosesGroup 0
  | unterminated {body : Text} (quoted : Quoted body) :
    Spoils ('\'' :: body) .unterminatedTerminal 0
  | multiline {c : Char} {body rest : Text} (quoted : Quoted body) (line : isLineEnd c) :
    Spoils ('\'' :: (body ++ c :: rest)) .multilineTerminal 0
  | escape {body rest : Text} (quoted : Quoted body)
      (bad : ∀ c ∈ rest.head?, Text.isEscapable c = false) :
    Spoils ('\'' :: (body ++ '\\' :: rest)) .illegalEscape (body.length + 1)

def Fault.mark? : Fault → Option Char
  | .commentClosesGroup => some '/'
  | .unterminatedTerminal | .multilineTerminal => some '\''
  | .illegalEscape => some '\\'
  | _ => none

theorem Fault.not_isLineEnd_mark (h : fault.mark? = some c) : isLineEnd c = false := by
  cases fault <;> cases h <;> decide

theorem Fault.not_mem_message (h : fault.mark? = some c) : '\n' ∉ fault.message := by
  cases fault <;> cases h <;> decide

theorem Spoils.exists_mark (h : Spoils t fault n) :
    ∃ c, fault.mark? = some c ∧ t[n]? = some c := by
  cases h with
  | comment opens =>
    cases t with
    | nil => cases opens
    | cons d t => exact ⟨'/', rfl, congrArg some (Text.opensComment_cons_iff.1 opens).1⟩
  | unterminated | multiline => exact ⟨'\'', rfl, rfl⟩
  | escape => exact ⟨'\\', rfl, by simp⟩

inductive Text.SpoiltAt (t : Text) (fault : Fault) : Nat → Prop
  | intro {ss : List Symbol} {start n : Nat} (tokens : Tokenized t.trim ss (t.trimRight.drop start))
      (spoils : Spoils (t.trimRight.drop start) fault n) : t.SpoiltAt fault (start + n)

theorem Text.SpoiltAt.exists_mark (h : t.SpoiltAt fault offset) :
    ∃ c, fault.mark? = some c ∧ t[offset]? = some c ∧ offset < t.trimRight.length := by
  obtain ⟨-, spoils⟩ := h
  obtain ⟨c, hmark, hc⟩ := spoils.exists_mark
  rw [List.getElem?_drop] at hc
  have hlt := (List.getElem?_eq_some_iff.1 hc).1
  obtain ⟨blanks, ht⟩ := trimRight_prefix t
  refine ⟨c, hmark, ?_, hlt⟩
  rw [← ht, List.getElem?_append_left hlt, hc]

theorem Quotation.length_append_add_size (body part : Text) (c : Char) (q : Quotation) :
    (body ++ part).length + q.size = body.length + (q.after part.length c).size := by
  rw [List.length_append, Nat.add_assoc]
  rfl

theorem Quotation.spoils {body : Text} (hbody : Quoted body) (h : (read t).fault = some fault) :
    Spoils ('\'' :: (body ++ t)) fault
      (if fault.isLocal then body.length + (read t).size + 1 else 0) := by
  -- what is read moves from the text to the body, so that the whole stays as it is
  fun_induction read t generalizing body with
  | case1 =>
    cases h
    rw [List.append_nil]
    exact .unterminated hbody
  | case2 => cases h
  | case3 c rest hescapable ih =>
    have hmore := ih (hbody.append (.escape hescapable .nil)) h
    rw [length_append_add_size _ _ c, List.append_assoc] at hmore
    exact hmore
  | case4 c rest hescapable =>
    cases h
    exact .escape hbody (by simpa using hescapable)
  | case5 c rest hquote hmore hline =>
    cases h
    exact .multiline hbody hline
  | case6 c rest hquote hnext hline hbackslash =>
    cases h
    obtain rfl : c = '\\' := by simpa using hbackslash
    refine .escape hbody fun d hd => ?_
    obtain ⟨rest, rfl⟩ := List.head?_eq_some_iff.1 hd
    exact (hnext d rest rfl rfl).elim
  | case7 c rest hquote hnext hline hbackslash ih =>
    have hplain : Quoted [c] :=
      .plain hquote (by simpa using hbackslash) (by simpa using hline) .nil
    have hmore := ih (hbody.append hplain) h
    rw [length_append_add_size _ _ c, List.append_assoc] at hmore
    exact hmore

theorem Lexeme.spoils_of_first (hspace : isSpace c = false) (h : first c t = .fault fault n) :
    Spoils (c :: t) fault (if fault.isLocal then n else 0) := by
  obtain ⟨rfl, -, hopens, hcloses⟩ | ⟨rfl, hfault, rfl⟩ | ⟨-, -, hblank⟩ := fault_cases h
  · exact .comment hopens hcloses
  · have hspoils := Quotation.spoils .nil hfault
    rwa [List.length_nil, Nat.zero_add] at hspoils
  · rw [hspace] at hblank
    cases hblank

theorem Tokenized.of_dropWhile {ss : List Symbol} (h : Tokenized (t.dropWhile isSpace) ss u) :
    ∃ ss', Tokenized t ss' u := by
  by_cases hspace : t.leadingSpace = []
  · have hwhole := List.takeWhile_append_dropWhile (p := isSpace) (l := t)
    rw [← Cursor.leadingSpace_eq, hspace, List.nil_append] at hwhole
    exact ⟨ss, hwhole ▸ h⟩
  · exact ⟨_, .space hspace h⟩

namespace Cursor

variable {a : Cursor}

theorem position_misstep (a : Cursor) (fault : Fault) (n : Nat) :
    (a.misstep fault n).position = (a.skip (if fault.isLocal then n else 0)).position := by
  unfold misstep
  split <;> rfl

theorem At.spoils_readOn (ha : a.At offset t) (hspace : ∀ ch ∈ a.unread.head?, isSpace ch = false) :
    ∀ m ∈ a.readOn.misstep, ∃ ss start n, Tokenized a.unread ss (t.trimRight.drop start) ∧
      Spoils (t.trimRight.drop start) m.fault n ∧
      m.position.coordinates = t.lineCol (start + n : Nat) := by
  fun_induction readOn a generalizing offset with
  | case1 => simp
  | case2 a ch rest hcons fault n hfirst =>
    rintro m ⟨⟩
    have hspoils := Lexeme.spoils_of_first (hspace ch (by simp [hcons])) hfirst
    rw [← hcons] at hspoils
    obtain ⟨c, -, hc⟩ := hspoils.exists_mark
    have hlt := (List.getElem?_eq_some_iff.1 hc).1
    have hat := ha.skip (Nat.le_of_lt hlt)
    rw [ha.unread] at hspoils
    refine ⟨[], offset, _, ha.unread ▸ .nil, hspoils, ?_⟩
    rw [position_misstep, hat.place]
  | case3 a ch rest hcons kind value extra hfirst after reading =>
    rename_i ih
    intro m hm
    have hafter : after.unread = rest.drop extra := by simp [after, hcons]
    obtain ⟨n, -, hat⟩ := ha.exists_skip (extra + 1)
    have hnext : after.skipSpace.At (n + after.unread.leadingSpace.length) t :=
      hat.skip (Text.leadingSpace_prefix after.unread).length_le
    obtain ⟨ss, start, n, htokens, hspoils, hplace⟩ := ih hnext after.isSpace_head_skipSpace m hm
    rw [← skipSpace, unread_skipSpace, hafter] at htokens
    obtain ⟨ss', htokens'⟩ := htokens.of_dropWhile
    rw [hcons]
    exact ⟨_, start, n, .token hfirst htokens', hspoils, hplace⟩

end Cursor

def Position.LiesIn (p : Position) (t : Text) : Prop :=
  ∃ k ≤ t.trimRight.length, p.coordinates = t.lineCol k

namespace Cursor

variable {a : Cursor}

theorem at_start (t : Text) : (start t).At 0 t := ⟨rfl, Nat.zero_le _⟩

theorem At.liesIn (ha : a.At offset t) : a.position.LiesIn t := ⟨offset, ha.le, ha.place⟩

theorem At.liesIn_readOn (ha : a.At offset t) :
    ∀ token ∈ a.readOn.tokens, token.position.LiesIn t := by
  fun_induction readOn a generalizing offset with
  | case1 | case2 => simp
  | case3 a ch rest hcons kind value extra hfirst after reading =>
    rename_i ih
    obtain ⟨n, -, hafter⟩ := ha.exists_skip (extra + 1)
    obtain ⟨m, -, hnext⟩ := hafter.exists_skip after.unread.leadingSpace.length
    have hspace : ∀ token ∈ after.spaceToken, token.position.LiesIn t := by
      unfold spaceToken
      split
      · simp
      · exact List.forall_mem_singleton.2 hafter.liesIn
    exact List.forall_mem_cons.2 ⟨ha.liesIn, List.forall_mem_append.2 ⟨hspace, ih hnext⟩⟩

theorem exists_at_first (t : Text) :
    ∃ n, ((start t).skip ((start t).unread.takeWhile isBlank).length).At n t := by
  obtain ⟨n, -, hat⟩ := (at_start t).exists_skip ((start t).unread.takeWhile isBlank).length
  exact ⟨n, hat⟩

theorem exists_at_stop (t : Text) : ∃ n, (start t).readAll.stop.At n t := by
  obtain ⟨m, hstop⟩ := (start t).exists_stop_readAll
  obtain ⟨n, -, hat⟩ := (at_start t).exists_skip m
  exact ⟨n, hstop ▸ hat⟩

end Cursor

namespace TokenList

variable {source : Text}

theorem liesIn_of_ofText {ts : TokenList} (h : ofText source t = .ok ts) :
    ts.finish.LiesIn t ∧ ∀ token ∈ ts.tokens, token.position.LiesIn t := by
  obtain ⟨-, htokens, hfinish⟩ := ofText_eq_ok_iff.1 h
  obtain ⟨n, hstop⟩ := Cursor.exists_at_stop t
  obtain ⟨m, hfirst⟩ := Cursor.exists_at_first t
  rw [← htokens, ← hfinish]
  exact ⟨hstop.liesIn, hfirst.liesIn_readOn⟩

theorem spoiltAt_of_ofText {e : SyntaxError} (h : ofText source t = .error e) :
    e.source = source ∧ e.snippet = some (t.sourceLine e.position.line) ∧
      ∃ k, t.SpoiltAt e.fault k ∧ e.position.coordinates = t.lineCol k := by
  obtain ⟨m, hm, rfl⟩ := ofText_eq_error_iff.1 h
  obtain ⟨n, hfirst⟩ := Cursor.exists_at_first t
  obtain ⟨ss, start, k, htokens, hspoils, hplace⟩ :=
    hfirst.spoils_readOn (Cursor.isSpace_head_readAll t) m hm
  rw [Cursor.unread_readAll] at htokens
  exact ⟨rfl, rfl, _, .intro htokens hspoils, hplace⟩

end TokenList

end GrammarCheck
