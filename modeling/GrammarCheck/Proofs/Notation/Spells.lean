import GrammarCheck.Grammar.Printer
import GrammarCheck.Proofs.Notation.Scanned

/-!
Texts that are written as the same symbols, or stand for the same symbols, wherever they are put. A
word has to end before the text behind it; layout that ends in a tab has ended it already.
-/

namespace GrammarCheck

def EndsWord (t : Text) : Prop := ∀ c ∈ t.head?, isBlank c ∨ Text.stopsWord c

/-- A text stands for some symbols, whatever follows. -/
structure Spells (t : Text) (ss : List Symbol) : Prop where
  ne_nil : t ≠ []
  lexed : ∀ rest, (endsInTab t = false → EndsWord rest) → Lexed (t ++ rest) ss rest

structure Writes (t : Text) (ss : List Symbol) : Prop where
  ne_nil : t ≠ []
  scanned : ∀ rest, (endsInTab t = false → EndsWord rest) → Scanned (t ++ rest) ss rest

def IsNewline (t : Text) : Prop := t = ['\r', '\n'] ∨ t = ['\r'] ∨ t = ['\n']

structure Bareword (name : Text) : Prop where
  ne_nil : name ≠ []
  plain : ∀ c ∈ name, isBlank c = false ∧ Text.stopsWord c = false
  noComment : Text.occursIn ['/', '/'] name = false

variable {t u comment name newline : Text} {ss ss' : List Symbol} {c : Char}

theorem EndsWord.append (h : EndsWord t) (hne : t ≠ []) (u : Text) : EndsWord (t ++ u) := by
  cases t with
  | nil => contradiction
  | cons c t => exact h

theorem endsInTab_append (t : Text) (hne : u ≠ []) : endsInTab (t ++ u) = endsInTab u := by
  rw [endsInTab, endsInTab, List.getLast?_append, List.getLast?_eq_some_getLast hne]
  rfl

theorem endsInTab_cons (c : Char) (hne : t ≠ []) : endsInTab (c :: t) = endsInTab t :=
  endsInTab_append [c] hne

namespace Writes

theorem spells (h : Writes t ss) : Spells t (significant ss) where
  ne_nil := h.ne_nil
  lexed rest hrest := (h.scanned rest hrest).lexed

theorem append (h : Writes t ss) (hu : Writes u ss') (hends : endsInTab t = false → EndsWord u) :
    Writes (t ++ u) (ss ++ ss') where
  ne_nil := by simp [h.ne_nil]
  scanned rest hrest := by
    rw [endsInTab_append t hu.ne_nil] at hrest
    rw [List.append_assoc]
    exact (h.scanned (u ++ rest) fun htab => (hends htab).append hu.ne_nil rest).append
      (hu.scanned rest hrest)

theorem cons_space (hc : isSpace c) (h : Writes t ss) : Writes (c :: t) ss where
  ne_nil := by simp
  scanned rest hrest :=
    .space hc (h.scanned rest fun htab => hrest (by rwa [endsInTab_cons _ h.ne_nil]))

theorem operator {kind : Token.Kind} (hc : Token.Kind.operator? c = some kind) :
    Writes [c] [(kind, [c])] where
  ne_nil := by simp
  scanned _ _ := .token (Lexeme.first_of_operator hc) .nil

theorem cons_operator {kind : Token.Kind} (hc : Token.Kind.operator? c = some kind)
    (h : Writes t ss) : Writes (c :: t) ((kind, [c]) :: ss) where
  ne_nil := by simp
  scanned rest hrest :=
    .token (Lexeme.first_of_operator hc)
      (h.scanned rest fun htab => hrest (by rwa [endsInTab_cons _ h.ne_nil]))

end Writes

theorem spells_operator {kind : Token.Kind} (hc : Token.Kind.operator? c = some kind) :
    Spells [c] [(kind, [c])] := by
  have hsignificant : significant [(kind, [c])] = [(kind, [c])] := by
    unfold Token.Kind.operator? at hc
    split at hc <;> cases hc <;> rfl
  rw [← hsignificant]
  exact (Writes.operator hc).spells

theorem scanned_newline (h : IsNewline newline) {rest : Text}
    (hrest : newline = ['\r'] → rest.head? ≠ some '\n') :
    Scanned (newline ++ rest) [(.newline, newline)] rest := by
  obtain rfl | rfl | rfl := h
  · have hfirst : Lexeme.first '\r' ('\n' :: rest) = .token .newline ['\r', '\n'] 1 := rfl
    exact .token hfirst .nil
  · have hfirst : Lexeme.first '\r' rest = .token .newline ['\r'] 0 := by
      simp [Lexeme.first, hrest rfl, isLineEnd]
    exact .token hfirst .nil
  · have hfirst : Lexeme.first '\n' rest = .token .newline ['\n'] 0 := rfl
    exact .token hfirst .nil

theorem scanned_newline_tab (h : IsNewline newline) (rest : Text) :
    Scanned (newline ++ '\t' :: rest) [(.newline, newline)] rest := by
  rw [← List.append_nil [(Token.Kind.newline, newline)]]
  exact (scanned_newline h (by simp)).append (.space (by decide) .nil)

theorem writes_newline (h : IsNewline newline) :
    Writes (newline ++ ['\t']) [(.newline, newline)] where
  ne_nil := by simp
  scanned rest _ := by simpa using scanned_newline_tab h rest

structure OneLine (comment : Text) : Prop where
  noLineEnd : ∀ c ∈ comment, isLineEnd c = false
  noClose : Text.closesGroup comment = false

theorem leadingLine_append (ht : ∀ c ∈ t, isLineEnd c = false)
    (hu : ∀ c ∈ u.head?, isLineEnd c) : Text.leadingLine (t ++ u) = t := by
  rw [Text.leadingLine, List.takeWhile_append_of_pos (by simpa using ht)]
  cases u with
  | nil => simp
  | cons c u => simp [hu c rfl]

theorem first_comment (h : OneLine comment) (hu : ∀ c ∈ u.head?, isLineEnd c) :
    Lexeme.first '/' ('/' :: (comment ++ u)) =
      .token .comment ('/' :: '/' :: comment) (comment.length + 1) := by
  have hline : Text.leadingLine ('/' :: '/' :: (comment ++ u)) = '/' :: '/' :: comment := by
    refine leadingLine_append (t := '/' :: '/' :: comment) ?_ hu
    simpa [isLineEnd] using h.noLineEnd
  have hclose : Text.closesGroup ('/' :: '/' :: comment) = false := by
    simpa [Text.closesGroup, Text.occursIn, List.isPrefixOf] using h.noClose
  have hfirst : Lexeme.first '/' ('/' :: (comment ++ u)) =
      Lexeme.comment ('/' :: '/' :: (comment ++ u)) := rfl
  rw [hfirst, Lexeme.comment, hline, hclose]
  rfl

theorem IsNewline.ne_nil (h : IsNewline newline) : newline ≠ [] := by
  obtain rfl | rfl | rfl := h <;> simp

theorem IsNewline.isLineEnd (h : IsNewline newline) (u : Text) :
    ∀ c ∈ (newline ++ u).head?, isLineEnd c := by
  obtain rfl | rfl | rfl := h <;> simp [GrammarCheck.isLineEnd]

theorem scanned_comment (h : OneLine comment) (hu : ∀ c ∈ u.head?, isLineEnd c) :
    Scanned ('/' :: '/' :: comment ++ u) [(.comment, '/' :: '/' :: comment)] u := by
  have hmore : Scanned (('/' :: (comment ++ u)).drop (comment.length + 1)) [] u := by
    rw [List.drop_succ_cons, List.drop_left]
    exact .nil
  exact .token (first_comment h hu) hmore

theorem writes_comment (h : OneLine comment) (hnewline : IsNewline newline) :
    Writes ('/' :: '/' :: comment ++ (newline ++ ['\t']))
      [(.comment, '/' :: '/' :: comment), (.newline, newline)] where
  ne_nil := by simp
  scanned rest _ := by
    have hcomment := scanned_comment h (hnewline.isLineEnd ('\t' :: rest))
    simpa using hcomment.append (scanned_newline_tab hnewline rest)

namespace Quotation

theorem read_escaped (h : Text.isEscapable c) (rest : Text) :
    read ('\\' :: c :: rest) = (read rest).after 2 c := by
  rw [read, if_pos h]

theorem read_plain (hquote : c ≠ '\'') (hslash : c ≠ '\\') (hline : isLineEnd c = false)
    (rest : Text) : read (c :: rest) = (read rest).after 1 c := by
  rw [read]
  · simp [hline, hslash]
  · exact hquote
  · intro _ _ h
    exact absurd h hslash

theorem read_escapeTerminal (ht : ∀ c ∈ t, isLineEnd c = false) (rest : Text) :
    read (Text.escapeTerminal t ++ '\'' :: rest) =
      ⟨t, (Text.escapeTerminal t).length + 1, none⟩ := by
  induction t with
  | nil => rfl
  | cons c t ih =>
    have hread := ih fun d hd => ht d (List.mem_cons_of_mem _ hd)
    by_cases hc : c = '\\' ∨ c = '\''
    · have hcons : Text.escapeTerminal (c :: t) = '\\' :: c :: Text.escapeTerminal t := by
        simp [Text.escapeTerminal, hc]
      have hescapable : Text.isEscapable c := by
        obtain rfl | rfl := hc <;> rfl
      rw [hcons, List.cons_append, List.cons_append, read_escaped hescapable, hread]
      simp only [after, List.length_cons, mk.injEq, true_and, and_true]
      omega
    · have hcons : Text.escapeTerminal (c :: t) = c :: Text.escapeTerminal t := by
        simp [Text.escapeTerminal, hc]
      obtain ⟨hslash, hquote⟩ := not_or.1 hc
      rw [hcons, List.cons_append, read_plain hquote hslash (ht c List.mem_cons_self), hread]
      simp only [after, List.length_cons, mk.injEq, true_and, and_true]
      omega

end Quotation

namespace Lexeme

theorem terminal_escapeTerminal (ht : ∀ c ∈ t, isLineEnd c = false) (rest : Text) :
    terminal (t.escapeTerminal ++ '\'' :: rest) =
      .token .terminal t (t.escapeTerminal.length + 1) := by
  rw [terminal, Quotation.read_escapeTerminal ht]

theorem first_quoted (ht : ∀ c ∈ t, isLineEnd c = false) (rest : Text) :
    first '\'' (t.escapeTerminal ++ '\'' :: rest) =
      .token .terminal t (t.escapeTerminal.length + 1) :=
  terminal_escapeTerminal ht rest

end Lexeme

theorem Text.drop_escapeTerminal (t rest : Text) :
    (t.escapeTerminal ++ '\'' :: rest).drop (t.escapeTerminal.length + 1) = rest := by
  rw [← List.drop_drop, List.drop_left]
  rfl

theorem writes_quoted (ht : ∀ c ∈ t, isLineEnd c = false) :
    Writes ('\'' :: Text.escapeTerminal t ++ ['\'']) [(.terminal, t)] where
  ne_nil := by simp
  scanned rest _ := by
    have hmore : Scanned ((t.escapeTerminal ++ '\'' :: rest).drop (t.escapeTerminal.length + 1)) []
        rest := by
      rw [Text.drop_escapeTerminal]
      exact .nil
    simpa using Scanned.token (Lexeme.first_quoted ht rest) hmore

/-- No comment opens within a word that holds none, nor across its end. -/
theorem opensComment_bareword (h : Text.occursIn ['/', '/'] (c :: name) = false) {rest : Text}
    (hrest : EndsWord rest) : Text.opensComment (c :: (name ++ rest)) = false := by
  by_cases hc : c = '/'
  · subst hc
    cases name with
    | nil =>
      cases rest with
      | nil => rfl
      | cons d rest =>
        have hd : d ≠ '/' := by
          rintro rfl
          obtain hd | hd := hrest _ rfl <;> cases hd
        simp [Text.opensComment, hd]
    | cons d name =>
      have hd : d ≠ '/' := by
        rintro rfl
        simp [Text.occursIn, List.isPrefixOf] at h
      simp [Text.opensComment, hd]
  · exact Lexeme.opensComment_cons_of_ne hc

theorem leadingWord_bareword (hplain : ∀ c ∈ name, isBlank c = false ∧ Text.stopsWord c = false)
    (hcomment : Text.occursIn ['/', '/'] name = false) {rest : Text} (hrest : EndsWord rest) :
    Text.leadingWord (name ++ rest) = name := by
  induction name with
  | nil =>
    cases rest with
    | nil => rfl
    | cons c rest =>
      obtain hc | hc := hrest c rfl <;> simp [Text.leadingWord, hc]
  | cons c name ih =>
    obtain ⟨hblank, hstop⟩ := hplain c List.mem_cons_self
    have hopens := opensComment_bareword hcomment hrest
    have htail : Text.occursIn ['/', '/'] name = false := by
      rw [Text.occursIn, Bool.or_eq_false_iff] at hcomment
      exact hcomment.2
    rw [List.cons_append, Text.leadingWord, hblank, hstop, hopens,
      ih (fun d hd => hplain d (List.mem_cons_of_mem _ hd)) htail]
    rfl

theorem Lexeme.first_of_word (hblank : isBlank c = false) (hstop : Text.stopsWord c = false)
    (hopens : Text.opensComment (c :: t) = false) :
    first c t =
      .token .word (Text.leadingWord (c :: t)) ((Text.leadingWord (c :: t)).length - 1) := by
  have hne : ∀ d, Text.stopsWord d = true → c ≠ d := by
    rintro d hd rfl
    rw [hstop] at hd
    cases hd
  have hoperator : Token.Kind.operator? c = none := by
    unfold Token.Kind.operator?
    split <;> first | exact absurd rfl (hne _ (by decide)) | rfl
  have hline : isLineEnd c = false :=
    Bool.eq_false_iff.2 fun hline => by rw [isBlank_of_isLineEnd hline] at hblank; cases hblank
  have hword : (Text.leadingWord (c :: t)).isEmpty = false := by
    rw [Text.leadingWord, hblank, hstop, hopens]
    rfl
  simp [first, hne '\r' (by decide), hne '\'' (by decide), hline, hoperator, hopens, hword]

theorem endsInTab_of_plain (h : ∀ c ∈ t, isBlank c = false) : endsInTab t = false := by
  apply Bool.eq_false_iff.2
  intro htab
  have hblank := h '\t' (List.mem_of_getLast? (by simpa [endsInTab] using htab))
  cases hblank

theorem bareword_singleton (hblank : isBlank c = false) (hstops : Text.stopsWord c = false) :
    Bareword [c] where
  ne_nil := by simp
  plain := List.forall_mem_singleton.2 ⟨hblank, hstops⟩
  noComment := by simp [Text.occursIn, List.isPrefixOf]

theorem writes_bareword (h : Bareword name) : Writes name [(.word, name)] where
  ne_nil := h.ne_nil
  scanned rest hrest := by
    obtain ⟨hne, hplain, hcomment⟩ := h
    cases name with
    | nil => contradiction
    | cons c name =>
      obtain ⟨hblank, hstop⟩ := hplain c List.mem_cons_self
      have hends := hrest (endsInTab_of_plain fun d hd => (hplain d hd).1)
      have hfirst := Lexeme.first_of_word hblank hstop (opensComment_bareword hcomment hends)
      have hword : Text.leadingWord (c :: (name ++ rest)) = c :: name :=
        leadingWord_bareword hplain hcomment hends
      rw [hword, List.length_cons, Nat.add_sub_cancel] at hfirst
      have hmore : Scanned ((name ++ rest).drop name.length) [] rest := by
        rw [List.drop_left]
        exact .nil
      exact .token hfirst hmore

end GrammarCheck
