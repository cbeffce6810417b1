import GrammarCheck.Proofs.Notation.Sessions

namespace GrammarCheck

variable {t u rest rest' : Text}

namespace Text

def substitute (t : Text) (c : Char) (replacement : Text) : Text :=
  t.flatMap fun d => if d = c then replacement else [d]

/-- Backslashes are escaped first, so those that are written to escape quotes stay single. -/
theorem escapeTerminal_eq_substitute (t : Text) :
    t.escapeTerminal = (t.substitute '\\' ['\\', '\\']).substitute '\'' ['\\', '\''] := by
  rw [escapeTerminal, substitute, substitute, List.flatMap_assoc]
  refine List.flatMap_congr fun c _ => ?_
  by_cases hslash : c = '\\'
  · simp [hslash]
  · by_cases hquote : c = '\'' <;> simp [hslash, hquote]

theorem escapeTerminal_inj (ht : ∀ c ∈ t, isLineEnd c = false) (hu : ∀ c ∈ u, isLineEnd c = false)
    (h : t.escapeTerminal ++ '\'' :: rest = u.escapeTerminal ++ '\'' :: rest') :
    t = u ∧ rest = rest' := by
  have hread := congrArg Quotation.read h
  rw [Quotation.read_escapeTerminal ht, Quotation.read_escapeTerminal hu] at hread
  obtain rfl : t = u := congrArg Quotation.value hread
  exact ⟨rfl, (List.cons.inj (List.append_cancel_left h)).2⟩

theorem trimRight_quoted (t rest : Text) :
    trimRight ('\'' :: (t.escapeTerminal ++ '\'' :: rest)) =
      '\'' :: (t.escapeTerminal ++ '\'' :: trimRight rest) :=
  trimRight_append_cons (by decide) ('\'' :: t.escapeTerminal) rest

end Text

namespace Lexer

theorem readTerminal_quoted {l : Lexer} (ht : ∀ c ∈ t, isLineEnd c = false)
    (hl : l.cursor.unread = '\'' :: (t.escapeTerminal ++ '\'' :: rest)) :
    ∃ l', l.readTerminal = (.text t, l') ∧ l' = l.moved (t.escapeTerminal.length + 2) ∧
      l'.cursor.unread = rest := by
  refine ⟨_, ?_, rfl, ?_⟩
  · rw [readTerminal, hl, List.drop_succ_cons, List.drop_zero, Lexeme.terminal_escapeTerminal ht]
    rfl
  · rw [moved, Cursor.unread_skip, hl, List.drop_succ_cons, Text.drop_escapeTerminal]

/-- A text of one line is read back from its escaped form between quotes, and what follows is left
unread. So no other text is escaped like this one, nor is another one read where more follows. -/
theorem readTerminal_escapeTerminal (ht : ∀ c ∈ t, isLineEnd c = false) (source rest : Text) :
    t.escapeTerminal = (t.substitute '\\' ['\\', '\\']).substitute '\'' ['\\', '\''] ∧
    (∃ l, (start source ('\'' :: (t.escapeTerminal ++ '\'' :: rest))).readTerminal = (.text t, l) ∧
      l.offset = t.escapeTerminal.length + 2 ∧ l.cursor.unread = rest.trimRight) ∧
    ∀ u : Text, (∀ c ∈ u, isLineEnd c = false) →
      (t.escapeTerminal = u.escapeTerminal → t = u) ∧
      ∀ rest', t.escapeTerminal ++ '\'' :: rest = u.escapeTerminal ++ '\'' :: rest' →
        t = u ∧ rest = rest' := by
  refine ⟨t.escapeTerminal_eq_substitute, ?_, fun u hu => ⟨fun h => ?_, fun rest' => ?_⟩⟩
  · have htrim := t.trimRight_quoted rest
    have hstart := at_start source ('\'' :: (t.escapeTerminal ++ '\'' :: rest))
    obtain ⟨l, hread, rfl, hunread⟩ := readTerminal_quoted ht (hstart.cursor.unread.trans htrim)
    have hmoved := hstart.cursor.skip (m := t.escapeTerminal.length + 2) (by
      rw [hstart.cursor.unread, htrim]
      simp)
    rw [Nat.zero_add] at hmoved
    exact ⟨_, hread, At.offset_eq ⟨rfl, hmoved⟩, hunread⟩
  · obtain ⟨rfl, -⟩ := Text.escapeTerminal_inj ht hu (congrArg (· ++ ['\'']) h)
    rfl
  · exact Text.escapeTerminal_inj ht hu

/-- A double quote is not escaped, and what is escaped may stand right before the closing quote. -/
theorem readTerminal_escapeTerminal_slash :
    (∀ c ∈ "\"it's\\".toList, isLineEnd c = false) ∧
      ∃ l, (start [] "'\"it\\'s\\\\'s: '".toList).readTerminal = (.text "\"it's\\".toList, l) ∧
        l.offset = 10 := by
  have ht : ∀ c ∈ "\"it's\\".toList, isLineEnd c = false := by simp [isLineEnd]
  obtain ⟨-, ⟨l, hread, hoffset, -⟩, -⟩ := readTerminal_escapeTerminal ht [] "s: '".toList
  exact ⟨ht, l, hread, hoffset⟩

end Lexer

end GrammarCheck
