import GrammarCheck.Notation.Lexer
import GrammarCheck.Proofs.Notation.Places
import GrammarCheck.Text.LineCache

namespace GrammarCheck

variable {t : Text} {n : Nat}

namespace LineCache

variable {cache : LineCache}

theorem Sound.step (h : cache.Sound) (call : Call) : (cache.step call).2.Sound := by
  cases call with
  | get name t => exact (get_sound h name t).2
  | clear => exact sound_empty

theorem Sound.run (h : cache.Sound) (calls : List Call) : (cache.run calls).2.Sound := by
  induction calls generalizing cache with
  | nil => exact h
  | cons call calls ih => exact ih (h.step call)

/-- What was asked of the index before never shows. -/
theorem lineCol_run (calls : List Call) (name t : Text) (offset : Int) :
    ((empty.run calls).2.lineCol name t offset).1 = t.lineCol offset :=
  lineCol_eq (sound_empty.run calls) name t offset

end LineCache

namespace Cursor

variable {a : Cursor}

theorem skip_of_nil (h : a.unread = []) (n : Nat) : a.skip n = a := by
  have hnext : a.next = a := by
    obtain ⟨unread, p⟩ := a
    obtain rfl : unread = [] := h
    rfl
  induction n with
  | zero => rfl
  | succ n ih => rw [skip, hnext, ih]

theorem At.exists_skip (h : a.At n t) (m : Nat) : ∃ k, n ≤ k ∧ (a.skip m).At k t := by
  by_cases hm : m ≤ a.unread.length
  · exact ⟨n + m, Nat.le_add_right n m, h.skip hm⟩
  · have hend : (a.skip a.unread.length).unread = [] := by rw [unread_skip, List.drop_length]
    obtain ⟨r, rfl⟩ := Nat.exists_eq_add_of_le (Nat.le_of_not_le hm)
    rw [skip_add, skip_of_nil hend]
    exact ⟨n + a.unread.length, Nat.le_add_right _ _, h.skip (Nat.le_refl _)⟩

theorem exists_stop_readOn (a : Cursor) : ∃ n, a.readOn.stop = a.skip n := by
  fun_induction readOn a with
  | case1 => exact ⟨0, rfl⟩
  | case2 a ch rest hcons fault n => exact ⟨n, rfl⟩
  | case3 a ch rest hcons kind value extra hfirst after reading ih =>
    obtain ⟨n, hn⟩ := ih
    refine ⟨extra + 1 + (after.unread.leadingSpace.length + n), ?_⟩
    rw [skip_add, skip_add]
    exact hn

theorem exists_stop_readAll (a : Cursor) : ∃ n, a.readAll.stop = a.skip n := by
  obtain ⟨n, hn⟩ := exists_stop_readOn (a.skip (a.unread.takeWhile isBlank).length)
  refine ⟨(a.unread.takeWhile isBlank).length + n, ?_⟩
  rw [skip_add]
  exact hn

end Cursor

namespace Lexer

variable {l : Lexer}

structure At (n : Nat) (t : Text) (l : Lexer) : Prop where
  text : l.text = t
  cursor : l.cursor.At n t

theorem at_start (source t : Text) : (start source t).At 0 t := ⟨rfl, rfl, Nat.zero_le _⟩

theorem At.offset_eq (h : l.At n t) : l.offset = n := by
  have hle := h.cursor.le
  rw [offset, size, h.text, h.cursor.unread, List.length_drop]
  omega

theorem exists_skip_step (l : Lexer) (call : Call) :
    (l.step call).2.text = l.text ∧ ∃ m, (l.step call).2.cursor = l.cursor.skip m := by
  have hanswer : ∀ x : Lexeme, (l.answer x).2.text = l.text ∧
      ∃ m, (l.answer x).2.cursor = l.cursor.skip m := by
    intro x
    cases x with
    | token kind value extra => exact ⟨rfl, extra + 1, rfl⟩
    | fault reason n => exact ⟨rfl, n, rfl⟩
  cases call with
  | currentChar | peekChar | atComment | sourceLine => exact ⟨rfl, 0, rfl⟩
  | advance => exact ⟨rfl, 1, rfl⟩
  | readWord | readWhitespace => exact ⟨rfl, _, rfl⟩
  | readTerminal => exact hanswer _
  | readComment =>
    rw [step, readComment]
    split
    · exact ⟨rfl, 0, rfl⟩
    · exact hanswer _
  | tokenize =>
    rw [step, tokenize]
    dsimp only
    split
    · exact ⟨rfl, l.cursor.exists_stop_readAll⟩
    · exact ⟨rfl, l.cursor.exists_stop_readAll⟩

theorem At.step (h : l.At n t) (call : Call) : ∃ k, n ≤ k ∧ (l.step call).2.At k t := by
  obtain ⟨htext, m, hcursor⟩ := l.exists_skip_step call
  obtain ⟨k, hle, hat⟩ := h.cursor.exists_skip m
  refine ⟨k, hle, htext.trans h.text, ?_⟩
  rwa [hcursor]

structure InPlace (t : Text) (l : Lexer) : Prop where
  within : l.offset ≤ t.trimRight.length
  unread : l.cursor.unread = t.trimRight.drop l.offset
  place (calls : List LineCache.Call) (name : Text) :
    l.cursor.position.coordinates = ((LineCache.empty.run calls).2.lineCol name t l.offset).1

theorem At.inPlace (h : l.At n t) : l.InPlace t where
  within := by rw [h.offset_eq]; exact h.cursor.le
  unread := by rw [h.offset_eq, h.cursor.unread]
  place calls name := by rw [LineCache.lineCol_run, h.offset_eq, h.cursor.place]

theorem At.run (h : l.At n t) (calls : List Call) :
    (l :: (l.run calls).map Prod.snd).IsChain (·.offset ≤ ·.offset) ∧
      ∀ m ∈ l :: (l.run calls).map Prod.snd, m.InPlace t := by
  induction calls generalizing l n with
  | nil => exact ⟨.singleton l, List.forall_mem_singleton.2 h.inPlace⟩
  | cons call calls ih =>
    obtain ⟨k, hle, hstep⟩ := h.step call
    obtain ⟨hchain, hplaces⟩ := ih hstep
    refine ⟨.cons_cons ?_ hchain, List.forall_mem_cons.2 ⟨h.inPlace, hplaces⟩⟩
    rwa [h.offset_eq, hstep.offset_eq]

/-- Over any series of calls, also such as fail, a lexer never goes back, stands within its text and
agrees with the index of line starts on its line and column. -/
theorem run_inPlace (source t : Text) (calls : List Call) :
    let states := start source t :: ((start source t).run calls).map Prod.snd
    states.IsChain (·.offset ≤ ·.offset) ∧ ∀ l ∈ states, l.InPlace t :=
  (at_start source t).run calls

end Lexer

end GrammarCheck
