import GrammarCheck.Proofs.Notation.Tokenized

namespace GrammarCheck

variable {b c : Char} {t u : Text}

namespace Text

theorem opensComment_append (hu : EndsWord u) (c : Char) (t : Text) :
    opensComment (c :: (t ++ u)) = opensComment (c :: t) := by
  have hhead : (t ++ u).head? = some '/' ↔ t.head? = some '/' := by
    cases t with
    | nil =>
      refine iff_of_false (fun hslash => ?_) nofun
      obtain hblank | hstops := hu '/' hslash
      · cases hblank
      · cases hstops
    | cons => rfl
  rw [Bool.eq_iff_iff, opensComment_cons_iff, opensComment_cons_iff, hhead]

theorem leadingWord_append (hu : EndsWord u) (t : Text) : leadingWord (t ++ u) = leadingWord t := by
  induction t with
  | nil =>
    cases u with
    | nil => rfl
    | cons c u => obtain hc | hc := hu c rfl <;> simp [leadingWord, hc]
  | cons c t ih => rw [List.cons_append, leadingWord, leadingWord, opensComment_append hu, ih]

theorem occursIn_pair_concat {d e : Char} (hb : b ≠ e) (t : Text) :
    occursIn [d, e] (t ++ [b]) = occursIn [d, e] t := by
  induction t with
  | nil => simp [occursIn_pair_cons, occursIn]
  | cons c t ih =>
    rw [List.cons_append, occursIn_pair_cons, occursIn_pair_cons, ih]
    cases t with
    | nil => simp [hb]
    | cons => rfl

end Text

namespace Quotation

theorem read_lineEnd (hc : isLineEnd c) (t : Text) :
    read (c :: t) = ⟨[], 0, some .multilineTerminal⟩ := by
  have hquote : c ≠ '\'' := by
    rintro rfl
    cases hc
  have hbackslash : c ≠ '\\' := by
    rintro rfl
    cases hc
  rw [read, if_pos hc]
  · exact hquote
  · exact fun _ _ h => absurd h hbackslash

theorem fault_concat (hb : isBlank b) (h : (read t).fault ≠ none) :
    (read (t ++ [b])).fault ≠ none := by
  have hne : ∀ d, isBlank d = false → b ≠ d := by
    rintro d hd rfl
    rw [hb] at hd
    cases hd
  have hbackslash : b ≠ '\\' := hne _ (by decide)
  have hescapable : ¬ Text.isEscapable b := by
    simp [Text.isEscapable, hbackslash, hne '\'' (by decide), hne '"' (by decide)]
  fun_induction read t with
  | case1 =>
    by_cases hline : isLineEnd b
    · simp [read_lineEnd hline]
    · rw [List.nil_append, read_plain (hne _ (by decide)) hbackslash (by simpa using hline)]
      simp [read, after]
  | case2 => exact absurd rfl h
  | case3 c rest hc ih =>
    rw [List.cons_append, List.cons_append, read_escaped hc]
    exact ih h
  | case4 c rest hc =>
    rw [List.cons_append, List.cons_append, read, if_neg hc]
    exact h
  | case5 c rest _ _ hline =>
    rw [List.cons_append, read_lineEnd hline]
    exact h
  | case6 c rest _ hmore _ hslash =>
    obtain rfl : c = '\\' := by simpa using hslash
    cases rest with
    | nil =>
      rw [List.cons_append, List.nil_append, read, if_neg hescapable]
      exact h
    | cons d rest => exact (hmore d rest rfl rfl).elim
  | case7 c rest hquote _ hline hslash ih =>
    rw [List.cons_append, read_plain hquote (by simpa using hslash) (by simpa using hline)]
    exact ih h

end Quotation

namespace Lexeme

inductive Concat : Lexeme → Nat → Lexeme → Prop
  | same {kind : Token.Kind} {value : Text} {extra size : Nat} (inside : extra ≤ size) :
    Concat (.token kind value extra) size (.token kind value extra)
  | comment {value value' : Text} {size : Nat} :
    Concat (.token .comment value size) size (.token .comment value' (size + 1))
  | newline {value value' : Text} {size : Nat} :
    Concat (.token .newline value size) size (.token .newline value' (size + 1))
  | fault {reason reason' : Fault} {n n' size : Nat} : Concat (.fault reason n) size (.fault reason' n')

theorem comment_concat (hb : isBlank b) (c : Char) (t : Text) :
    Concat (comment (c :: t)) t.length (comment (c :: (t ++ [b]))) := by
  have hclose : Text.closesGroup (c :: (t ++ [b])) = Text.closesGroup (c :: t) := by
    refine Text.occursIn_pair_concat ?_ (c :: t)
    rintro rfl
    cases hb
  have hsplit : Text.leadingLine (c :: t ++ [b]) =
      if (Text.leadingLine (c :: t)).length = (c :: t).length then c :: t ++ Text.leadingLine [b]
      else Text.leadingLine (c :: t) :=
    List.takeWhile_append
  have hshort := (Text.leadingLine_prefix (c :: t)).length_le
  rw [comment, comment, ← List.cons_append, hsplit]
  by_cases hlength : (Text.leadingLine (c :: t)).length = (c :: t).length
  · rw [if_pos hlength, (Text.leadingLine_prefix (c :: t)).eq_of_length hlength]
    cases hline : isLineEnd b with
    | true =>
      have hnone : Text.leadingLine [b] = [] := by simp [Text.leadingLine, hline]
      rw [hnone, List.append_nil]
      split
      · exact .fault
      · exact .same (by simp)
    | false =>
      have hone : Text.leadingLine [b] = [b] := by simp [Text.leadingLine, hline]
      rw [hone, List.cons_append, hclose]
      split
      · exact .fault
      · have hlonger : Concat (.token .comment (c :: t) t.length) t.length
            (.token .comment (c :: (t ++ [b])) (t.length + 1)) := .comment
        simpa using hlonger
  · rw [if_neg hlength]
    split
    · exact .fault
    · refine .same ?_
      rw [List.length_cons] at hshort
      omega

theorem terminal_concat (hb : isBlank b) (t : Text) :
    Concat (terminal t) t.length (terminal (t ++ [b])) := by
  unfold terminal
  dsimp only
  cases hfault : (Quotation.read t).fault with
  | none =>
    rw [Quotation.read_append hfault, hfault]
    obtain ⟨-, -, -, hsize⟩ := Quotation.exists_body hfault
    exact .same hsize
  | some reason =>
    have hne := Quotation.fault_concat hb (t := t) (by simp [hfault])
    obtain ⟨reason', hfault'⟩ := Option.ne_none_iff_exists'.1 hne
    rw [hfault']
    exact .fault

theorem first_lineEnd (hc : isLineEnd c) (t : Text) :
    first c t = if c == '\r' && t.head? == some '\n' then .token .newline ['\r', '\n'] 1
      else .token .newline [c] 0 := by
  rw [first, if_pos hc]

theorem newline_concat (hc : isLineEnd c) (b : Char) (t : Text) :
    Concat (first c t) t.length (first c (t ++ [b])) := by
  rw [first_lineEnd hc, first_lineEnd hc]
  cases t with
  | nil =>
    have hnone : (c == '\r' && ([] : Text).head? == some '\n') = false := Bool.and_false _
    rw [hnone, if_neg Bool.false_ne_true]
    split
    · exact .newline
    · exact .same (Nat.zero_le _)
  | cons d t =>
    rw [List.cons_append, List.head?_cons, List.head?_cons]
    split <;> exact .same (by simp)

theorem first_concat (hb : isBlank b) (c : Char) (t : Text) :
    Concat (first c t) t.length (first c (t ++ [b])) := by
  have hends : EndsWord [b] := by
    rintro _ ⟨⟩
    exact .inl hb
  by_cases hline : isLineEnd c
  · exact newline_concat hline b t
  rw [Bool.not_eq_true] at hline
  have hreturn : (c == '\r') = false := by
    apply beq_false_of_ne
    rintro rfl
    cases hline
  have hword : Text.leadingWord (c :: (t ++ [b])) = Text.leadingWord (c :: t) :=
    Text.leadingWord_append hends (c :: t)
  have hshort := (Text.leadingWord_prefix (c :: t)).length_le
  simp only [first, hreturn, hline, Bool.false_and, Bool.false_eq_true, if_false,
    Text.opensComment_append hends, hword]
  split
  · exact .same (Nat.zero_le _)
  split
  · exact comment_concat hb c t
  split
  · exact terminal_concat hb t
  split
  · exact .fault
  · refine .same ?_
    rw [List.length_cons] at hshort
    omega

end Lexeme

end GrammarCheck
