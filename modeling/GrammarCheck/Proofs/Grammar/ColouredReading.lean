import GrammarCheck.Proofs.Grammar.ColouredLines
import GrammarCheck.Proofs.Grammar.ColouredSymbols

/-!
Coloured words are read as the symbols that they show unless two names run together. Where they do, a
name or a terminal is lost for good: a word is read that is longer, or what follows is read as a
comment.
-/

namespace GrammarCheck

variable {ms : List Mark} {ss ss' : List Symbol} {t u : Text}

namespace Mark

def isName : Mark → Bool
  | .word w => w.category == .production
  | .lineBreak => false

def Apart (m m' : Mark) : Prop := ¬ (m.isName ∧ m'.isName)

def joined (ms : List Mark) : Text := ms.flatMap (·.text ['\n'])

theorem head_joined_lineBreak (ms : List Mark) :
    ∀ c ∈ (joined (.lineBreak :: ms)).head?, isLineEnd c := by
  rintro _ ⟨⟩
  rfl

end Mark

open Mark

theorem Shown.endsWord (h : Shown ms ss) (hhead : ∀ m ∈ ms.head?, m.isName = false) :
    EndsWord (joined ms) := by
  cases h with
  | nil => exact nofun
  | name => cases hhead _ rfl
  | terminal =>
    rintro _ ⟨⟩
    exact .inr rfl
  | @plain text _ _ nonempty plain =>
    obtain ⟨c, text, rfl⟩ := List.exists_cons_of_ne_nil nonempty
    rintro _ ⟨⟩
    obtain hc | hc := isPlain_iff.1 (plain c List.mem_cons_self)
    · exact .inl (isSpace_iff.1 hc).1
    · exact .inr (Text.stopsWord_of_operator hc)
  | @comment blanks _ _ _ nonempty blank =>
    obtain ⟨c, blanks, rfl⟩ := List.exists_cons_of_ne_nil nonempty
    rintro _ ⟨⟩
    exact .inl (isSpace_iff.1 (blank c List.mem_cons_self)).1
  | lineBreak | remark =>
    rintro _ ⟨⟩
    exact .inl rfl

namespace HasGist

theorem lineBreak_iff : HasGist (joined (.lineBreak :: ms)) ss ↔ HasGist (joined ms) ss :=
  blank_iff (by decide)

theorem commentWord_iff (ht : ∀ c ∈ t, isSpace c) (hu : ∀ c ∈ u, isLineEnd c = false) :
    HasGist (joined (.word ⟨t ++ '/' :: '/' :: u, .comment⟩ :: .lineBreak :: ms)) ss ↔
      Mark.Sound (.word ⟨t ++ '/' :: '/' :: u, .comment⟩) ∧
        ∃ ss', ss = (.comment, []) :: ss' ∧ HasGist (joined (.lineBreak :: ms)) ss' := by
  have hsplit : joined (.word ⟨t ++ '/' :: '/' :: u, .comment⟩ :: .lineBreak :: ms) =
      t ++ ('/' :: '/' :: u ++ joined (.lineBreak :: ms)) := by
    simp [joined, Mark.text]
  have hsound : Mark.Sound (.word ⟨t ++ '/' :: '/' :: u, .comment⟩) ↔ Text.closesGroup u = false := by
    rw [Mark.Sound, closesGroup_comment t u ht]
    exact ⟨fun h => h rfl, fun h _ => h⟩
  rw [hsplit, append_iff_of_blank fun c hc => (isSpace_iff.1 (ht c hc)).1,
    comment_iff hu (head_joined_lineBreak ms), hsound]

end HasGist

theorem Shown.head_of_apart {m : Mark} (hm : m.isName) (hapart : (m :: ms).IsChain Apart) :
    ∀ m' ∈ ms.head?, m'.isName = false := by
  intro m' hm'
  rw [← Bool.not_eq_true]
  exact fun hname => (List.isChain_cons.1 hapart).1 m' hm' ⟨hm, hname⟩

/-- Marks whose names stand apart are read as what they show. -/
theorem Shown.hasGist (h : Shown ms ss) (hapart : ms.IsChain Apart) (hsound : ∀ m ∈ ms, m.Sound) :
    HasGist (joined ms) ss := by
  induction h with
  | nil => exact .nil
  | @name name ms ss bareword more ih =>
    obtain ⟨-, hsound⟩ := List.forall_mem_cons.1 hsound
    have hword := leadingWord_bareword bareword.plain bareword.noComment
      (more.endsWord (head_of_apart rfl hapart))
    exact (HasGist.word_iff hword bareword.ne_nil).2
      ⟨ss, rfl, ih (List.isChain_cons.1 hapart).2 hsound⟩
  | terminal oneLine more ih =>
    obtain ⟨-, hsound⟩ := List.forall_mem_cons.1 hsound
    exact (HasGist.terminal_iff oneLine).2 ⟨_, rfl, ih (List.isChain_cons.1 hapart).2 hsound⟩
  | plain nonempty plain more ih =>
    obtain ⟨-, hsound⟩ := List.forall_mem_cons.1 hsound
    exact (HasGist.plain_iff plain).2 ⟨_, rfl, ih (List.isChain_cons.1 hapart).2 hsound⟩
  | comment nonempty blank oneLine more ih =>
    obtain ⟨hcomment, hsound⟩ := List.forall_mem_cons.1 hsound
    exact (HasGist.commentWord_iff blank oneLine).2
      ⟨hcomment, _, rfl, ih (List.isChain_cons.1 hapart).2 hsound⟩
  | lineBreak more ih =>
    obtain ⟨-, hsound⟩ := List.forall_mem_cons.1 hsound
    exact HasGist.lineBreak_iff.2 (ih (List.isChain_cons.1 hapart).2 hsound)
  | remark oneLine more ih =>
    obtain ⟨-, hsound⟩ := List.forall_mem_cons.1 hsound
    obtain ⟨hcomment, hsound⟩ := List.forall_mem_cons.1 hsound
    have htail := (List.isChain_cons.1 (List.isChain_cons.1 hapart).2).2
    exact HasGist.lineBreak_iff.2 ((HasGist.commentWord_iff (t := []) nofun oneLine).2
      ⟨hcomment, _, rfl, ih htail hsound⟩)

/-- What marks are read as, at the start of a word, behind a name and behind the start of a comment,
has no more operands than they show. -/
structure Bounded (ms : List Mark) (shown : Nat) : Prop where
  fresh : ∀ {ss}, HasGist (joined ms) ss → operands ss ≤ shown
  behindName : ∀ {u ss}, Bareword u → HasGist (u ++ joined ms) ss → operands ss ≤ shown + 1
  behindComment : ∀ {u ss}, (∀ c ∈ u, isLineEnd c = false) →
    HasGist ('/' :: '/' :: u ++ joined ms) ss → operands ss ≤ shown

namespace Bounded

variable {n shown : Nat}

/-- In two names without a gap at least one of them is lost. -/
theorem behindNames (h : Bounded ms n) (ht : Bareword t) (hu : Bareword u)
    (hgist : HasGist (t ++ (u ++ joined ms)) ss) : operands ss ≤ n + 1 := by
  have hplain : ∀ c ∈ t ++ u, isBlank c = false ∧ Text.stopsWord c = false :=
    List.forall_mem_append.2 ⟨ht.plain, hu.plain⟩
  rw [← List.append_assoc] at hgist
  cases hopens : Text.occursIn ['/', '/'] (t ++ u) with
  | false => exact h.behindName ⟨by simp [ht.ne_nil], hplain, hopens⟩ hgist
  | true =>
    obtain ⟨word, comment, hsplit, hword⟩ := Text.exists_comment hopens
    rw [hsplit] at hgist hplain
    obtain ⟨hplain, hcomment⟩ := List.forall_mem_append.1 hplain
    have hline : ∀ c ∈ comment, isLineEnd c = false := fun c hc =>
      not_isLineEnd_of_plain (hcomment c (List.mem_cons_of_mem _ (List.mem_cons_of_mem _ hc))).1
    rw [List.append_assoc] at hgist
    cases word with
    | nil => exact (h.behindComment hline hgist).trans (Nat.le_succ _)
    | cons c word =>
      have hleading := Text.leadingWord_of_comment hplain hword (comment ++ joined ms)
      obtain ⟨_, rfl, hmore⟩ := (HasGist.word_iff hleading (List.cons_ne_nil c word)).1 hgist
      rw [operands_cons_of_operand rfl]
      exact Nat.succ_le_succ (h.behindComment hline hmore)

theorem inComment (h : Bounded ms n) (ht : ∀ c ∈ t, isLineEnd c = false)
    (hu : ∀ c ∈ u, isLineEnd c = false) (hgist : HasGist ('/' :: '/' :: u ++ (t ++ joined ms)) ss) :
    operands ss ≤ n := by
  rw [← List.append_assoc] at hgist
  exact h.behindComment (List.forall_mem_append.2 ⟨hu, ht⟩) hgist

section Fresh

variable (hfresh : ∀ {ss}, HasGist (joined ms) ss → operands ss ≤ shown)

include hfresh

theorem endsName (hends : EndsWord (joined ms)) (hu : Bareword u)
    (hgist : HasGist (u ++ joined ms) ss) : operands ss ≤ shown + 1 := by
  have hleading := leadingWord_bareword hu.plain hu.noComment hends
  obtain ⟨_, rfl, hmore⟩ := (HasGist.word_iff hleading hu.ne_nil).1 hgist
  rw [operands_cons_of_operand rfl]
  exact Nat.succ_le_succ (hfresh hmore)

theorem of_lineEnd (hends : ∀ c ∈ (joined ms).head?, isLineEnd c) : Bounded ms shown where
  fresh := hfresh
  behindName := endsName hfresh fun c hc => .inl (isBlank_of_isLineEnd (hends c hc))
  behindComment := by
    intro u ss hu hgist
    obtain ⟨-, _, rfl, hmore⟩ := (HasGist.comment_iff hu hends).1 hgist
    rw [operands_cons_of_mark rfl]
    exact hfresh hmore

end Fresh

theorem of_word {w : ColouredWord} (h : Bounded ms n) (hle : n ≤ shown)
    (hline : ∀ c ∈ w.text, isLineEnd c = false) (hends : EndsWord (joined (.word w :: ms)))
    (hfresh : ∀ {ss}, HasGist (joined (.word w :: ms)) ss → operands ss ≤ shown) :
    Bounded (.word w :: ms) shown where
  fresh := hfresh
  behindName := endsName hfresh hends
  behindComment := fun hu hgist => (h.inComment hline hu hgist).trans hle

end Bounded

theorem noLineEnd_of_plain (ht : ∀ c ∈ t, isPlain c) :
    ∀ c ∈ t, isLineEnd c = false := by
  intro c hc
  obtain hc | hc := isPlain_iff.1 (ht c hc)
  · exact (isSpace_iff.1 hc).2
  · exact not_isLineEnd_of_plain (Lexeme.not_isBlank_of_operator hc)

theorem noLineEnd_terminal (ht : ∀ c ∈ t, isLineEnd c = false) :
    ∀ c ∈ '\'' :: t.escapeTerminal ++ ['\''], isLineEnd c = false := by
  have hescape := Leaf.noLineEnd_escapeTerminal ht
  exact List.forall_mem_append.2
    ⟨List.forall_mem_cons.2 ⟨rfl, hescape⟩, List.forall_mem_singleton.2 rfl⟩

theorem noLineEnd_comment (ht : ∀ c ∈ t, isSpace c) (hu : ∀ c ∈ u, isLineEnd c = false) :
    ∀ c ∈ t ++ '/' :: '/' :: u, isLineEnd c = false := by
  refine List.forall_mem_append.2 ⟨fun c hc => (isSpace_iff.1 (ht c hc)).2, ?_⟩
  exact List.forall_mem_cons.2 ⟨rfl, List.forall_mem_cons.2 ⟨rfl, hu⟩⟩

theorem Shown.bounded (h : Shown ms ss) : Bounded ms (operands ss) := by
  -- a name is read as far as the words behind it let it, so all three bounds go through at once
  induction h with
  | nil =>
    refine .of_lineEnd (fun hgist => ?_) nofun
    rw [HasGist.nil_iff.1 hgist]
  | name bareword more ih =>
    rw [operands_cons_of_operand rfl]
    have hname := fun c hc => not_isLineEnd_of_plain (bareword.plain c hc).1
    exact {
      fresh := ih.behindName bareword
      behindName := fun hu hgist => (ih.behindNames hu bareword hgist).trans (Nat.le_succ _)
      behindComment := fun hu hgist => (ih.inComment hname hu hgist).trans (Nat.le_succ _) }
  | terminal oneLine more ih =>
    have hends := (Shown.terminal oneLine more).endsWord (by rintro _ ⟨⟩; rfl)
    rw [operands_cons_of_operand rfl]
    refine .of_word ih (Nat.le_succ _) (noLineEnd_terminal oneLine) hends fun hgist => ?_
    obtain ⟨_, rfl, hmore⟩ := (HasGist.terminal_iff oneLine).1 hgist
    rw [operands_cons_of_operand rfl]
    exact Nat.succ_le_succ (ih.fresh hmore)
  | plain nonempty plain more ih =>
    have hends := (Shown.plain nonempty plain more).endsWord (by rintro _ ⟨⟩; rfl)
    rw [operands_append]
    refine .of_word ih (Nat.le_add_left ..) (noLineEnd_of_plain plain) hends fun hgist => ?_
    obtain ⟨_, rfl, hmore⟩ := (HasGist.plain_iff plain).1 hgist
    rw [operands_append]
    exact Nat.add_le_add_left (ih.fresh hmore) _
  | comment nonempty blank oneLine more ih =>
    have hword := (Shown.comment nonempty blank oneLine more).endsWord (by rintro _ ⟨⟩; rfl)
    rw [operands_cons_of_mark rfl]
    refine .of_word ih (Nat.le_refl _) (noLineEnd_comment blank oneLine) hword fun hgist => ?_
    obtain ⟨-, _, rfl, hmore⟩ := (HasGist.commentWord_iff blank oneLine).1 hgist
    rw [operands_cons_of_mark rfl]
    exact ih.fresh hmore
  | lineBreak more ih =>
    exact .of_lineEnd (fun hgist => ih.fresh (HasGist.lineBreak_iff.1 hgist)) (head_joined_lineBreak _)
  | remark oneLine more ih =>
    rw [operands_cons_of_mark rfl]
    refine .of_lineEnd (fun hgist => ?_) (head_joined_lineBreak _)
    obtain ⟨-, _, rfl, hmore⟩ :=
      (HasGist.commentWord_iff (t := []) nofun oneLine).1 (HasGist.lineBreak_iff.1 hgist)
    rw [operands_cons_of_mark rfl]
    exact ih.fresh hmore

theorem Mark.isChain_apart_cons {m : Mark} (hm : m.isName = false) :
    (m :: ms).IsChain Apart ↔ ms.IsChain Apart := by
  rw [List.isChain_cons, and_iff_right]
  intro m' _ hnames
  rw [hm] at hnames
  cases hnames.1

theorem Shown.apart_and_sound (h : Shown ms ss) (hgist : HasGist (joined ms) ss')
    (hsize : operands ss ≤ operands ss') : ms.IsChain Apart ∧ ∀ m ∈ ms, m.Sound := by
  induction h generalizing ss' with
  | nil => exact ⟨.nil, nofun⟩
  | @name name ms ss bareword more ih =>
    -- with a second name right behind it one of the two would be lost
    have hnames : ∀ m ∈ ms.head?, m.isName = false := by
      intro m hm
      cases more with
      | name bareword' more =>
        have hlost := more.bounded.behindNames bareword bareword' hgist
        rw [operands_cons_of_operand rfl, operands_cons_of_operand rfl] at hsize
        omega
      | nil => cases hm
      | terminal | plain | comment | lineBreak | remark =>
        cases hm
        rfl
    have hword := leadingWord_bareword bareword.plain bareword.noComment (more.endsWord hnames)
    obtain ⟨_, rfl, hmore⟩ := (HasGist.word_iff hword bareword.ne_nil).1 hgist
    rw [operands_cons_of_operand rfl, operands_cons_of_operand rfl] at hsize
    obtain ⟨hapart, hsound⟩ := ih hmore (Nat.le_of_succ_le_succ hsize)
    refine ⟨List.isChain_cons.2 ⟨fun m hm hnot => ?_, hapart⟩, List.forall_mem_cons.2 ⟨nofun, hsound⟩⟩
    rw [hnames m hm] at hnot
    cases hnot.2
  | terminal oneLine more ih =>
    obtain ⟨_, rfl, hmore⟩ := (HasGist.terminal_iff oneLine).1 hgist
    rw [operands_cons_of_operand rfl, operands_cons_of_operand rfl] at hsize
    obtain ⟨hapart, hsound⟩ := ih hmore (Nat.le_of_succ_le_succ hsize)
    exact ⟨(isChain_apart_cons rfl).2 hapart, List.forall_mem_cons.2 ⟨nofun, hsound⟩⟩
  | plain nonempty plain more ih =>
    obtain ⟨_, rfl, hmore⟩ := (HasGist.plain_iff plain).1 hgist
    rw [operands_append, operands_append] at hsize
    obtain ⟨hapart, hsound⟩ := ih hmore (Nat.le_of_add_le_add_left hsize)
    exact ⟨(isChain_apart_cons rfl).2 hapart, List.forall_mem_cons.2 ⟨nofun, hsound⟩⟩
  | comment nonempty blank oneLine more ih =>
    obtain ⟨hcomment, _, rfl, hmore⟩ := (HasGist.commentWord_iff blank oneLine).1 hgist
    obtain ⟨hapart, hsound⟩ := ih hmore hsize
    exact ⟨(isChain_apart_cons rfl).2 hapart, List.forall_mem_cons.2 ⟨hcomment, hsound⟩⟩
  | lineBreak more ih =>
    obtain ⟨hapart, hsound⟩ := ih (HasGist.lineBreak_iff.1 hgist) hsize
    exact ⟨(isChain_apart_cons rfl).2 hapart, List.forall_mem_cons.2 ⟨trivial, hsound⟩⟩
  | remark oneLine more ih =>
    obtain ⟨hcomment, _, rfl, hmore⟩ :=
      (HasGist.commentWord_iff (t := []) nofun oneLine).1 (HasGist.lineBreak_iff.1 hgist)
    obtain ⟨hapart, hsound⟩ := ih hmore hsize
    exact ⟨(isChain_apart_cons rfl).2 ((isChain_apart_cons rfl).2 hapart),
      List.forall_mem_cons.2 ⟨trivial, List.forall_mem_cons.2 ⟨hcomment, hsound⟩⟩⟩

end GrammarCheck
