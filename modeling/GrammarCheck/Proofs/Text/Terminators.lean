import GrammarCheck.Proofs.Notation.Spells
import GrammarCheck.Proofs.Text.LineSlices
import GrammarCheck.Proofs.Text.LineStarts
import GrammarCheck.Proofs.Text.UnifiedLineEnds

/-!
Lines and their terminators tile a text. Each line has one terminator, and there is only one way to
give the lines theirs: a carriage return is never parted from its line feed.
-/

namespace GrammarCheck

open GrammarCheck.Span

namespace Line

variable {t text terminator : Text} {lines lines' before after : List (Text × Text)}

/-- Lines beside their terminators. Only the last terminator may be missing, and that only behind a
line that is not empty. -/
inductive Ended : List (Text × Text) → Prop
  | nil : Ended []
  | unended {text : Text} (ne_nil : text ≠ []) : Ended [(text, [])]
  | cons {text terminator : Text} {lines : List (Text × Text)} (newline : IsNewline terminator)
      (more : Ended lines) : Ended ((text, terminator) :: lines)

/-- Lines without line ends in them, such that no carriage return is parted from its line feed. -/
inductive IsCut : List (Text × Text) → Prop
  | nil : IsCut []
  | unended {text : Text} (ne_nil : text ≠ []) (plain : ∀ c ∈ text, isLineEnd c = false) :
    IsCut [(text, [])]
  | cons {text terminator : Text} {lines : List (Text × Text)}
      (plain : ∀ c ∈ text, isLineEnd c = false) (newline : IsNewline terminator)
      (whole : terminator = ['\r'] → (unite lines).head? ≠ some '\n') (more : IsCut lines) :
    IsCut ((text, terminator) :: lines)

theorem cut_unended (hne : text ≠ []) (hplain : ∀ c ∈ text, isLineEnd c = false) :
    cut text = [(text, [])] := by
  induction text with
  | nil => exact absurd rfl hne
  | cons c text ih =>
    obtain ⟨hc, hplain⟩ := List.forall_mem_cons.1 hplain
    by_cases htext : text = []
    · rw [htext]
      exact cut_singleton hc rfl
    · exact cut_cons hc (ih htext hplain)

theorem cut_terminator (hnewline : IsNewline terminator)
    (hwhole : terminator = ['\r'] → t.head? ≠ some '\n') :
    cut (terminator ++ t) = ([], terminator) :: cut t := by
  obtain rfl | rfl | rfl := hnewline
  · rfl
  · exact cut_lineEnd rfl fun _ => hwhole rfl
  · exact cut_lineEnd rfl nofun

theorem cut_append (hplain : ∀ c ∈ text, isLineEnd c = false) (hnewline : IsNewline terminator)
    (hwhole : terminator = ['\r'] → t.head? ≠ some '\n') :
    cut (text ++ (terminator ++ t)) = (text, terminator) :: cut t := by
  induction text with
  | nil => exact cut_terminator hnewline hwhole
  | cons c text ih =>
    obtain ⟨hc, hplain⟩ := List.forall_mem_cons.1 hplain
    exact cut_cons hc (ih hplain)

namespace IsCut

theorem cut_unite (h : IsCut lines) : cut (unite lines) = lines := by
  induction h with
  | nil => rfl
  | unended hne hplain =>
    rw [unite_cons, unite_nil, List.append_nil, List.append_nil, cut_unended hne hplain]
  | cons hplain hnewline hwhole _ ih => rw [unite_cons, cut_append hplain hnewline hwhole, ih]

theorem ended (h : IsCut lines) : Ended lines := by
  induction h with
  | nil => exact .nil
  | unended hne => exact .unended hne
  | cons _ hnewline _ _ ih => exact .cons hnewline ih

theorem ne_nil (h : IsCut lines) : ∀ line ∈ lines, line.1 ++ line.2 ≠ [] := by
  induction h with
  | nil => exact nofun
  | unended hne => simpa using hne
  | cons _ hnewline _ _ ih =>
    refine List.forall_mem_cons.2 ⟨?_, ih⟩
    exact List.append_ne_nil_of_right_ne_nil _ hnewline.ne_nil

theorem plain (h : IsCut lines) : ∀ line ∈ lines, ∀ c ∈ line.1, isLineEnd c = false := by
  induction h with
  | nil => exact nofun
  | unended _ hplain => exact List.forall_mem_singleton.2 hplain
  | cons hplain _ _ _ ih => exact List.forall_mem_cons.2 ⟨hplain, ih⟩

theorem tail {line : Text × Text} (h : IsCut (line :: lines)) : IsCut lines := by
  cases h with
  | unended => exact .nil
  | cons _ _ _ hmore => exact hmore

theorem whole (h : IsCut ((text, terminator) :: lines)) (hreturn : terminator = ['\r']) :
    (unite lines).head? ≠ some '\n' := by
  cases h with
  | unended => cases hreturn
  | cons _ _ hwhole _ => exact hwhole hreturn

theorem right (h : IsCut (before ++ after)) : IsCut after := by
  induction before with
  | nil => exact h
  | cons line before ih => exact ih h.tail

theorem head?_unite_append (h : IsCut (before ++ after)) (hne : before ≠ []) :
    (unite (before ++ after)).head? = (unite before).head? := by
  obtain ⟨line, before, rfl⟩ := List.exists_cons_of_ne_nil hne
  have hline := h.ne_nil line List.mem_cons_self
  rw [unite_append, List.head?_append_of_ne_nil]
  rw [unite_cons, ← List.append_assoc]
  exact List.append_ne_nil_of_left_ne_nil hline _

theorem left (h : IsCut (before ++ after)) : IsCut before := by
  induction before with
  | nil => exact .nil
  | cons line before ih =>
    rw [List.cons_append] at h
    generalize hlines : before ++ after = lines at h
    cases h with
    | unended hne hplain =>
      rw [(List.append_eq_nil_iff.1 hlines).1]
      exact .unended hne hplain
    | cons hplain hnewline hwhole hmore =>
      subst hlines
      refine .cons hplain hnewline (fun hreturn => ?_) (ih hmore)
      by_cases hne : before = []
      · simp [hne]
      · rw [← hmore.head?_unite_append hne]
        exact hwhole hreturn

end IsCut

theorem isCut_of_newline {texts : List Text} (hnewline : IsNewline terminator)
    (hplain : ∀ text ∈ texts, ∀ c ∈ text, isLineEnd c = false) :
    IsCut (texts.map (·, terminator)) := by
  induction texts with
  | nil => exact .nil
  | cons text texts ih =>
    obtain ⟨htext, hplain⟩ := List.forall_mem_cons.1 hplain
    refine .cons htext hnewline ?_ (ih hplain)
    rintro rfl
    cases texts with
    | nil => exact nofun
    | cons next texts =>
      have hnext := hplain next List.mem_cons_self
      rw [List.map_cons, unite_cons]
      cases next with
      | nil => simp
      | cons c next =>
        rintro ⟨⟩
        cases hnext '\n' List.mem_cons_self

theorem isCut_cut (t : Text) : IsCut (cut t) := by
  fun_induction cut t with
  | case1 => exact .nil
  | case2 rest ih => exact .cons (by simp) (.inl rfl) (by simp) ih
  | case3 c rest hno hline ih =>
    refine .cons (by simp) (.inr ?_) ?_ ih
    · simpa using Text.isLineEnd_iff.1 hline
    · rw [unite_cut]
      intro hreturn
      exact head?_ne_of_not_feed hno (List.singleton_inj.1 hreturn)
  | case4 c rest hno hline text terminator lines hrest ih =>
    have hc : isLineEnd c = false := by simpa using hline
    rw [hrest] at ih
    cases ih with
    | unended hne hplain => exact .unended (by simp) (List.forall_mem_cons.2 ⟨hc, hplain⟩)
    | cons hplain hnewline hwhole hmore =>
      exact .cons (List.forall_mem_cons.2 ⟨hc, hplain⟩) hnewline hwhole hmore
  | case5 c rest hno hline hrest ih => exact .unended (by simp) (by simpa using hline)

theorem Ended.cut_unite (h : Ended lines)
    (hplain : ∀ line ∈ lines, ∀ c ∈ line.1, isLineEnd c = false) :
    (cut (unite lines)).length ≤ lines.length ∧
      (lines.length ≤ (cut (unite lines)).length → cut (unite lines) = lines) := by
  induction h with
  | nil => exact ⟨Nat.le_refl _, fun _ => rfl⟩
  | unended hne =>
    have hcut := (IsCut.unended hne (hplain _ List.mem_cons_self)).cut_unite
    exact ⟨Nat.le_of_eq (congrArg List.length hcut), fun _ => hcut⟩
  | @cons text terminator lines hnewline hmore ih =>
    obtain ⟨htext, hplain⟩ := List.forall_mem_cons.1 hplain
    obtain ⟨hle, heq⟩ := ih hplain
    rw [unite_cons, List.length_cons]
    by_cases hparted : terminator = ['\r'] ∧ (unite lines).head? = some '\n'
    · -- read together, the carriage return and the line feed end one line instead of two
      obtain ⟨rfl, hfeed⟩ := hparted
      obtain ⟨rest, hrest⟩ := List.head?_eq_some_iff.1 hfeed
      have hjoined : cut (text ++ (['\r'] ++ unite lines)) = (text, ['\r', '\n']) :: cut rest := by
        rw [hrest]
        exact cut_append htext (.inl rfl) (by simp)
      have hfirst : cut (unite lines) = ([], ['\n']) :: cut rest := by
        rw [hrest]
        exact cut_terminator (.inr (.inr rfl)) (by simp)
      rw [hfirst, List.length_cons] at hle
      rw [hjoined, List.length_cons]
      exact ⟨by omega, fun hge => by omega⟩
    · rw [cut_append htext hnewline fun hreturn hfeed => hparted ⟨hreturn, hfeed⟩, List.length_cons]
      exact ⟨Nat.succ_le_succ hle, fun hge => congrArg _ (heq (Nat.le_of_succ_le_succ hge))⟩

structure Terminates (t : Text) (lines : List (Text × Text)) : Prop where
  lines_eq : lines.map (·.1) = (all t).map (·.text)
  ended : Ended lines
  unite_eq : unite lines = t

theorem length_place (offset : Nat) (lines : List (Text × Text)) :
    (place offset lines).length = lines.length := by
  simpa using congrArg List.length (map_text_place offset lines)

theorem terminates_iff : Terminates t lines ↔ lines = cut t := by
  have htexts : (all t).map (·.text) = (cut t).map (·.1) := map_text_place 0 (cut t)
  constructor
  · rintro ⟨hlines, hended, rfl⟩
    rw [htexts] at hlines
    have hplain : ∀ text ∈ lines.map (·.1), ∀ c ∈ text, isLineEnd c = false := by
      rw [hlines]
      exact List.forall_mem_map.2 (isCut_cut _).plain
    have hlength : lines.length = (cut (unite lines)).length := by
      simpa using congrArg List.length hlines
    exact ((hended.cut_unite (List.forall_mem_map.1 hplain)).2 (Nat.le_of_eq hlength)).symm
  · rintro rfl
    exact ⟨htexts.symm, (isCut_cut t).ended, unite_cut t⟩

/-- There is one way to give the lines of a text their terminators. Each line lies in the text behind
the lines before it and their terminators, holds no line end, and is what the text has in its span. -/
theorem all_tiles_text (t : Text) : ∃ lines, (∀ lines', Terminates t lines' ↔ lines' = lines) ∧
    ∀ before text terminator after, lines = before ++ (text, terminator) :: after →
      let s := between (unite before).length ((unite before).length + text.length)
      (all t)[before.length]? = some ⟨text, s⟩ ∧ s.slice t = text ∧
        (∀ c ∈ text, isLineEnd c = false) ∧
        (terminator = ['\r'] → (unite after).head? ≠ some '\n') := by
  refine ⟨cut t, fun _ => terminates_iff, fun before text terminator after hcut => ?_⟩
  have hlines : IsCut ((text, terminator) :: after) := (hcut ▸ isCut_cut t).right
  have ht : t = unite before ++ (text ++ (terminator ++ unite after)) := by
    rw [← unite_cons (text, terminator), ← unite_append, ← hcut, unite_cut]
  refine ⟨?_, ?_, hlines.plain _ List.mem_cons_self, hlines.whole⟩
  · have hlength := length_place 0 before
    rw [all, hcut, place_append, List.getElem?_append_right (Nat.le_of_eq hlength), hlength,
      Nat.sub_self, Nat.zero_add]
    rfl
  · have hslice := slice_between_append (unite before) text (terminator ++ unite after)
    rwa [← ht] at hslice

end Line

end GrammarCheck
