import GrammarCheck.Proofs.Grammar.PrintedGrammar

namespace GrammarCheck

namespace Grammar

variable {g : Grammar} {l : Line} {newline : Text} {part part' : Text → Text} {ps : List Production}

structure Untrimmed (g : Grammar) : Prop where
  first : g.name = [] → ∀ p ∈ g.productions.head?, p.isBlank = false
  last : ∀ p ∈ g.productions.getLast?,
    p.isBlank = false ∧ ∀ c ∈ p.comment.getLast?, isBlank c = false

namespace Line

def comment : Line → Text
  | .header _ => []
  | .entry p => p.comment

theorem text_congr (h : part l.comment = part' l.comment) (newline : Text) :
    l.text newline part = l.text newline part' := by
  cases l with
  | header => rfl
  | entry p =>
    change part p.comment = part' p.comment at h
    simp only [text, Production.line, h]

theorem printedMarks_congr (h : part l.comment = part' l.comment) (newline : Text) :
    l.printedMarks newline part = l.printedMarks newline part' := by
  cases l with
  | header => rfl
  | entry p =>
    change part p.comment = part' p.comment at h
    simp only [printedMarks, Production.printedMarks, commentMarks, h]

theorem reread_congr (h : part l.comment = part' l.comment) : l.reread part = l.reread part' := by
  cases l with
  | header => rfl
  | entry p =>
    change part p.comment = part' p.comment at h
    simp only [reread, Production.reread, h]

end Line

theorem flatMap_reread_lines (part : Text → Text) (g : Grammar) :
    g.lines.flatMap (Line.reread part) = g.productions.map (Production.reread part) := by
  have hentries : (g.productions.map Line.entry).flatMap (Line.reread part) =
      g.productions.map (Production.reread part) := by
    rw [List.flatMap_map]
    exact List.flatMap_pure_eq_map _ _
  rw [lines, List.flatMap_append, hentries]
  split <;> rfl

namespace Untrimmed

theorem first_line (h : g.Untrimmed) : ∀ l ∈ g.lines.head?, l.isBlank = false := by
  intro l hl
  unfold lines at hl
  split at hl
  · rename_i hname
    rw [List.nil_append, List.head?_map] at hl
    obtain ⟨p, hp, rfl⟩ := Option.map_eq_some_iff.1 hl
    exact h.first (List.isEmpty_iff.1 hname) p hp
  · obtain rfl := Option.some.inj hl
    rfl

theorem last_line (h : g.Untrimmed) :
    ∀ l ∈ g.lines.getLast?, l.isBlank = false ∧ l.comment.trimRight = l.comment := by
  intro l hl
  rw [lines, List.getLast?_append, List.getLast?_map, Option.mem_def, Option.or_eq_some_iff] at hl
  obtain hl | ⟨-, hl⟩ := hl
  · obtain ⟨p, hp, rfl⟩ := Option.map_eq_some_iff.1 hl
    obtain ⟨hblank, hcomment⟩ := h.last p hp
    exact ⟨hblank, Text.trimRight_of_getLast hcomment⟩
  · split at hl
    · cases hl
    · obtain rfl := Option.some.inj hl
      exact ⟨rfl, rfl⟩

theorem kept (h : g.Untrimmed) (hkept : Kept g.lines ps) :
    ps = g.productions.map (Production.reread id) := by
  rw [← flatMap_reread_lines]
  cases hkept with
  | none blank =>
    cases hlines : g.lines with
    | nil => rfl
    | cons l ls =>
      have hfirst := h.first_line l (by rw [hlines]; rfl)
      rw [blank l (by rw [hlines]; exact List.mem_cons_self)] at hfirst
      cases hfirst
  | @within before init after last eq blankBefore _ _ blankAfter =>
    have hfirst := h.first_line
    have hlast := h.last_line
    rw [eq] at hfirst hlast ⊢
    have hbefore : before = [] := by
      cases before with
      | nil => rfl
      | cons l before =>
        have hl := hfirst l rfl
        rw [blankBefore l List.mem_cons_self] at hl
        cases hl
    have hafter : after = [] := by
      cases hrev : after.getLast? with
      | none => exact List.getLast?_eq_none_iff.1 hrev
      | some l =>
        obtain ⟨others, rfl⟩ := List.getLast?_eq_some_iff.1 hrev
        have hl := (hlast l (by simp [List.getLast?_cons])).1
        rw [blankAfter l (by simp)] at hl
        cases hl
    subst hbefore hafter
    have hl : last.reread Text.trimRight = last.reread id :=
      Line.reread_congr (hlast last (by simp)).2
    simp [hl]

theorem exists_scanned (h : g.Untrimmed) (hprintable : g.Printable) (hne : g.lines ≠ []) :
    g.print = g.print.trim ++ g.newline ∧ ∃ ss, Scanned g.print.trim ss [] ∧
      ss ++ [(.newline, g.newline)] = closedMarks g.newline g.lines := by
  obtain ⟨last, hlast⟩ := Option.ne_none_iff_exists'.1 (mt List.getLast?_eq_none_iff.1 hne)
  obtain ⟨hblank, htrim⟩ := h.last_line last hlast
  have hfirst := h.first_line
  have hlines := hprintable.lines
  obtain ⟨init, heq⟩ := List.getLast?_eq_some_iff.1 hlast
  rw [heq] at hfirst hlines
  rw [List.forall_mem_append, List.forall_mem_singleton] at hlines
  have hnone : ∀ l ∈ ([] : List Line), l.isBlank := by simp
  have hclosed := trim_closed hprintable.newline hnone hnone hlines.1 hlines.2 hblank hfirst
  have hscanned := scanned_lines hprintable.newline hlines.1 hlines.2
  have htext : last.text g.newline Text.trimRight = last.text g.newline id :=
    Line.text_congr htrim g.newline
  have hmarks : last.printedMarks g.newline Text.trimRight = last.printedMarks g.newline id :=
    Line.printedMarks_congr htrim g.newline
  rw [htext, hmarks] at hscanned
  rw [htext, List.nil_append, ← heq, ← print_eq_closed] at hclosed
  refine ⟨?_, _, hclosed ▸ hscanned, ?_⟩
  · rw [hclosed, print_eq_closed, heq]
    simp [closed]
  · simp [closedMarks, heq]

theorem head_print (h : g.Untrimmed) (hprintable : g.Printable) :
    ∀ c ∈ g.print.head?, isBlank c = false := by
  rw [print_eq_closed]
  cases hlines : g.lines with
  | nil => simp [closed]
  | cons l ls =>
    have hl := hprintable.lines l (by rw [hlines]; exact List.mem_cons_self)
    have hblank := h.first_line l (by rw [hlines]; rfl)
    obtain ⟨c, t, htext, hc⟩ := hl.exists_cons hblank g.newline id
    simp [closed, htext, hc]

theorem trim_print (h : g.Untrimmed) (hprintable : g.Printable) :
    g.print.trim = g.print.trimRight := by
  apply Text.trimLeft_of_head
  obtain ⟨rest, hrest⟩ := Text.trimRight_prefix g.print
  intro c hc
  apply h.head_print hprintable
  rw [← hrest, List.head?_append, Option.mem_def.1 hc]
  rfl

theorem length_flatMap_reread {ls : List Line} (h : ∀ l ∈ ls, l.isBlank) :
    (ls.flatMap (Line.reread id)).length = ls.length := by
  induction ls with
  | nil => rfl
  | cons l ls ih =>
    cases l with
    | header => cases h _ List.mem_cons_self
    | entry p =>
      have hmore := ih fun l hl => h l (List.mem_cons_of_mem _ hl)
      rw [List.flatMap_cons, List.length_append, hmore, List.length_cons, Nat.add_comm]
      rfl

theorem lines_of_kept (h : Kept g.lines ps) (hlength : ps.length = g.productions.length) :
    g.productions = [] ∨ ∃ init last, g.lines = init ++ [last] ∧
      (∀ l ∈ (init ++ [last]).head?, l.isBlank = false) ∧ last.isBlank = false ∧
      ps = init.flatMap (Line.reread id) ++ last.reread Text.trimRight := by
  cases h with
  | none => exact .inl (List.length_eq_zero_iff.1 hlength.symm)
  | @within before init after last eq blankBefore first notBlank blankAfter =>
    have hlast : (last.reread Text.trimRight).length = (last.reread id).length := by
      cases last <;> rfl
    have hall := congrArg List.length (flatMap_reread_lines id g)
    rw [eq] at hall
    simp only [List.flatMap_append, List.flatMap_cons, List.length_append, List.length_map,
      length_flatMap_reread blankBefore, length_flatMap_reread blankAfter] at hall hlength
    obtain rfl : before = [] := List.length_eq_zero_iff.1 (by omega)
    obtain rfl : after = [] := List.length_eq_zero_iff.1 (by omega)
    exact .inr ⟨init, last, eq, first, notBlank, rfl⟩

theorem of_lines {init : List Line} {last : Line} (heq : g.lines = init ++ [last])
    (hfirst : ∀ l ∈ (init ++ [last]).head?, l.isBlank = false) (hblank : last.isBlank = false)
    (hcomment : ∀ c ∈ last.comment.getLast?, isBlank c = false) : g.Untrimmed where
  first hname p hp := by
    refine hfirst (.entry p) ?_
    rw [← heq, lines, hname]
    simpa using hp
  last p hp := by
    have hlast : g.lines.getLast? = some (.entry p) := by
      rw [lines, List.getLast?_append, List.getLast?_map, Option.mem_def.1 hp]
      rfl
    rw [heq, List.getLast?_concat] at hlast
    obtain rfl := Option.some.inj hlast
    exact ⟨hblank, hcomment⟩

theorem of_kept (h : Kept g.lines (g.productions.map Production.withoutSpace)) : g.Untrimmed := by
  obtain hnone | ⟨init, last, heq, hfirst, hblank, hps⟩ := lines_of_kept h (List.length_map _)
  · exact ⟨by simp [hnone], by simp [hnone]⟩
  refine .of_lines heq hfirst hblank ?_
  cases last with
  | header => simp [Line.comment]
  | entry p =>
    have hmem : g.productions.getLast? = some p := by
      have hlast := congrArg List.getLast? heq
      rw [lines, List.getLast?_append, List.getLast?_map, List.getLast?_concat,
        Option.or_eq_some_iff] at hlast
      obtain hlast | ⟨-, hlast⟩ := hlast
      · obtain ⟨q, hq, heq⟩ := Option.map_eq_some_iff.1 hlast
        cases heq
        exact hq
      · split at hlast <;> cases hlast
    have hreread : p.withoutSpace = p.reread Text.trimRight := by
      have hlast := congrArg List.getLast? hps
      rw [List.getLast?_map, hmem] at hlast
      simpa [Line.reread] using hlast
    have hcomment : p.comment = p.comment.trimRight := by
      have hcomment := congrArg Production.comment hreread
      simp only [Production.withoutSpace, Production.reread] at hcomment
      split at hcomment <;> exact hcomment
    rw [Line.comment, hcomment]
    exact Text.isBlank_getLast_trimRight p.comment

end Untrimmed

end Grammar

end GrammarCheck
