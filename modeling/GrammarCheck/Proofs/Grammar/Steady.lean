import GrammarCheck.Proofs.Grammar.Parsed
import GrammarCheck.Proofs.Parsing.Ahead

/-!
Expressions whose symbols, layout included, are read back as they are written. Layout of a group
is read back as layout of its last item: it stays in its place only if the item has no layout of its
own there and is not in parentheses.
-/

namespace GrammarCheck

variable {ss ss' : List Symbol} {newline : Text} {t : Trivia} {layouts behind : List Trivia}
  {e : Expr} {es es' : List Expr} {j k : Joint}

/-- Symbols of which some may have been lost: none is exactly under some condition. -/
structure Shrinks (new old : List Symbol) (kept : Prop) : Prop where
  le : new.length ≤ old.length
  eq_iff : new = old ↔ kept

namespace Shrinks

variable {new old new' old' : List Symbol} {kept kept' : Prop}

theorem refl (ss : List Symbol) : Shrinks ss ss True := ⟨Nat.le_refl _, by simp⟩

theorem congr (h : Shrinks new old kept) (hkept : kept ↔ kept') : Shrinks new old kept' :=
  ⟨h.le, h.eq_iff.trans hkept⟩

theorem append (h : Shrinks new old kept) (h' : Shrinks new' old' kept') :
    Shrinks (new ++ new') (old ++ old') (kept ∧ kept') where
  le := by
    have hle := h.le
    have hle' := h'.le
    simp only [List.length_append]
    omega
  eq_iff := by
    rw [← h.eq_iff, ← h'.eq_iff]
    constructor
    · intro heq
      have hlength := congrArg List.length heq
      have hle := h.le
      have hle' := h'.le
      simp only [List.length_append] at hlength
      exact List.append_inj heq (by omega)
    · rintro ⟨rfl, rfl⟩
      rfl

theorem cons (h : Shrinks new old kept) (s : Symbol) : Shrinks (s :: new) (s :: old) kept :=
  ((refl [s]).append h).congr (by simp)

theorem enclose (h : Shrinks new old kept) (inParens : Bool) :
    Shrinks (encloseSymbols inParens new) (encloseSymbols inParens old) kept := by
  cases inParens with
  | false => exact h
  | true => exact ((h.append (refl [(.closeParen, [')'])])).congr (by simp)).cons _

end Shrinks

namespace Trivia

theorem printedMarks_of_isSilent (h : t.isSilent) (newline : Text) :
    t.printedMarks newline = [] := by
  obtain ⟨hcomment, hnewline⟩ : t.comment = [] ∧ t.newline = false := by simpa [isSilent] using h
  simp [printedMarks, hcomment, hnewline]

theorem newlines_printedMarks (h : t.isSilent = false) (newline : Text) :
    (t.printedMarks newline).countP (·.1 == .newline) = 1 := by
  obtain ⟨whitespace, comment, isNewline⟩ := t
  cases comment <;> cases isNewline <;> simp_all [isSilent, printedMarks]

theorem Tidy.settled_printedMarks (h : t.Tidy) (newline : Text) :
    t.settled.printedMarks newline = t.printedMarks newline := by
  simp [settled, printedMarks, h.trimmed]

end Trivia

def loud (layouts : List Trivia) : Nat := layouts.countP (!·.isSilent)

theorem loud_cons (t : Trivia) (layouts : List Trivia) :
    loud (t :: layouts) = loud layouts + if t.isSilent then 0 else 1 := by
  by_cases h : t.isSilent <;> simp [loud, h]

@[simp] theorem loud_nil : loud [] = 0 := rfl

theorem loud_cons_le_one :
    loud (t :: layouts) ≤ 1 ↔ loud layouts = 0 ∨ loud layouts = 1 ∧ t.isSilent := by
  rw [loud_cons]
  by_cases h : t.isSilent
  · rw [if_pos h]
    simp only [h, and_true]
    omega
  · simp [h]

theorem layoutMarks_filter (newline : Text) (layouts : List Trivia) :
    layoutMarks newline (layouts.filter (!·.isSilent)) = layoutMarks newline layouts := by
  induction layouts with
  | nil => rfl
  | cons t layouts ih =>
    by_cases h : t.isSilent
    · simp [h, ih, t.printedMarks_of_isSilent h]
    · simp [h, ih]

theorem shrinks_merge (h : ∀ t ∈ layouts, t.Tidy) (newline : Text) :
    Shrinks ((Trivia.merge layouts).printedMarks newline) (layoutMarks newline layouts)
      (loud layouts ≤ 1) := by
  have hwritten : ∀ t ∈ layouts.filter (!·.isSilent), t.Tidy ∧ t.isSilent = false := by
    intro t ht
    obtain ⟨ht, hloud⟩ := List.mem_filter.1 ht
    exact ⟨h t ht, by simpa using hloud⟩
  rw [← Trivia.merge_filter, ← layoutMarks_filter, loud, List.countP_eq_length_filter]
  generalize layouts.filter (!·.isSilent) = written at hwritten ⊢
  match written with
  | [] => exact (Shrinks.refl []).congr (by simp)
  | [t] =>
    rw [Trivia.merge_singleton, (hwritten t (by simp)).1.settled_printedMarks, layoutMarks_cons,
      layoutMarks_nil, List.append_nil]
    exact (Shrinks.refl _).congr (by simp)
  | t :: t' :: more =>
    have hcount := Trivia.newlines_printedMarks (hwritten t (by simp)).2 newline
    have hcount' := Trivia.newlines_printedMarks (hwritten t' (by simp)).2 newline
    have hmerged : ∀ u : Trivia, (u.printedMarks newline).length ≤ 2 ∧
        (u.printedMarks newline).countP (·.1 == .newline) ≤ 1 := by
      rintro ⟨whitespace, comment, isNewline⟩
      cases comment <;> cases isNewline <;> simp [Trivia.printedMarks]
    obtain ⟨hlength, hnewlines⟩ := hmerged (.merge (t :: t' :: more))
    refine ⟨?_, ?_⟩
    · have hle := List.countP_le_length (p := fun s : Symbol => s.1 == .newline)
        (l := t.printedMarks newline)
      have hle' := List.countP_le_length (p := fun s : Symbol => s.1 == .newline)
        (l := t'.printedMarks newline)
      simp only [layoutMarks_cons, List.length_append]
      omega
    · refine iff_of_false (fun heq => ?_) (by simp)
      rw [heq] at hnewlines
      simp only [layoutMarks_cons, List.countP_append] at hnewlines
      omega

theorem layoutMarks_eq_nil_iff (newline : Text) :
    layoutMarks newline layouts = [] ↔ loud layouts = 0 := by
  induction layouts with
  | nil => simp
  | cons t layouts ih =>
    rw [layoutMarks_cons, List.append_eq_nil_iff, ih, loud_cons]
    by_cases h : t.isSilent
    · simp [h, t.printedMarks_of_isSilent h]
    · have hone := Trivia.newlines_printedMarks (by simpa using h) newline
      have hne : t.printedMarks newline ≠ [] := by
        intro hnil
        rw [hnil] at hone
        cases hone
      simp [h, hne]

theorem shrinks_close (h : ∀ t ∈ layouts, t.Tidy) (newline : Text) :
    Shrinks ((Trivia.merge layouts).printedMarks newline ++ [(.closeParen, [')'])])
      ((.closeParen, [')']) :: layoutMarks newline layouts) (loud layouts = 0) := by
  have hmerge := shrinks_merge h newline
  refine ⟨by simpa using hmerge.le, ?_⟩
  rw [← layoutMarks_eq_nil_iff newline]
  constructor
  · intro heq
    cases hmarks : (Trivia.merge layouts).printedMarks newline with
    | nil =>
      rw [hmarks] at heq
      exact (List.cons.inj heq).2.symm
    | cons s ss =>
      have hs : s ∈ (Trivia.merge layouts).printedMarks newline := by
        rw [hmarks]
        exact List.mem_cons_self
      have htrivia := Trivia.isTrivia_of_mem_printedMarks hs
      rw [hmarks] at heq
      rw [(List.cons.inj heq).1] at htrivia
      cases htrivia
  · intro hnil
    have hnone : (Trivia.merge layouts).printedMarks newline = [] := by
      have hle := hmerge.le
      rw [hnil] at hle
      exact List.length_eq_zero_iff.1 (Nat.le_zero.1 hle)
    rw [hnone, hnil]
    rfl

/-- An item behind whose last symbol nothing is written, so that layout behind the item is read back
there. -/
inductive Expr.Bare : Joint → Expr → Prop
  | leaf {j : Joint} {l : Leaf} {after : Trivia} (silent : after.isSilent) : Bare j (.leaf l after)
  | repeated {j : Joint} {r : Repetition} {body : Expr} {label : Text} {after : Trivia}
      (silent : after.isSilent) : Bare j (.repeated r body label after)
  | group {j k : Joint} {items : List Expr} {label : Text} {after : Trivia}
      (noParens : j.encloses (.group k items label after) = false) (silent : after.isSilent)
      (last : ∀ e ∈ items.getLast?, Bare k e) : Bare j (.group k items label after)

/-- An expression whose groups have their layout where it is read back. -/
inductive Expr.Steady : Expr → Prop
  | leaf {l : Leaf} {after : Trivia} : Steady (.leaf l after)
  | repeated {r : Repetition} {body : Expr} {label : Text} {after : Trivia} (steady : Steady body) :
    Steady (.repeated r body label after)
  | group {k : Joint} {items : List Expr} {label : Text} {after : Trivia}
      (steady : ∀ e ∈ items, Steady e) (last : after.isSilent ∨ ∀ e ∈ items.getLast?, e.Bare k) :
    Steady (.group k items label after)

namespace Expr

variable {l : Leaf} {r : Repetition} {label : Text}

theorem bare_leaf_iff : (leaf l t).Bare j ↔ t.isSilent :=
  ⟨fun h => by cases h; assumption, .leaf⟩

theorem bare_repeated_iff : (repeated r e label t).Bare j ↔ t.isSilent :=
  ⟨fun h => by cases h; assumption, .repeated⟩

theorem bare_group_iff : (group k es label t).Bare j ↔
    j.encloses (group k es label t) = false ∧ t.isSilent ∧ ∀ e ∈ es.getLast?, e.Bare k :=
  ⟨fun h => by cases h; exact ⟨‹_›, ‹_›, ‹_›⟩,
    fun ⟨noParens, silent, last⟩ => .group noParens silent last⟩

theorem steady_repeated_iff : (repeated r e label t).Steady ↔ e.Steady :=
  ⟨fun h => by cases h; assumption, .repeated⟩

theorem steady_group_iff : (group k es label t).Steady ↔
    (∀ e ∈ es, e.Steady) ∧ (t.isSilent ∨ ∀ e ∈ es.getLast?, e.Bare k) :=
  ⟨fun h => by cases h; exact ⟨‹_›, ‹_›⟩, fun ⟨steady, last⟩ => .group steady last⟩

end Expr

def Joint.marks (newline : Text) (j : Joint) : List Expr → List Symbol
  | [] => []
  | e :: es =>
    encloseSymbols (j.encloses e) (e.printedMarks newline) ++ Expr.printedMarks.further newline j es

theorem Joint.encloses_eq_false (h : e.isChoice = false) (j : Joint) : j.encloses e = false := by
  cases j with
  | choice => rfl
  | sequence => exact h

theorem Joint.marks_singleton (h : j.encloses e = false) (newline : Text) :
    j.marks newline [e] = e.printedMarks newline := by
  rw [marks, h]
  exact List.append_nil _

theorem Joint.marks_append (hes : es ≠ []) (hes' : es' ≠ []) (newline : Text) (j : Joint) :
    j.marks newline (es ++ es') = j.marks newline es ++ (j.separator ++ j.marks newline es') := by
  have hfurther : ∀ es : List Expr, Expr.printedMarks.further newline j (es ++ es') =
      Expr.printedMarks.further newline j es ++ (j.separator ++ j.marks newline es') := by
    intro es
    induction es with
    | nil =>
      obtain ⟨e, es', rfl⟩ := List.exists_cons_of_ne_nil hes'
      simp [Expr.printedMarks.further, marks]
    | cons e es ih => simp [Expr.printedMarks.further, ih]
  obtain ⟨e, es, rfl⟩ := List.exists_cons_of_ne_nil hes
  rw [List.cons_append, marks, hfurther, marks, List.append_assoc]

namespace Expr

theorem printedMarks_group (newline : Text) (j : Joint) (items : List Expr) (label : Text)
    (after : Trivia) : (Expr.group j items label after).printedMarks newline =
      j.marks newline items ++ after.printedMarks newline := by
  cases items <;> rfl

theorem printedMarks_join_choice (hne : es ≠ []) (newline : Text) :
    (join .choice es).printedMarks newline = Joint.choice.marks newline es := by
  match es with
  | [] => contradiction
  | [e] => exact (List.append_nil _).symm
  | e :: e' :: es => exact List.append_nil _

theorem length_spread (h : ∀ e ∈ es, ∀ behind, e.rereadParts j behind ≠ []) (behind : List Trivia) :
    es.length ≤ (rereadParts.spread j behind es).length := by
  induction es with
  | nil => exact Nat.zero_le _
  | cons e es ih =>
    have hmore := ih fun x hx => h x (List.mem_cons_of_mem _ hx)
    have hpos := List.length_pos_iff.2 (h e List.mem_cons_self (if es.isEmpty then behind else []))
    rw [rereadParts.spread, List.length_append, List.length_cons]
    omega

namespace Tidy

theorem rereadParts_ne_nil (h : e.Tidy) (j : Joint) (behind : List Trivia) :
    e.rereadParts j behind ≠ [] := by
  induction h generalizing j behind with
  | leaf | repeated => simp [rereadParts]
  | @group k items after many _ _ ih =>
    have hspread : ∀ behind, rereadParts.spread k behind items ≠ [] := fun behind =>
      List.ne_nil_of_length_pos (by
        have := length_spread (j := k) (fun e he behind => ih e he k behind) behind
        omega)
    cases k <;> cases j <;> simp [rereadParts, hspread]

theorem many_spread (h : ∀ e ∈ es, e.Tidy) (hmany : 2 ≤ es.length) (j : Joint)
    (behind : List Trivia) : 2 ≤ (rereadParts.spread j behind es).length :=
  Nat.le_trans hmany (length_spread (fun e he => (h e he).rereadParts_ne_nil j) behind)

theorem isGroup_reread (h : e.Tidy) : (e.reread []).isGroup = e.isGroup := by
  cases h with
  | leaf | repeated => rfl
  | @group k items after many tidy _ =>
    have hjoin := fun behind => join_of_many (many_spread tidy many k behind) k
    cases k with
    | choice =>
      change (Expr.join .choice (rereadParts.spread .choice [after] items)).isGroup = true
      rw [hjoin]
      rfl
    | sequence =>
      change (Expr.join .sequence (rereadParts.spread .sequence [after] items)).isGroup = true
      rw [hjoin]
      rfl

theorem shrinks_spread (h : ∀ e ∈ es, e.Tidy)
    (hitems : ∀ e ∈ es, ∀ behind : List Trivia, (∀ t ∈ behind, t.Tidy) →
      Shrinks (j.marks newline (e.rereadParts j behind))
        (encloseSymbols (j.encloses e) (e.printedMarks newline) ++ layoutMarks newline behind)
        (e.Steady ∧ (loud behind = 0 ∨ loud behind = 1 ∧ e.Bare j)))
    (hne : es ≠ []) (hbehind : ∀ t ∈ behind, t.Tidy) :
    Shrinks (j.marks newline (rereadParts.spread j behind es))
      (j.marks newline es ++ layoutMarks newline behind)
      ((∀ e ∈ es, e.Steady) ∧
        (loud behind = 0 ∨ loud behind = 1 ∧ ∀ e ∈ es.getLast?, e.Bare j)) := by
  induction es with
  | nil => contradiction
  | cons e es ih =>
    by_cases hes : es = []
    · subst hes
      have hlast := hitems e List.mem_cons_self behind hbehind
      simpa [rereadParts.spread, Joint.marks, printedMarks.further] using hlast
    · have hfirst := hitems e List.mem_cons_self [] (by simp)
      have hmore := ih (fun x hx => h x (List.mem_cons_of_mem _ hx))
        (fun x hx => hitems x (List.mem_cons_of_mem _ hx)) hes
      have hparts := (h e List.mem_cons_self).rereadParts_ne_nil j []
      have hspread : rereadParts.spread j behind es ≠ [] := by
        have hlength := length_spread (fun x hx =>
          (h x (List.mem_cons_of_mem _ hx)).rereadParts_ne_nil j) behind
        have hpos := List.length_pos_iff.2 hes
        exact List.ne_nil_of_length_pos (by omega)
      have hall := hfirst.append ((Shrinks.refl j.separator).append hmore)
      rw [rereadParts.spread, if_neg (by simpa using hes), Joint.marks_append hparts hspread]
      have hcons : j.marks newline (e :: es) =
          encloseSymbols (j.encloses e) (e.printedMarks newline) ++
            (j.separator ++ j.marks newline es) := by
        rw [← List.singleton_append, Joint.marks_append (by simp) hes]
        simp [Joint.marks, printedMarks.further]
      have hlast : (e :: es).getLast? = es.getLast? := List.getLast?_cons_of_ne_nil hes
      rw [hcons, hlast]
      refine Shrinks.congr (by simpa using hall) ?_
      simp [and_assoc]

theorem shrinks_closed {items : List Expr} {after : Trivia} (tidy : ∀ e ∈ items, e.Tidy)
    (many : 2 ≤ items.length) (hbehind : ∀ t ∈ behind, t.Tidy)
    (h : Shrinks (Joint.choice.marks newline (rereadParts.spread .choice [after] items))
      (Joint.choice.marks newline items ++ layoutMarks newline [after])
      ((∀ e ∈ items, e.Steady) ∧
        (loud [after] = 0 ∨ loud [after] = 1 ∧ ∀ e ∈ items.getLast?, e.Bare .choice))) :
    Shrinks (Joint.sequence.marks newline
        ((Expr.group .choice items [] after).rereadParts .sequence behind))
      (encloseSymbols true ((Expr.group .choice items [] after).printedMarks newline) ++
        layoutMarks newline behind)
      ((Expr.group .choice items [] after).Steady ∧ loud behind = 0) := by
  have hall := (h.append (shrinks_close hbehind newline)).cons (.openParen, ['('])
  have hnew : Joint.sequence.marks newline
      ((Expr.group .choice items [] after).rereadParts .sequence behind) = (.openParen, ['(']) ::
        (Joint.choice.marks newline (rereadParts.spread .choice [after] items) ++
          ((Trivia.merge behind).printedMarks newline ++ [(.closeParen, [')'])])) := by
    rw [rereadParts, join_of_many (many_spread tidy many .choice [after]), Expr.attach,
      Trivia.empty_append]
    simp [Joint.marks, printedMarks.further, Joint.encloses, isChoice, encloseSymbols,
      printedMarks_group]
  have hold : encloseSymbols true ((Expr.group .choice items [] after).printedMarks newline) ++
      layoutMarks newline behind = (.openParen, ['(']) ::
        (Joint.choice.marks newline items ++ layoutMarks newline [after] ++
          (.closeParen, [')']) :: layoutMarks newline behind) := by
    simp [encloseSymbols, printedMarks_group]
  rw [hnew, hold]
  refine hall.congr ?_
  rw [steady_group_iff, loud_cons]
  split <;> simp_all

theorem shrinks_open {items : List Expr} {after : Trivia} (tidy : ∀ e ∈ items, e.Tidy)
    (many : 2 ≤ items.length) (hopen : j.encloses (.group k items [] after) = false)
    (h : Shrinks (k.marks newline (rereadParts.spread k (after :: behind) items))
      (k.marks newline items ++ layoutMarks newline (after :: behind))
      ((∀ e ∈ items, e.Steady) ∧ (loud (after :: behind) = 0 ∨
        loud (after :: behind) = 1 ∧ ∀ e ∈ items.getLast?, e.Bare k))) :
    Shrinks (j.marks newline ((Expr.group k items [] after).rereadParts j behind))
      ((Expr.group k items [] after).printedMarks newline ++ layoutMarks newline behind)
      ((Expr.group k items [] after).Steady ∧
        (loud behind = 0 ∨ loud behind = 1 ∧ (Expr.group k items [] after).Bare j)) := by
  have hnew : j.marks newline ((Expr.group k items [] after).rereadParts j behind) =
      k.marks newline (rereadParts.spread k (after :: behind) items) := by
    have hjoin := join_of_many (many_spread tidy many k (after :: behind)) k
    cases k <;> cases j
    · rfl
    · cases hopen
    · rw [rereadParts, hjoin, Joint.marks_singleton rfl, printedMarks_group]
      exact List.append_nil _
    · rfl
  rw [hnew, printedMarks_group, List.append_assoc, ← layoutMarks_cons]
  refine h.congr ?_
  rw [bare_group_iff, steady_group_iff, loud_cons, and_iff_right hopen]
  by_cases hsilent : after.isSilent
  · simp [hsilent]
  · simp [hsilent]
    tauto

theorem shrinks (h : e.Tidy) (newline : Text) (j : Joint) {behind : List Trivia}
    (hbehind : ∀ t ∈ behind, t.Tidy) :
    Shrinks (j.marks newline (e.rereadParts j behind))
      (encloseSymbols (j.encloses e) (e.printedMarks newline) ++ layoutMarks newline behind)
      (e.Steady ∧ (loud behind = 0 ∨ loud behind = 1 ∧ e.Bare j)) := by
  induction h generalizing j behind with
  | @leaf l after _ layout =>
    have hmerge := shrinks_merge (List.forall_mem_cons.2 ⟨layout, hbehind⟩) newline
    have hopen : ∀ t, j.encloses (.leaf l t) = false := fun t => Joint.encloses_eq_false rfl j
    rw [rereadParts, Joint.marks_singleton (hopen _), hopen]
    refine (hmerge.cons l.symbol).congr ?_
    rw [bare_leaf_iff, loud_cons_le_one, and_iff_right Steady.leaf]
  | @repeated r body after tidy layout ih =>
    have hmerge := shrinks_merge (List.forall_mem_cons.2 ⟨layout, hbehind⟩) newline
    have hbody := @ih .choice [] (by simp)
    have hreread : (body.reread []).printedMarks newline =
        Joint.choice.marks newline (body.rereadParts .choice []) :=
      printedMarks_join_choice (tidy.rereadParts_ne_nil .choice []) newline
    have hopen : ∀ d t, j.encloses (.repeated r d [] t) = false := fun _ t =>
      Joint.encloses_eq_false rfl j
    rw [rereadParts, Joint.marks_singleton (hopen _ _), hopen, ← reread, printedMarks, printedMarks,
      tidy.isGroup_reread, hreread]
    rw [layoutMarks_nil, List.append_nil] at hbody
    have hall := (hbody.enclose body.isGroup).append (hmerge.cons (r.kind, [r.mark]))
    rw [encloseSymbols_false, List.append_assoc]
    refine hall.congr ?_
    rw [bare_repeated_iff, steady_repeated_iff, loud_cons_le_one]
    simp
  | @group k items after many tidy layout ih =>
    have hne : items ≠ [] := List.ne_nil_of_length_pos (Nat.lt_of_lt_of_le Nat.two_pos many)
    have hitems : ∀ e ∈ items, ∀ behind : List Trivia, _ := fun e he behind => @ih e he k behind
    have hspread : ∀ behind : List Trivia, (∀ t ∈ behind, t.Tidy) → _ := fun behind =>
      shrinks_spread tidy hitems hne
    -- behind a closing parenthesis `behind` keeps its place; else it follows the layout of the group
    by_cases hclosed : j.encloses (.group k items [] after)
    · obtain ⟨rfl, rfl⟩ : j = .sequence ∧ k = .choice := by
        cases j <;> cases k <;> first | exact ⟨rfl, rfl⟩ | cases hclosed
      have hinner := hspread [after] (List.forall_mem_singleton.2 layout)
      refine (shrinks_closed tidy many hbehind hinner).congr ?_
      simp [bare_group_iff, hclosed]
    · have hopen : j.encloses (.group k items [] after) = false := by simpa using hclosed
      have hinner := hspread (after :: behind) (List.forall_mem_cons.2 ⟨layout, hbehind⟩)
      rw [hopen, encloseSymbols_false]
      exact shrinks_open tidy many hopen hinner

theorem shrinks_reread (h : e.Tidy) (newline : Text) :
    Shrinks ((e.reread []).printedMarks newline) (e.printedMarks newline) e.Steady := by
  rw [reread, printedMarks_join_choice (h.rereadParts_ne_nil .choice []) newline]
  have hshrinks := h.shrinks newline .choice (List.forall_mem_nil _)
  simpa [Joint.encloses] using hshrinks

end Tidy

end Expr

end GrammarCheck
