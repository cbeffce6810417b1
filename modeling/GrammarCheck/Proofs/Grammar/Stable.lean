import GrammarCheck.Proofs.Grammar.Refused
import GrammarCheck.Proofs.Grammar.Rendered
import GrammarCheck.Proofs.Grammar.Steady
import GrammarCheck.Proofs.Grammar.Untrimmed

namespace GrammarCheck

variable {e : Expr} {es : List Expr} {j : Joint} {newline : Text} {p q : Production}
  {ps qs : List Production}

namespace Expr

theorem isChoice_withoutSpace (e : Expr) : e.withoutSpace.isChoice = e.isChoice := by
  cases e with
  | group j => cases j <;> rfl
  | _ => rfl

theorem isGroup_withoutSpace (e : Expr) : e.withoutSpace.isGroup = e.isGroup := by
  cases e <;> rfl

theorem printedMarks_withoutSpace (newline : Text) (e : Expr) :
    e.withoutSpace.printedMarks newline = e.printedMarks newline := by
  induction e with
  | leaf => rfl
  | repeated r body label after ih =>
    rw [withoutSpace, printedMarks, ih, isGroup_withoutSpace]
    rfl
  | group j items label after ih =>
    have hencloses : ∀ e : Expr, j.encloses e.withoutSpace = j.encloses e := by
      intro e
      cases j with
      | choice => rfl
      | sequence => exact isChoice_withoutSpace e
    have hfurther : ∀ es : List Expr,
        (∀ e ∈ es, e.withoutSpace.printedMarks newline = e.printedMarks newline) →
        printedMarks.further newline j (es.map withoutSpace) =
          printedMarks.further newline j es := by
      intro es hes
      induction es with
      | nil => rfl
      | cons e es ihes =>
        rw [List.map_cons, printedMarks.further, hencloses, hes e List.mem_cons_self,
          ihes fun d hd => hes d (List.mem_cons_of_mem _ hd), printedMarks.further]
    rw [withoutSpace, withoutSpace_all, printedMarks_group, printedMarks_group]
    cases items with
    | nil => rfl
    | cons e es =>
      rw [List.map_cons, Joint.marks, Joint.marks, hencloses, ih e List.mem_cons_self,
        hfurther es fun d hd => ih d (List.mem_cons_of_mem _ hd)]
      rfl

end Expr

namespace Production

theorem reread_cases (h : q.withoutSpace = p.reread id) :
    q.comment = p.comment ∧ (q.rule = none ∧ p.rule = none ∨
      ∃ rule rule', q.rule = some rule' ∧ p.rule = some rule ∧ rule'.name = rule.name ∧
        rule'.body.withoutSpace = rule.body.reread [] ∧ q.startsOnNewline = p.startsOnNewline) := by
  obtain ⟨rule, comment, start, link, linkName⟩ := p
  obtain ⟨rule', comment', start', link', linkName'⟩ := q
  cases rule with
  | none =>
    cases rule' with
    | none =>
      cases h
      exact ⟨rfl, .inl ⟨rfl, rfl⟩⟩
    | some rule' => cases h
  | some rule =>
    cases rule' with
    | none => cases h
    | some rule' =>
      simp only [withoutSpace, reread, Option.map_some, mk.injEq, Option.some.injEq, Rule.mk.injEq,
        id_eq] at h
      obtain ⟨⟨hname, hbody⟩, hcomment, hstart, -, -⟩ := h
      exact ⟨hcomment, .inr ⟨rule, rule', rfl, rfl, hname, hbody, hstart⟩⟩

theorem Tidy.shrinks (hp : p.Tidy) (h : q.withoutSpace = p.reread id) (newline : Text) :
    Shrinks (q.printedMarks newline id) (p.printedMarks newline id)
      (∀ rule, p.rule = some rule → rule.body.Steady) := by
  obtain ⟨hcomment, ⟨hq, hp'⟩ | ⟨rule, rule', hq, hp', hname, hbody, hstart⟩⟩ := reread_cases h
  · rw [printedMarks, printedMarks, hq, hp', hcomment]
    exact (Shrinks.refl _).congr (by simp)
  · have hmarks := (hp.body rule hp').shrinks_reread newline
    rw [← hbody, Expr.printedMarks_withoutSpace] at hmarks
    have hrest := hmarks.append (Shrinks.refl ((.semicolon, [';']) :: commentMarks id p.comment))
    have hall := (((Shrinks.refl (p.startMarks newline)).append hrest).cons
      (.colon, [':'])).cons (.word, rule.name)
    have hstartMarks : q.startMarks newline = p.startMarks newline := by
      rw [startMarks, startMarks, hstart]
    rw [printedMarks, printedMarks, hq, hp']
    dsimp only
    rw [hname, hstartMarks, hcomment]
    exact hall.congr (by simp)

theorem Tidy.line_eq (hp : p.Tidy) (hq : q.Tidy) (h : q.withoutSpace = p.reread id)
    (hsteady : ∀ rule, p.rule = some rule → rule.body.Steady) (newline : Text) :
    q.line newline id = p.line newline id := by
  obtain ⟨hcomment, ⟨hq', hp'⟩ | ⟨rule, rule', hq', hp', hname, hbody, hstart⟩⟩ := reread_cases h
  · rw [line, line, hq', hp', hcomment]
  · have hmarks := ((hp.body rule hp').shrinks_reread newline).eq_iff.2 (hsteady rule hp')
    rw [← hbody, Expr.printedMarks_withoutSpace] at hmarks
    have hprint := (hq.body rule' hq').printable.print_eq (hp.body rule hp').printable hmarks
    have hstart' : q.start newline = p.start newline := by
      rw [start, start, hstart]
    rw [line, line, hq', hp']
    dsimp only
    rw [hcomment, hstart', hname, hprint]

end Production

namespace Grammar

variable {g g' : Grammar} {source text : Text}

/-- A grammar whose text is read and printed again as the same text. -/
structure Stable (g : Grammar) : Prop extends g.Untrimmed where
  comments : ∀ p ∈ g.productions, Text.closesGroup p.comment = false
  bodies : ∀ p ∈ g.productions, ∀ rule, p.rule = some rule → rule.body.Steady
  newline : g.newline = defaultNewline ∨ g.print.trim.any isLineEnd

theorem shrinks_entries (h : ∀ p ∈ ps, p.Tidy)
    (heq : qs.map Production.withoutSpace = ps.map (Production.reread id)) (newline : Text) :
    Shrinks (closedMarks newline (qs.map .entry)) (closedMarks newline (ps.map .entry))
      (∀ p ∈ ps, ∀ rule, p.rule = some rule → rule.body.Steady) := by
  induction ps generalizing qs with
  | nil =>
    obtain rfl := List.map_eq_nil_iff.1 heq
    exact (Shrinks.refl []).congr (by simp)
  | cons p ps ih =>
    obtain ⟨q, qs, rfl, hq, hqs⟩ := List.map_eq_cons_iff.1 heq
    have hfirst := (h p List.mem_cons_self).shrinks hq newline
    have hmore := ih (fun x hx => h x (List.mem_cons_of_mem _ hx)) hqs
    exact ((hfirst.append (Shrinks.refl [(.newline, newline)])).append hmore).congr (by simp)

theorem closed_entries (hp : ∀ p ∈ ps, p.Tidy) (hq : ∀ q ∈ qs, q.Tidy)
    (heq : qs.map Production.withoutSpace = ps.map (Production.reread id))
    (hsteady : ∀ p ∈ ps, ∀ rule, p.rule = some rule → rule.body.Steady) (newline : Text) :
    closed newline (qs.map .entry) = closed newline (ps.map .entry) := by
  induction ps generalizing qs with
  | nil =>
    obtain rfl := List.map_eq_nil_iff.1 heq
    rfl
  | cons p ps ih =>
    obtain ⟨q, qs, rfl, hfirst, hmore⟩ := List.map_eq_cons_iff.1 heq
    rw [List.forall_mem_cons] at hp hq hsteady
    have hline : (Line.entry q).text newline id = (Line.entry p).text newline id :=
      hp.1.line_eq hq.1 hfirst hsteady.1 newline
    have htail := ih hp.2 hq.2 hmore hsteady.2
    rw [closed, closed] at htail
    simp only [closed, List.map_cons, List.flatMap_cons, hline, htail]

theorem Tidy.printable (h : g.Tidy) (hname : g.name = [] ∨ Bareword g.name)
    (hcomments : ∀ p ∈ g.productions, Text.closesGroup p.comment = false) : g.Printable where
  newline := h.newline
  name := hname
  productions p hp :=
    have hp' := h.productions p hp
    ⟨hp'.name, fun rule hrule => (hp'.body rule hrule).printable, hp'.comment, hcomments p hp⟩

theorem Stable.print_again (h : g.Stable) (htidy : g.Tidy) (hname : g.name = [] ∨ Bareword g.name)
    (source : Text) : ∃ g', ofText source [] g.print = .ok g' ∧ g'.print = g.print := by
  have hprintable := htidy.printable hname h.comments
  obtain ⟨g', hg', hname', hkept, hnewline'⟩ := hprintable.exists_ofText source
  refine ⟨g', hg', ?_⟩
  have hnewline : g'.newline = g.newline := by
    rw [hnewline']
    obtain hdefault | hline := h.newline
    · rw [hdefault, ite_self]
    · rw [if_pos hline]
  have hentries := closed_entries htidy.productions (tidy_of_ofText hg').productions (h.kept hkept)
    h.bodies g.newline
  rw [closed, closed] at hentries
  rw [print_eq_closed, print_eq_closed, lines, lines, hname', hnewline, closed, closed,
    List.flatMap_append, List.flatMap_append, hentries]

end Grammar

end GrammarCheck
