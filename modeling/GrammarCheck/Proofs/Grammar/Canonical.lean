import GrammarCheck.Proofs.Grammar.Untrimmed

namespace GrammarCheck

/-- Groups have at least two items, lie in no group of their own kind and have no layout of their
own. -/
inductive Expr.Canonical : Expr → Prop
  | leaf {l : Leaf} {after : Trivia} (leaf : l.Printable) (comment : OneLine after.comment) :
    Canonical (.leaf l after)
  | repeated {r : Repetition} {body : Expr} {after : Trivia} (canonical : Canonical body)
      (comment : OneLine after.comment) : Canonical (.repeated r body [] after)
  | group {j : Joint} {items : List Expr} {after : Trivia} (many : 2 ≤ items.length)
      (canonical : ∀ e ∈ items, Canonical e) (apart : ∀ e ∈ items, e.joinedBy j = false)
      (silent : after.isSilent) : Canonical (.group j items [] after)

structure Production.Canonical (p : Production) : Prop where
  name : ∀ rule, p.rule = some rule → Bareword rule.name
  body : ∀ rule, p.rule = some rule → rule.body.Canonical
  comment : OneLine p.comment
  start : p.rule = none → p.startsOnNewline = false
  link : p.link = none
  linkName : p.linkName = none

structure Grammar.Canonical (g : Grammar) : Prop extends g.Untrimmed where
  newline : IsNewline g.newline
  name : g.name = [] ∨ Bareword g.name
  productions : ∀ p ∈ g.productions, p.Canonical

namespace Expr

def settled : Expr → Expr
  | .leaf l after => .leaf l after.settled
  | .repeated r body label after => .repeated r body.settled label after.settled
  | .group j items label after => .group j (all items) label after.settled
where
  all : List Expr → List Expr
    | [] => []
    | e :: es => e.settled :: all es

theorem settled_all (es : List Expr) : settled.all es = es.map settled := by
  induction es with
  | nil => rfl
  | cons e es ih => rw [settled.all, ih, List.map_cons]

variable {e : Expr} {es : List Expr} {j : Joint} {behind : List Trivia}

theorem joinedBy_settled (j : Joint) (e : Expr) : e.settled.joinedBy j = e.joinedBy j := by
  cases e <;> rfl

namespace Canonical

theorem printable (h : e.Canonical) : e.Printable := by
  induction h with
  | leaf leaf comment => exact .leaf leaf comment
  | repeated _ comment ih => exact .repeated ih comment
  | @group j items after many _ _ silent ih =>
    have hne : items ≠ [] := by
      rintro rfl
      simp at many
    have hcomment : after.comment = [] := by
      have hsilent : after.comment = [] ∧ after.newline = false := by
        simpa [Trivia.isSilent] using silent
      exact hsilent.1
    exact .group hne ih (hcomment ▸ .nil)

theorem join_parts (h : e.Canonical) (j : Joint) : join j (e.settled.parts j) = e.settled := by
  cases h with
  | leaf | repeated => rfl
  | @group k items after many _ _ silent =>
    have hsettled : (Expr.group k items [] after).settled = .group k (items.map settled) [] {} := by
      rw [settled, settled_all, Trivia.settled_of_isSilent silent]
    rw [hsettled]
    by_cases hk : k = j
    · subst hk
      rw [parts_group, join_of_many (by simpa using many)]
    · have hjoined : (Expr.group k (items.map settled) [] {}).joinedBy j = false := by
        simpa [joinedBy] using hk
      rw [parts, hjoined]
      rfl

theorem spread_items (h : ∀ e ∈ es, ∀ behind : List Trivia, (∀ t ∈ behind, t.isSilent) →
      e.rereadParts j behind = e.settled.parts j)
    (apart : ∀ e ∈ es, e.joinedBy j = false) (hbehind : ∀ t ∈ behind, t.isSilent) :
    rereadParts.spread j behind es = es.map settled := by
  induction es with
  | nil => rfl
  | cons e es ih =>
    have hsilent : ∀ t ∈ (if es.isEmpty then behind else []), t.isSilent := by
      split
      · exact hbehind
      · simp
    have hjoined : e.settled.joinedBy j = false := by
      rw [joinedBy_settled]
      exact apart e List.mem_cons_self
    have hmore := ih (fun x hx => h x (List.mem_cons_of_mem _ hx))
      fun x hx => apart x (List.mem_cons_of_mem _ hx)
    rw [rereadParts.spread, h e List.mem_cons_self _ hsilent, parts, hjoined, hmore]
    rfl

theorem rereadParts (h : e.Canonical) (j : Joint) (hbehind : ∀ t ∈ behind, t.isSilent) :
    e.rereadParts j behind = e.settled.parts j := by
  induction h generalizing j behind with
  | leaf =>
    rw [Expr.rereadParts, Trivia.merge_cons_of_isSilent hbehind]
    rfl
  | @repeated r body after canonical _ ih =>
    rw [Expr.rereadParts, Trivia.merge_cons_of_isSilent hbehind, ih .choice (by simp),
      canonical.join_parts]
    rfl
  | @group k items after many _ apart silent ih =>
    have hsettled : (Expr.group k items [] after).settled = .group k (items.map settled) [] {} := by
      rw [settled, settled_all, Trivia.settled_of_isSilent silent]
    have hspread : ∀ behind : List Trivia, (∀ t ∈ behind, t.isSilent) →
        rereadParts.spread k behind items = items.map settled :=
      fun _ => spread_items (fun e he behind => ih e he k) apart
    have hjoin : join k (items.map settled) = .group k (items.map settled) [] {} :=
      join_of_many (by simpa using many) k
    have hall : ∀ t ∈ after :: behind, t.isSilent := List.forall_mem_cons.2 ⟨silent, hbehind⟩
    rw [hsettled]
    cases k <;> cases j
    · exact hspread _ hall
    · have hgroup := hspread [after] (List.forall_mem_singleton.2 silent)
      rw [Expr.rereadParts, hgroup, hjoin, Trivia.merge_of_isSilent hbehind, attach_empty]
      rfl
    · rw [Expr.rereadParts, hspread _ hall, hjoin]
      rfl
    · exact hspread _ hall

theorem reread (h : e.Canonical) : e.reread [] = e.settled := by
  rw [Expr.reread, h.rereadParts .choice (by simp), h.join_parts]

end Canonical

end Expr

namespace Production

def settled (p : Production) : Production :=
  { p with rule := p.rule.map fun rule => ⟨rule.name, rule.body.settled⟩ }

variable {p : Production}

theorem Canonical.printable (h : p.Canonical) : p.Printable where
  name := h.name
  body rule hrule := (h.body rule hrule).printable
  comment := h.comment

theorem Canonical.reread (h : p.Canonical) : p.reread id = p.settled := by
  obtain ⟨rule, comment, start, link, linkName⟩ := p
  obtain ⟨-, hbody, -, hstart, rfl, rfl⟩ := h
  cases rule with
  | none =>
    obtain rfl := hstart rfl
    rfl
  | some rule =>
    have hreread := (hbody rule rfl).reread
    simp [Production.reread, settled, hreread]

end Production

namespace Grammar

variable {g : Grammar} {ps : List Production}

namespace Canonical

theorem printable (h : g.Canonical) : g.Printable where
  newline := h.newline
  name := h.name
  productions p hp := (h.productions p hp).printable

theorem productions_settled (h : g.Canonical) :
    g.productions.map (Production.reread id) = g.productions.map Production.settled :=
  List.map_congr_left fun p hp => (h.productions p hp).reread

end Canonical

/-- A canonical grammar is read back from its text, up to blanks and with its layout settled. -/
theorem Canonical.read_back (h : g.Canonical) (source : Text) :
    ∃ g', ofText source [] g.print = .ok g' ∧ g'.name = g.name ∧
      g'.productions.map Production.withoutSpace = g.productions.map Production.settled ∧
      ((∃ c ∈ g.print.trimRight, isLineEnd c) → g'.newline = g.newline) := by
  obtain ⟨g', hg', hname, hkept, hnewline⟩ := h.printable.exists_ofText source
  rw [h.trim_print h.printable] at hnewline
  refine ⟨g', hg', hname, (h.kept hkept).trans h.productions_settled, fun hline => ?_⟩
  rw [hnewline, if_pos (List.any_eq_true.2 hline)]

theorem Canonical.read_back_choice :
    ∃ g : Grammar, g =
        { name := ['G'], newline := ['\n']
          productions := [{ comment := ['x'] }, {},
            { rule := some ⟨['r'], .group .choice [.leaf (.reference ['a']) { newline := true },
                .repeated .zeroOrMore (.leaf (.terminal ['\'']) {}) [] {}] [] {}⟩
              startsOnNewline := true }] } ∧
      g.Canonical ∧
      ∃ g', ofText [] [] g.print = .ok g' ∧ g'.name = g.name ∧
        g'.productions.map Production.withoutSpace = g.productions.map Production.settled ∧
        ((∃ c ∈ g.print.trimRight, isLineEnd c) → g'.newline = g.newline) := by
  have hplain : OneLine [] := ⟨by simp, rfl⟩
  have hcomment : OneLine ['x'] := ⟨by simp [isLineEnd], rfl⟩
  have hquote : (Expr.leaf (.terminal ['\'']) {}).Canonical :=
    .leaf (.terminal (List.forall_mem_singleton.2 rfl) (by rintro ⟨_, h⟩; cases h) (by simp)) hplain
  have hreference : (Expr.leaf (.reference ['a']) { newline := true }).Canonical :=
    .leaf (.reference (bareword_singleton rfl rfl)) hplain
  have hrepeated : (Expr.repeated .zeroOrMore (.leaf (.terminal ['\'']) {}) [] {}).Canonical :=
    .repeated hquote hplain
  have hchoice : (Expr.group .choice [.leaf (.reference ['a']) { newline := true },
      .repeated .zeroOrMore (.leaf (.terminal ['\'']) {}) [] {}] [] {}).Canonical :=
    .group (by simp) (by simp [hreference, hrepeated]) (by simp [Expr.joinedBy]) rfl
  have hg : Canonical
      { name := ['G'], newline := ['\n']
        productions := [{ comment := ['x'] }, {},
          { rule := some ⟨['r'], .group .choice [.leaf (.reference ['a']) { newline := true },
              .repeated .zeroOrMore (.leaf (.terminal ['\'']) {}) [] {}] [] {}⟩
            startsOnNewline := true }] } := by
    refine ⟨⟨by simp, by simp [Production.isBlank]⟩, .inr (.inr rfl),
      .inr (bareword_singleton rfl rfl), ?_⟩
    simp only [List.forall_mem_cons]
    refine ⟨⟨by simp, by simp, hcomment, by simp, rfl, rfl⟩,
      ⟨by simp, by simp, hplain, by simp, rfl, rfl⟩, ⟨?_, ?_, hplain, by simp, rfl, rfl⟩, by simp⟩
    · rintro rule ⟨⟩
      exact bareword_singleton rfl rfl
    · rintro rule ⟨⟩
      exact hchoice
  exact ⟨_, rfl, hg, hg.read_back []⟩

/-- A comment is read back without the blanks at its end and with the end of its line, where none was
recorded with it. -/
theorem Canonical.comment_settled :
    ∃ g g' : Grammar,
      g = { productions :=
        [{ rule := some ⟨['r'], .leaf (.reference ['a']) { comment := ['x', ' '] }⟩ }] } ∧
      g.Canonical ∧ ofText [] [] g.print = .ok g' ∧
      g'.productions.map Production.withoutSpace =
        [{ rule := some ⟨['r'], .leaf (.reference ['a']) { comment := ['x'], newline := true }⟩ }] ∧
      g'.productions.map Production.withoutSpace ≠ g.productions.map Production.withoutSpace := by
  have hbody : (Expr.leaf (.reference ['a']) { comment := ['x', ' '] }).Canonical :=
    .leaf (.reference (bareword_singleton rfl rfl)) ⟨by simp [isLineEnd], rfl⟩
  have hg : Canonical
      { productions :=
        [{ rule := some ⟨['r'], .leaf (.reference ['a']) { comment := ['x', ' '] }⟩ }] } := by
    refine ⟨⟨by simp [Production.isBlank], by simp [Production.isBlank]⟩, .inl rfl, .inl rfl,
      List.forall_mem_singleton.2 ⟨?_, ?_, ⟨by simp, rfl⟩, by simp, rfl, rfl⟩⟩
    · rintro rule ⟨⟩
      exact bareword_singleton rfl rfl
    · rintro rule ⟨⟩
      exact hbody
  obtain ⟨g', hg', -, hkept, -⟩ := hg.printable.exists_ofText []
  have hread := (hg.kept hkept).trans hg.productions_settled
  refine ⟨_, g', rfl, hg, hg', hread, ?_⟩
  rw [hread]
  intro h
  cases h

end Grammar

end GrammarCheck
