import GrammarCheck.Proofs.Notation.Spells

namespace GrammarCheck

inductive Leaf.Printable : Leaf → Prop
  | terminal {text : Text} (oneLine : ∀ c ∈ text, isLineEnd c = false) (notAngled : ¬ Angled text)
      (oneQuote : ¬ ('\'' ∈ text ∧ '"' ∈ text)) : Printable (.terminal text)
  | special {text : Text} (oneLine : ∀ c ∈ text, isLineEnd c = false) (nonempty : text ≠ [])
      (noQuestion : '?' ∉ text) : Printable (.special text)
  | reference {name : Text} (bareword : Bareword name) : Printable (.reference name)

inductive Expr.Printable : Expr → Prop
  | leaf {l : Leaf} {after : Trivia} (leaf : l.Printable) (comment : OneLine after.comment) :
    Printable (.leaf l after)
  | repeated {r : Repetition} {body : Expr} {after : Trivia} (printable : Printable body)
      (comment : OneLine after.comment) : Printable (.repeated r body [] after)
  | group {j : Joint} {items : List Expr} {after : Trivia} (nonempty : items ≠ [])
      (printable : ∀ e ∈ items, Printable e) (comment : OneLine after.comment) :
    Printable (.group j items [] after)

def Leaf.symbol : Leaf → Symbol
  | .terminal text => (.terminal, text)
  | .special text => (.terminal, '<' :: text ++ ['>'])
  | .reference name => (.word, name)

def Joint.separator : Joint → List Symbol
  | .choice => [(.bar, ['|'])]
  | .sequence => []

def Joint.part : Joint → Nonterminal
  | .choice => .alternatives
  | .sequence => .items

def encloseSymbols (inParens : Bool) (ss : List Symbol) : List Symbol :=
  if inParens then (.openParen, ['(']) :: ss ++ [(.closeParen, [')'])] else ss

@[simp] theorem encloseSymbols_false (ss : List Symbol) : encloseSymbols false ss = ss := rfl

def Expr.symbols : Expr → List Symbol
  | .leaf l _ => [l.symbol]
  | .repeated r body _ _ => encloseSymbols body.isGroup body.symbols ++ [(r.kind, [r.mark])]
  | .group _ [] _ _ => []
  | .group j (e :: es) _ _ => encloseSymbols (j.encloses e) e.symbols ++ further j es
where
  further (j : Joint) : List Expr → List Symbol
    | [] => []
    | e :: es => j.separator ++ encloseSymbols (j.encloses e) e.symbols ++ further j es

namespace Derives

variable {ss ss' : List Symbol} {es es' : List Expr} {e : Expr} {v : Text}

theorem items_append (h : Derives .items ss es) (h' : Derives .items ss' es') :
    Derives .items (ss ++ ss') (es ++ es') := by
  generalize hpart : Nonterminal.items = part at h
  induction h with
  | lastItem head => exact .item head h'
  | item head _ _ ih =>
    rw [List.append_assoc]
    exact .item head (ih hpart)
  | _ => cases hpart

theorem alternatives_append (h : Derives .alternatives ss es)
    (h' : Derives .alternatives ss' es') :
    Derives .alternatives (ss ++ (.bar, v) :: ss') (es ++ es') := by
  generalize hpart : Nonterminal.alternatives = part at h
  induction h with
  | lastAlternative head => exact .alternative head h'
  | alternative head _ _ ih =>
    rw [List.append_assoc, List.cons_append]
    exact .alternative head (ih hpart)
  | _ => cases hpart

theorem parts_append {j : Joint} (h : Derives j.part ss es) (h' : Derives j.part ss' es') :
    Derives j.part (ss ++ (j.separator ++ ss')) (es ++ es') := by
  cases j with
  | choice => exact h.alternatives_append h'
  | sequence => exact h.items_append h'

theorem unlabelled {part : Nonterminal} (h : Derives part ss es) : ∀ e ∈ es, e.Unlabelled := by
  induction h with
  | choice _ ih | barredChoice _ ih | sequence _ ih =>
    rw [Expr.join_eq_gather]
    exact List.forall_mem_singleton.2 (Expr.Unlabelled.gather ih)
  | lastAlternative _ ih | lastItem _ ih | atom _ ih | group _ ih => exact ih
  | alternative _ _ ih ih' | item _ _ ih ih' =>
    exact List.forall_mem_cons.2 ⟨List.forall_mem_singleton.1 ih, ih'⟩
  | repeated _ ih => exact List.forall_mem_singleton.2 (.repeated (List.forall_mem_singleton.1 ih))
  | terminal | reference => exact List.forall_mem_singleton.2 .leaf

end Derives

namespace Expr

variable {e : Expr} {j : Joint} {ss : List Symbol}

theorem Printable.unlabelled (h : Printable e) : e.Unlabelled := by
  induction h with
  | leaf => exact .leaf
  | repeated _ _ ih => exact .repeated ih
  | group _ _ _ ih => exact .group ih

def Gathers (j : Joint) (es : List Expr) (e : Expr) : Prop :=
  es.flatMap (fun d => d.normal.parts j) = e.normal.parts j

/-- Symbols stand for an expression as an operand and as parts of a group. -/
structure Denoted (e : Expr) : Prop where
  unary : ∃ d, Derives .unary (encloseSymbols e.isGroup e.symbols) [d] ∧ d.normal = e.normal
  parts (j : Joint) : ∃ ds, Derives j.part (encloseSymbols (j.encloses e) e.symbols) ds ∧
    Gathers j ds e

theorem items_of_unary (h : ∃ d, Derives .unary ss [d] ∧ d.normal = e.normal) :
    ∃ ds, Derives .items ss ds ∧ Gathers .sequence ds e := by
  obtain ⟨d, hd, hnormal⟩ := h
  exact ⟨[d], .lastItem hd, by simp [Gathers, hnormal]⟩

theorem alternatives_of_items (hu : e.Unlabelled)
    (h : ∃ ds, Derives .items ss ds ∧ Gathers .sequence ds e) :
    ∃ ds, Derives .alternatives ss ds ∧ Gathers .choice ds e := by
  obtain ⟨ds, hds, hgathers⟩ := h
  refine ⟨_, .lastAlternative (.sequence hds), ?_⟩
  rw [Gathers, List.flatMap_singleton, normal_join hds.unlabelled, hgathers,
    hu.gather_parts_normal]

theorem choice_of_alternatives (hu : e.Unlabelled)
    (h : ∃ ds, Derives .alternatives ss ds ∧ Gathers .choice ds e) :
    ∃ d, Derives .choice ss [d] ∧ d.normal = e.normal := by
  obtain ⟨ds, hds, hgathers⟩ := h
  refine ⟨_, .choice hds, ?_⟩
  rw [normal_join hds.unlabelled, hgathers, hu.gather_parts_normal]

theorem unary_of_choice (h : ∃ d, Derives .choice ss [d] ∧ d.normal = e.normal) :
    ∃ d, Derives .unary (encloseSymbols true ss) [d] ∧ d.normal = e.normal := by
  obtain ⟨d, hd, hnormal⟩ := h
  exact ⟨d, .atom (.group hd), hnormal⟩

theorem parts_of_group {es : List Expr} (h : ∀ x ∈ e :: es, Denoted x) :
    ∃ ds, Derives j.part (encloseSymbols (j.encloses e) e.symbols ++ symbols.further j es) ds ∧
      ds.flatMap (fun d => d.normal.parts j) = (e :: es).flatMap fun x => x.normal.parts j := by
  induction es generalizing e with
  | nil =>
    obtain ⟨ds, hds, hgathers⟩ := (h e List.mem_cons_self).parts j
    refine ⟨ds, by rwa [symbols.further, List.append_nil], ?_⟩
    rw [List.flatMap_singleton, hgathers]
  | cons e' es ih =>
    obtain ⟨ds, hds, hgathers⟩ := (h e List.mem_cons_self).parts j
    obtain ⟨ds', hds', hgathers'⟩ := ih fun x hx => h x (List.mem_cons_of_mem _ hx)
    refine ⟨ds ++ ds', ?_, ?_⟩
    · rw [symbols.further, List.append_assoc]
      exact hds.parts_append hds'
    · rw [List.flatMap_append, hgathers, hgathers', List.flatMap_cons (x := e)]

theorem Denoted.of_unary (hu : e.Unlabelled) (hchoice : e.isChoice = false)
    (h : ∃ d, Derives .unary e.symbols [d] ∧ d.normal = e.normal) (hgroup : e.isGroup = false) :
    Denoted e where
  unary := by rwa [hgroup]
  parts j := by
    cases j with
    | choice => exact alternatives_of_items hu (items_of_unary h)
    | sequence =>
      rw [Joint.encloses, hchoice]
      exact items_of_unary h

theorem Printable.denoted (h : Printable e) : Denoted e := by
  induction h with
  | @leaf l after leaf _ =>
    have hatom : Derives .atom [l.symbol] [.leaf l {}] := by
      cases leaf with
      | terminal _ notAngled oneQuote => exact .terminal (.plain notAngled oneQuote)
      | special _ nonempty noQuestion => exact .terminal (.special nonempty noQuestion)
      | reference => exact .reference
    exact .of_unary .leaf rfl ⟨_, .atom hatom, rfl⟩ rfl
  | @repeated r body after printable _ ih =>
    obtain ⟨d, hd, hnormal⟩ := ih.unary
    refine .of_unary (.repeated printable.unlabelled) rfl ⟨_, .repeated hd, ?_⟩ rfl
    rw [normal, normal, hnormal]
  | @group j items after nonempty printable _ ih =>
    have hu : (Expr.group j items [] after).Unlabelled :=
      .group fun e he => (printable e he).unlabelled
    obtain ⟨e, es, rfl⟩ := List.exists_cons_of_ne_nil nonempty
    have hparts : ∃ ds, Derives j.part (Expr.group j (e :: es) [] after).symbols ds ∧
        Gathers j ds (.group j (e :: es) [] after) := by
      obtain ⟨ds, hds, hgathers⟩ := parts_of_group ih
      exact ⟨ds, hds, hgathers.trans (parts_normal_group ..).symm⟩
    cases j with
    | choice =>
      have hunary := unary_of_choice (choice_of_alternatives hu hparts)
      refine ⟨hunary, fun j => ?_⟩
      cases j with
      | choice => exact hparts
      | sequence => exact items_of_unary hunary
    | sequence =>
      have halternatives := alternatives_of_items hu hparts
      refine ⟨unary_of_choice (choice_of_alternatives hu halternatives), fun j => ?_⟩
      cases j with
      | choice => exact halternatives
      | sequence => exact hparts

theorem Printable.derives (h : Printable e) :
    ∃ d, Derives .choice e.symbols [d] ∧ d.normal = e.normal :=
  choice_of_alternatives h.unlabelled (h.denoted.parts .choice)

end Expr

end GrammarCheck
