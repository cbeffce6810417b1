import GrammarCheck.Proofs.Grammar.NormalForm

namespace GrammarCheck.Expr

variable {d e : Expr} {es : List Expr} {j : Joint} {P : Trivia → Prop} {t : Trivia}

def nodes : Expr → List Expr
  | .leaf l after => [.leaf l after]
  | .repeated r body label after => .repeated r body label after :: body.nodes
  | .group j items label after => .group j items label after :: all items
where
  all : List Expr → List Expr
    | [] => []
    | e :: es => e.nodes ++ all es

theorem nodes_all (es : List Expr) : nodes.all es = es.flatMap nodes := by
  induction es with
  | nil => rfl
  | cons e es ih => rw [nodes.all, ih, List.flatMap_cons]

theorem nodes_eq (e : Expr) : e.nodes = e :: e.children.flatMap nodes := by
  cases e with
  | leaf l after => rfl
  | repeated r body label after => rw [nodes, children, List.flatMap_singleton]
  | group j items label after => rw [nodes, nodes_all, children]

@[simp] theorem children_attach (t : Trivia) (e : Expr) : (e.attach t).children = e.children := by
  cases e <;> rfl

theorem forall_mem_nodes {Q : Expr → Prop} (down : ∀ e, Q e → ∀ d ∈ e.children, Q d) (h : Q e) :
    ∀ d ∈ e.nodes, Q d := by
  induction e with
  | leaf l after => exact List.forall_mem_singleton.2 h
  | repeated r body label after ih =>
    rw [nodes]
    exact List.forall_mem_cons.2 ⟨h, ih (down _ h body List.mem_cons_self)⟩
  | group j items label after ih =>
    rw [nodes, nodes_all]
    exact List.forall_mem_cons.2
      ⟨h, List.forall_mem_flatMap.2 fun e he => ih e he (down _ h e he)⟩

def CarriesOnly (P : Trivia → Prop) (e : Expr) : Prop := ∀ d ∈ e.nodes, P d.after

theorem carriesOnly_iff :
    e.CarriesOnly P ↔ P e.after ∧ ∀ d ∈ e.children, d.CarriesOnly P := by
  simp only [CarriesOnly, nodes_eq e, List.forall_mem_cons, List.forall_mem_flatMap]

theorem CarriesOnly.attach (h : e.CarriesOnly P) (ht : P (e.after ++ t)) :
    (e.attach t).CarriesOnly P := by
  rw [carriesOnly_iff, after_attach, children_attach]
  exact ⟨ht, (carriesOnly_iff.1 h).2⟩

theorem CarriesOnly.join (hempty : P {}) (h : ∀ e ∈ es, e.CarriesOnly P) :
    (Expr.join j es).CarriesOnly P := by
  match es with
  | [e] => exact h e List.mem_cons_self
  | [] | _ :: _ :: _ => exact carriesOnly_iff.2 ⟨hempty, h⟩

end GrammarCheck.Expr
