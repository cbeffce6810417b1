import GrammarCheck.Grammar.Expr
import Mathlib.Data.List.Basic

namespace GrammarCheck.Expr

def erase : Expr → Expr
  | .leaf l _ => .leaf l {}
  | .repeated r body label _ => .repeated r body.erase label {}
  | .group j items label _ => .group j (eraseAll items) label {}
where
  eraseAll : List Expr → List Expr
    | [] => []
    | e :: es => e.erase :: eraseAll es

@[simp] theorem erase_attach (t : Trivia) (e : Expr) : (e.attach t).erase = e.erase := by
  cases e <;> rfl

theorem eraseAll_eq_map (es : List Expr) : erase.eraseAll es = es.map erase := by
  induction es with
  | nil => rfl
  | cons e es ih => rw [erase.eraseAll, ih, List.map_cons]

theorem erase_join (j : Joint) (es : List Expr) : (join j es).erase = join j (es.map erase) := by
  match es with
  | [] => rfl
  | [e] => rfl
  | _ :: _ :: es =>
    rw [← eraseAll_eq_map]
    rfl

variable {j : Joint} {e : Expr} {es : List Expr}

@[induction_eliminator, elab_as_elim]
theorem induction {motive : Expr → Prop} (leaf : ∀ l after, motive (.leaf l after))
    (repeated : ∀ r body label after, motive body → motive (.repeated r body label after))
    (group : ∀ j items label after, (∀ e ∈ items, motive e) → motive (.group j items label after))
    (e : Expr) : motive e :=
  @Expr.rec motive (fun es => ∀ e ∈ es, motive e) leaf repeated group (by simp)
    (fun _ _ he hes => List.forall_mem_cons.2 ⟨he, hes⟩) e

def joinedBy (j : Joint) : Expr → Bool
  | .group j' _ _ _ => j' == j
  | _ => false

/-- What an expression adds to a group of this kind that it is an item of. -/
def parts (j : Joint) (e : Expr) : List Expr := if e.joinedBy j then e.children else [e]

def gather (j : Joint) (label : Text) : List Expr → Expr
  | [e] => e
  | items => .group j items label {}

/-- The same expression without layout, without groups of one item, and with the items of groups
within groups of their kind drawn up into these. -/
def normal : Expr → Expr
  | .leaf l _ => .leaf l {}
  | .repeated r body label _ => .repeated r body.normal label {}
  | .group j items label _ => gather j label (spliced j items)
where
  spliced (j : Joint) : List Expr → List Expr
    | [] => []
    | e :: es => e.normal.parts j ++ spliced j es

theorem spliced_eq_flatMap (j : Joint) (es : List Expr) :
    normal.spliced j es = es.flatMap fun e => e.normal.parts j := by
  induction es with
  | nil => rfl
  | cons e es ih => rw [normal.spliced, ih, List.flatMap_cons]

theorem normal_group (j : Joint) (items : List Expr) (label : Text) (after : Trivia) :
    (group j items label after).normal =
      gather j label (items.flatMap fun e => e.normal.parts j) := by
  rw [normal, spliced_eq_flatMap]

@[simp] theorem parts_group (j : Joint) (items : List Expr) (label : Text) (after : Trivia) :
    (group j items label after).parts j = items := by
  simp [parts, joinedBy, children]

theorem parts_of_not_joinedBy (h : e.joinedBy j = false) : e.parts j = [e] := by
  simp [parts, h]

inductive IsNormal : Expr → Prop
  | leaf {l : Leaf} : IsNormal (.leaf l {})
  | repeated {r : Repetition} {body : Expr} {label : Text} (isNormal : IsNormal body) :
    IsNormal (.repeated r body label {})
  | group {j : Joint} {items : List Expr} {label : Text}
      (areNormal : ∀ e ∈ items, IsNormal e)
      (notJoined : ∀ e ∈ items, e.joinedBy j = false) (notOne : items.length ≠ 1) :
    IsNormal (.group j items label {})

theorem IsNormal.of_mem_parts (h : IsNormal e) {x : Expr} (hx : x ∈ e.parts j) :
    IsNormal x ∧ x.joinedBy j = false := by
  by_cases hj : e.joinedBy j
  · cases h with
    | leaf | repeated => cases hj
    | group areNormal notJoined =>
      obtain rfl : _ = j := by simpa [joinedBy] using hj
      rw [parts_group] at hx
      exact ⟨areNormal x hx, notJoined x hx⟩
  · rw [Bool.not_eq_true] at hj
    rw [parts_of_not_joinedBy hj, List.mem_singleton] at hx
    subst hx
    exact ⟨h, hj⟩

theorem gather_isNormal (label : Text) (h : ∀ e ∈ es, IsNormal e ∧ e.joinedBy j = false) :
    IsNormal (gather j label es) := by
  match es with
  | [] => exact .group (by simp) (by simp) (by simp)
  | [e] => exact (h e (by simp)).1
  | e :: e' :: es => exact .group (fun x hx => (h x hx).1) (fun x hx => (h x hx).2) (by simp)

theorem normal_isNormal (e : Expr) : IsNormal e.normal := by
  induction e with
  | leaf l after => exact .leaf
  | repeated r body label after ih => exact .repeated ih
  | group j items label after ih =>
    rw [normal_group]
    apply gather_isNormal label
    intro x hx
    obtain ⟨item, hitem, hx⟩ := List.mem_flatMap.1 hx
    exact (ih item hitem).of_mem_parts hx

theorem gather_of_length (h : es.length ≠ 1) (j : Joint) (label : Text) :
    gather j label es = .group j es label {} := by
  match es with
  | [] => rfl
  | [_] => exact absurd rfl h
  | _ :: _ :: _ => rfl

theorem parts_gather (h : ∀ e ∈ es, e.joinedBy j = false) (label : Text) :
    (gather j label es).parts j = es := by
  match es with
  | [] => exact parts_group ..
  | [e] => exact parts_of_not_joinedBy (h e (by simp))
  | _ :: _ :: _ => exact parts_group ..

theorem parts_normal_group (j : Joint) (items : List Expr) (label : Text) (after : Trivia) :
    (group j items label after).normal.parts j = items.flatMap fun e => e.normal.parts j := by
  rw [normal_group, parts_gather]
  intro x hx
  obtain ⟨item, -, hx⟩ := List.mem_flatMap.1 hx
  exact ((normal_isNormal item).of_mem_parts hx).2

theorem IsNormal.normal_eq (h : IsNormal e) : e.normal = e := by
  induction h with
  | leaf => rfl
  | repeated _ ih => rw [normal, ih]
  | @group j items label _ notJoined notOne ih =>
    have hitems : items.flatMap (fun e => e.normal.parts j) = items := by
      calc items.flatMap (fun e => e.normal.parts j)
        _ = items.flatMap fun e => [e] := List.flatMap_congr fun e he => by
          rw [ih e he, parts_of_not_joinedBy (notJoined e he)]
        _ = items := List.flatMap_singleton' items
    rw [normal_group, hitems, gather_of_length notOne]

@[simp] theorem normal_normal (e : Expr) : e.normal.normal = e.normal :=
  (normal_isNormal e).normal_eq

@[simp] theorem normal_erase (e : Expr) : e.erase.normal = e.normal := by
  induction e with
  | leaf l after => rfl
  | repeated r body label after ih => rw [erase, normal, normal, ih]
  | group j items label after ih =>
    rw [erase, eraseAll_eq_map, normal_group, normal_group, List.flatMap_map]
    congr 1
    exact List.flatMap_congr fun e he => by rw [ih e he]

inductive Unlabelled : Expr → Prop
  | leaf {l : Leaf} {after : Trivia} : Unlabelled (.leaf l after)
  | repeated {r : Repetition} {body : Expr} {after : Trivia} (unlabelled : Unlabelled body) :
    Unlabelled (.repeated r body [] after)
  | group {j : Joint} {items : List Expr} {after : Trivia}
      (unlabelled : ∀ e ∈ items, Unlabelled e) :
    Unlabelled (.group j items [] after)

theorem join_eq_gather (j : Joint) (es : List Expr) : join j es = gather j [] es := by
  match es with
  | [] => rfl
  | [_] => rfl
  | _ :: _ :: _ => rfl

theorem Unlabelled.gather (h : ∀ e ∈ es, Unlabelled e) : Unlabelled (gather j [] es) := by
  match es with
  | [] => exact .group (by simp)
  | [e] => exact h e (by simp)
  | _ :: _ :: _ => exact .group h

theorem Unlabelled.of_mem_parts (h : Unlabelled e) {x : Expr} (hx : x ∈ e.parts j) :
    Unlabelled x := by
  rw [parts] at hx
  split at hx
  · cases h with
    | leaf => cases hx
    | repeated h =>
      cases List.mem_singleton.1 hx
      exact h
    | group h => exact h x hx
  · cases List.mem_singleton.1 hx
    exact h

theorem Unlabelled.normal (h : Unlabelled e) : Unlabelled e.normal := by
  induction h with
  | leaf => exact .leaf
  | repeated _ ih => exact .repeated ih
  | group _ ih =>
    rw [normal_group]
    apply Unlabelled.gather
    intro x hx
    obtain ⟨item, hitem, hpart⟩ := List.mem_flatMap.1 hx
    exact (ih item hitem).of_mem_parts hpart

theorem Unlabelled.gather_parts_normal (h : Unlabelled e) (j : Joint) :
    Expr.gather j [] (e.normal.parts j) = e.normal := by
  by_cases hj : e.normal.joinedBy j
  · have hnormal := normal_isNormal e
    have hunlabelled := h.normal
    generalize e.normal = n at hj hnormal hunlabelled
    cases hnormal with
    | leaf | repeated => cases hj
    | group _ _ notOne =>
      obtain rfl : _ = j := by simpa [joinedBy] using hj
      cases hunlabelled
      rw [parts_group, gather_of_length notOne]
  · rw [Bool.not_eq_true] at hj
    rw [parts_of_not_joinedBy hj]
    rfl

theorem normal_join (h : ∀ e ∈ es, Unlabelled e) (j : Joint) :
    (join j es).normal = gather j [] (es.flatMap fun e => e.normal.parts j) := by
  match es with
  | [] => rfl
  | [e] =>
    rw [List.flatMap_cons, List.flatMap_nil, List.append_nil,
      (h e List.mem_cons_self).gather_parts_normal]
    rfl
  | _ :: _ :: _ => exact normal_group ..

end GrammarCheck.Expr
