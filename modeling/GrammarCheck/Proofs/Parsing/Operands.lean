import GrammarCheck.Proofs.Notation.Gist
import GrammarCheck.Proofs.Parsing.Acceptance

namespace GrammarCheck

namespace Expr

def leaves : Expr → List Leaf
  | .leaf l _ => [l]
  | .repeated _ body _ _ => body.leaves
  | .group _ items _ _ => all items
where
  all : List Expr → List Leaf
    | [] => []
    | e :: es => e.leaves ++ all es

variable {j : Joint} {e : Expr} {es : List Expr}

theorem leaves_all (es : List Expr) : leaves.all es = es.flatMap leaves := by
  induction es with
  | nil => rfl
  | cons e es ih => rw [leaves.all, ih, List.flatMap_cons]

@[simp] theorem leaves_group (j : Joint) (items : List Expr) (label : Text) (after : Trivia) :
    (group j items label after).leaves = items.flatMap leaves := by
  rw [leaves, leaves_all]

theorem leaves_gather (j : Joint) (label : Text) (es : List Expr) :
    (gather j label es).leaves = es.flatMap leaves := by
  match es with
  | [] => rfl
  | [e] => rw [gather, List.flatMap_singleton]
  | _ :: _ :: _ => exact leaves_group ..

theorem flatMap_leaves_parts (j : Joint) (e : Expr) : (e.parts j).flatMap leaves = e.leaves := by
  rw [parts]
  split
  · cases e with
    | leaf | repeated => contradiction
    | group => rw [children, leaves_group]
  · rw [List.flatMap_singleton]

@[simp] theorem leaves_normal (e : Expr) : e.normal.leaves = e.leaves := by
  induction e with
  | leaf => rfl
  | repeated r body label after ih => rw [normal, leaves, leaves, ih]
  | group j items label after ih =>
    rw [normal_group, leaves_gather, leaves_group, List.flatMap_assoc]
    exact List.flatMap_congr fun e he => by rw [flatMap_leaves_parts, ih e he]

end Expr

def isOperand (s : Symbol) : Bool := s.1 == .word || s.1 == .terminal

def operands (ss : List Symbol) : Nat := ss.countP isOperand

variable {ss ss' : List Symbol} {s : Symbol} {es : List Expr} {ts : List Token}
  {rules rules' : List (Text × Expr)}

@[simp] theorem operands_append (ss ss' : List Symbol) :
    operands (ss ++ ss') = operands ss + operands ss' :=
  List.countP_append

theorem operands_cons_of_operand (h : isOperand s) (ss : List Symbol) :
    operands (s :: ss) = operands ss + 1 :=
  List.countP_cons_of_pos h

theorem operands_cons_of_mark (h : isOperand s = false) (ss : List Symbol) :
    operands (s :: ss) = operands ss :=
  List.countP_cons_of_neg (by simp [h])

theorem operands_filter {q : Symbol → Bool} (hq : ∀ s, isOperand s → q s) (ss : List Symbol) :
    operands (ss.filter q) = operands ss := by
  rw [operands, List.countP_filter]
  refine List.countP_congr fun s _ => ?_
  simpa using hq s

theorem isOperand_cases (h : isOperand s) : s.1 = .word ∨ s.1 = .terminal := by
  simpa [isOperand] using h

theorem operands_significant (ss : List Symbol) : operands (significant ss) = operands ss := by
  refine operands_filter (fun s hs => ?_) ss
  obtain hs | hs := isOperand_cases hs <;> simp [hs, Token.Kind.isTrivia]

theorem isOperand_noted (s : Symbol) : isOperand (noted s) = isOperand s := by
  unfold noted
  split
  · rename_i hs
    simp [isOperand, hs]
  · rfl

theorem operands_gist (ss : List Symbol) : operands (gist ss) = operands ss := by
  have hmap : ∀ ss, operands (ss.map noted) = operands ss := fun ss => by
    rw [operands, List.countP_map]
    exact List.countP_congr fun s _ => by rw [Function.comp, isOperand_noted]
  rw [gist, hmap]
  refine operands_filter (fun s hs => ?_) ss
  obtain hs | hs := isOperand_cases hs <;> simp [hs]

theorem operands_meaning (ts : List Token) : operands (meaning ts) = operands (ts.map Token.symbol) := by
  rw [meaning_eq_significant, operands_significant]

theorem Expr.leaves_join (j : Joint) (es : List Expr) : (join j es).leaves = es.flatMap leaves := by
  rw [join_eq_gather, leaves_gather]

theorem Derives.operands_eq {part : Nonterminal} (h : Derives part ss es) :
    operands ss = (es.flatMap Expr.leaves).length := by
  induction h with
  | choice _ ih | sequence _ ih => rwa [List.flatMap_singleton, Expr.leaves_join]
  | barredChoice _ ih =>
    rwa [operands_cons_of_mark rfl, List.flatMap_singleton, Expr.leaves_join]
  | lastAlternative _ ih | lastItem _ ih | atom _ ih => exact ih
  | alternative _ _ ih ih' =>
    rw [operands_append, operands_cons_of_mark rfl, ih, ih', List.flatMap_singleton,
      List.flatMap_cons, List.length_append]
  | item _ _ ih ih' =>
    rw [operands_append, ih, ih', List.flatMap_singleton, List.flatMap_cons, List.length_append]
  | @repeated v _ _ r _ ih =>
    have hmark : isOperand (r.kind, v) = false := by cases r <;> rfl
    rw [operands_append, operands_cons_of_mark hmark, ih]
    rfl
  | group _ ih =>
    rw [List.cons_append, operands_cons_of_mark rfl, operands_append, operands_cons_of_mark rfl, ih]
    rfl
  | terminal | reference => rfl

def rulesSize (rules : List (Text × Expr)) : Nat :=
  rules.length + (rules.flatMap (·.2.leaves)).length

theorem rulesSize_append (rules rules' : List (Text × Expr)) :
    rulesSize (rules ++ rules') = rulesSize rules + rulesSize rules' := by
  rw [rulesSize, rulesSize, rulesSize, List.length_append, List.flatMap_append, List.length_append]
  omega

theorem rulesSize_singleton (rule : Text × Expr) : rulesSize [rule] = rule.2.leaves.length + 1 := by
  rw [rulesSize, List.length_singleton, List.flatMap_singleton, Nat.add_comm]

theorem rulesSize_eq_of_normal (h : (rules.map fun rule => (rule.1, rule.2.normal)) =
    rules'.map fun rule => (rule.1, rule.2.normal)) : rulesSize rules = rulesSize rules' := by
  have hnames := congrArg List.length h
  have hleaves := congrArg (fun pairs => (pairs.flatMap (·.2.leaves)).length) h
  simp only [List.length_map] at hnames
  simp only [List.flatMap_map, Expr.leaves_normal] at hleaves
  rw [rulesSize, rulesSize, hnames, hleaves]

theorem DerivesRule.operands_eq {rule : Text × Expr} (h : DerivesRule ts rule) :
    operands (ts.map Token.symbol) = rule.2.leaves.length + 1 := by
  cases h with
  | @mk name colon breaks body e isName areBreaks isColon _ derived =>
    have hbody := derived.operands_eq
    rw [operands_meaning, List.flatMap_singleton] at hbody
    have hbreaks : operands (breaks.map Token.symbol) = 0 := by
      rw [operands, List.countP_eq_zero]
      intro s hs
      obtain ⟨t, ht, rfl⟩ := List.mem_map.1 hs
      obtain hkind | hkind := areBreaks t ht <;> simp [isOperand, Token.symbol, hkind]
    have hname : isOperand name.symbol := by simp [isOperand, Token.symbol, isName]
    have hcolon : isOperand colon.symbol = false := by simp [isOperand, Token.symbol, isColon]
    rw [List.map_cons, operands_cons_of_operand hname, List.map_append, operands_append, hbreaks,
      List.map_cons, operands_cons_of_mark hcolon, hbody, Nat.zero_add]

theorem DerivesGrammar.rulesSize_le (h : DerivesGrammar ts rules) :
    rulesSize rules ≤ operands (ts.map Token.symbol) := by
  induction h with
  | nil => exact Nat.zero_le _
  | @cons ts ts' rules rules' hentry _ ih =>
    have hsize : rulesSize rules ≤ operands (ts.map Token.symbol) := by
      cases hentry with
      | layout | header => exact Nat.zero_le _
      | rule hrule =>
        rw [List.map_append, operands_append, hrule.operands_eq, rulesSize_singleton]
        exact Nat.le_add_right _ _
    rw [List.map_append, operands_append, rulesSize_append]
    exact Nat.add_le_add hsize ih
  | openRule hrule => rw [hrule.operands_eq, rulesSize_singleton]

end GrammarCheck
