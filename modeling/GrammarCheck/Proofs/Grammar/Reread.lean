import GrammarCheck.Grammar.Printer
import GrammarCheck.Proofs.Grammar.NormalForm

/-!
What a printed expression is read back as. Parentheses are printed only where the notation needs
them, so a group within a group of its kind is read as items of the outer one, and layout of its own
is read as layout of its last item.
-/

namespace GrammarCheck

namespace Trivia

/-- Goes on with layout that is written behind other layout. A line end sets the comment before it
apart from one that may follow. -/
def goOn (s t : Trivia) : Trivia :=
  let comment := s.comment ++ t.comment
  if t.newline || !t.comment.isEmpty then
    { newline := true, comment := if comment.isEmpty then [] else comment ++ [' '] }
  else { s with comment := comment }

def merge (ts : List Trivia) : Trivia :=
  let t := ts.foldl goOn {}
  { t with comment := t.comment.trimRight, newline := t.newline || !t.comment.isEmpty }

def settled (t : Trivia) : Trivia where
  comment := t.comment.trimRight
  newline := t.newline || !t.comment.isEmpty

theorem empty_append (t : Trivia) : ({} : Trivia) ++ t = t := rfl

def isSilent (t : Trivia) : Bool := t.comment.isEmpty && !t.newline

variable {t : Trivia} {ts : List Trivia}

theorem goOn_of_isSilent (h : t.isSilent) (s : Trivia) : s.goOn t = s := by
  obtain ⟨hcomment, hnewline⟩ : t.comment = [] ∧ t.newline = false := by simpa [isSilent] using h
  simp [goOn, hcomment, hnewline]

theorem merge_filter (ts : List Trivia) : merge (ts.filter (!·.isSilent)) = merge ts := by
  have hstep : (fun s t : Trivia => if !t.isSilent then s.goOn t else s) = goOn := by
    funext s t
    by_cases h : t.isSilent
    · simp [h, goOn_of_isSilent h s]
    · simp [h]
  rw [merge, List.foldl_filter, hstep, merge]

theorem filter_of_isSilent (h : ∀ t ∈ ts, t.isSilent) : ts.filter (!·.isSilent) = [] :=
  List.filter_eq_nil_iff.2 fun t ht => by simp [h t ht]

theorem merge_of_isSilent (h : ∀ t ∈ ts, t.isSilent) : merge ts = {} := by
  rw [← merge_filter, filter_of_isSilent h]
  rfl

theorem merge_singleton (t : Trivia) : merge [t] = t.settled := by
  obtain ⟨whitespace, comment, newline⟩ := t
  have htrim : (comment ++ [' ']).trimRight = comment.trimRight := by
    rw [Text.trimRight, List.reverse_append]
    rfl
  cases comment with
  | nil => cases newline <;> rfl
  | cons c comment => simpa [merge, goOn, settled] using htrim

theorem merge_cons_of_isSilent (h : ∀ u ∈ ts, u.isSilent) (t : Trivia) :
    merge (t :: ts) = t.settled := by
  rw [← merge_filter, List.filter_cons, filter_of_isSilent h, ← merge_singleton,
    ← merge_filter [t], List.filter_cons, List.filter_nil]

theorem settled_of_isSilent (h : t.isSilent) : t.settled = {} := by
  rw [← merge_singleton]
  exact merge_of_isSilent (List.forall_mem_singleton.2 h)

end Trivia

namespace Expr

/-- What an expression is read back as where it is printed as an item of a group, if the layouts
`behind` follow it. -/
def rereadParts (j : Joint) (behind : List Trivia) : Expr → List Expr
  | .leaf l after => [.leaf l (.merge (after :: behind))]
  | .repeated r body _ after =>
    [.repeated r (join .choice (body.rereadParts .choice [])) [] (.merge (after :: behind))]
  | .group k items _ after =>
    match k, j with
    | .choice, .sequence => [(join .choice (spread .choice [after] items)).attach (.merge behind)]
    | .sequence, .choice => [join .sequence (spread .sequence (after :: behind) items)]
    | k, _ => spread k (after :: behind) items
where
  spread (j : Joint) (behind : List Trivia) : List Expr → List Expr
    | [] => []
    | e :: es => e.rereadParts j (if es.isEmpty then behind else []) ++ spread j behind es

def reread (behind : List Trivia) (e : Expr) : Expr := join .choice (e.rereadParts .choice behind)

theorem join_of_many {es : List Expr} (h : 2 ≤ es.length) (j : Joint) :
    join j es = .group j es [] {} := by
  match es, h with
  | _ :: _ :: _, _ => rfl

def withoutSpace : Expr → Expr
  | .leaf l after => .leaf l after.withoutSpace
  | .repeated r body label after => .repeated r body.withoutSpace label after.withoutSpace
  | .group j items label after => .group j (all items) label after.withoutSpace
where
  all : List Expr → List Expr
    | [] => []
    | e :: es => e.withoutSpace :: all es

theorem withoutSpace_all (es : List Expr) : withoutSpace.all es = es.map withoutSpace := by
  induction es with
  | nil => rfl
  | cons e es ih => rw [withoutSpace.all, ih, List.map_cons]

theorem withoutSpace_attach (t : Trivia) (e : Expr) :
    (e.attach t).withoutSpace = e.withoutSpace.attach t.withoutSpace := by
  cases e <;> rfl

theorem withoutSpace_join (j : Joint) (es : List Expr) :
    (join j es).withoutSpace = join j (es.map withoutSpace) := by
  match es with
  | [] => rfl
  | [e] => rfl
  | _ :: _ :: es =>
    rw [← withoutSpace_all]
    rfl

end Expr

namespace Production

def reread (part : Text → Text) (p : Production) : Production :=
  match p.rule with
  | none => { comment := part p.comment }
  | some rule =>
    { rule := some ⟨rule.name, rule.body.reread []⟩
      comment := part p.comment
      startsOnNewline := p.startsOnNewline }

def withoutSpace (p : Production) : Production :=
  { p with rule := p.rule.map fun rule => ⟨rule.name, rule.body.withoutSpace⟩ }

end Production

end GrammarCheck
