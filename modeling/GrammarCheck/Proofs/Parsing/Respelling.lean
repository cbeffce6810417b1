import GrammarCheck.Grammar.Parsing.Entries
import GrammarCheck.Proofs.Grammar.Reread
import GrammarCheck.Proofs.Parsing.Completeness

/-!
Respelling of tokens: at other places, with line ends spelled in another way, and with or without the
blanks within lines. Layout is looked up in respelled tokens as in the tokens themselves.
-/

namespace GrammarCheck

open Parsing

structure Respelling where
  keepsSpace : Bool
  token : Token → Token
  kind_token : ∀ t, (token t).kind = t.kind
  value_token : ∀ t, t.kind ≠ .newline → (token t).value = t.value

namespace Respelling

variable (ρ : Respelling) {t : Token} {ts : List Token}

def keeps (t : Token) : Bool := ρ.keepsSpace || t.kind != .whitespace

def tokens (ts : List Token) : List Token := (ts.filter ρ.keeps).map ρ.token

def trivia (t : Trivia) : Trivia := if ρ.keepsSpace then t else t.withoutSpace

def expr (e : Expr) : Expr := if ρ.keepsSpace then e else e.withoutSpace

def production (p : Production) : Production := if ρ.keepsSpace then p else p.withoutSpace

theorem keeps_of_kind (h : t.kind ≠ .whitespace) : ρ.keeps t := by
  simp [keeps, h]

theorem kind_of_not_keeps (h : ρ.keeps t = false) : t.kind = .whitespace := by
  simp only [keeps, Bool.or_eq_false_iff, bne_eq_false_iff_eq] at h
  exact h.2

theorem tokens_cons_of_keeps (h : ρ.keeps t) (ts : List Token) :
    ρ.tokens (t :: ts) = ρ.token t :: ρ.tokens ts := by
  simp [tokens, h]

theorem tokens_cons_of_not_keeps (h : ρ.keeps t = false) (ts : List Token) :
    ρ.tokens (t :: ts) = ρ.tokens ts := by
  simp [tokens, h]

theorem tokens_cons (h : t.kind ≠ .whitespace) (ts : List Token) :
    ρ.tokens (t :: ts) = ρ.token t :: ρ.tokens ts :=
  ρ.tokens_cons_of_keeps (ρ.keeps_of_kind h) ts

theorem head?_tokens (h : ∀ t ∈ ts.head?, t.kind ≠ .whitespace) :
    (ρ.tokens ts).head? = ts.head?.map ρ.token := by
  cases ts with
  | nil => rfl
  | cons t ts => rw [ρ.tokens_cons (h t rfl)]; rfl

theorem takeWhile_tokens {q : Token.Kind → Bool} (hq : q .whitespace) (ts : List Token) :
    (ρ.tokens ts).takeWhile (q ·.kind) = ρ.tokens (ts.takeWhile (q ·.kind)) := by
  induction ts with
  | nil => rfl
  | cons t ts ih =>
    cases hkeeps : ρ.keeps t with
    | false =>
      have ht : q t.kind := by rwa [ρ.kind_of_not_keeps hkeeps]
      rw [ρ.tokens_cons_of_not_keeps hkeeps, ih,
        List.takeWhile_cons_of_pos (p := fun t : Token => q t.kind) ht,
        ρ.tokens_cons_of_not_keeps hkeeps]
    | true =>
      rw [ρ.tokens_cons_of_keeps hkeeps, List.takeWhile_cons, List.takeWhile_cons, ρ.kind_token]
      split
      · rw [ρ.tokens_cons_of_keeps hkeeps, ih]
      · rfl

theorem dropWhile_tokens {q : Token.Kind → Bool} (hq : q .whitespace) (ts : List Token) :
    (ρ.tokens ts).dropWhile (q ·.kind) = ρ.tokens (ts.dropWhile (q ·.kind)) := by
  induction ts with
  | nil => rfl
  | cons t ts ih =>
    cases hkeeps : ρ.keeps t with
    | false =>
      have ht : q t.kind := by rwa [ρ.kind_of_not_keeps hkeeps]
      rw [ρ.tokens_cons_of_not_keeps hkeeps, ih,
        List.dropWhile_cons_of_pos (p := fun t : Token => q t.kind) ht]
    | true =>
      rw [ρ.tokens_cons_of_keeps hkeeps, List.dropWhile_cons, List.dropWhile_cons, ρ.kind_token]
      split
      · exact ih
      · rw [ρ.tokens_cons_of_keeps hkeeps]

theorem skipTrivia_tokens (ts : List Token) :
    skipTrivia (ρ.tokens ts) = ρ.tokens (skipTrivia ts) :=
  ρ.dropWhile_tokens (q := Token.Kind.isTrivia) rfl ts

theorem skipWhitespace_tokens (ts : List Token) :
    skipWhitespace (ρ.tokens ts) = ρ.tokens (skipWhitespace ts) :=
  ρ.dropWhile_tokens (q := (· == .whitespace)) rfl ts

theorem skipNewline_tokens (h : ∀ t ∈ ts.head?, t.kind ≠ .whitespace) :
    skipNewline (ρ.tokens ts) = ρ.tokens (skipNewline ts) := by
  cases ts with
  | nil => rfl
  | cons t ts =>
    rw [ρ.tokens_cons (h t rfl), skipNewline, skipNewline, ρ.kind_token]
    split
    · rfl
    · rw [ρ.tokens_cons (h t rfl)]

theorem kind_of_head_dropWhile {q : Token.Kind → Bool} (hq : q .whitespace) (ts : List Token) :
    ∀ t ∈ (ts.dropWhile (q ·.kind)).head?, t.kind ≠ .whitespace := by
  intro t ht hkind
  have hnot := List.head?_dropWhile_not (fun t : Token => q t.kind) ts
  rw [Option.mem_def.1 ht] at hnot
  simp [hkind, hq] at hnot

theorem kind_of_head_skipWhitespace (ts : List Token) :
    ∀ t ∈ (skipWhitespace ts).head?, t.kind ≠ .whitespace :=
  kind_of_head_dropWhile (q := (· == .whitespace)) rfl ts

theorem skipLineEnd_tokens (ts : List Token) :
    skipNewline (skipWhitespace (ρ.tokens ts)) = ρ.tokens (skipNewline (skipWhitespace ts)) := by
  rw [ρ.skipWhitespace_tokens, ρ.skipNewline_tokens (kind_of_head_skipWhitespace ts)]

theorem skipRemarks_tokens (ts : List Token) :
    skipRemarks (ρ.tokens ts) = ρ.tokens (skipRemarks ts) := by
  have hdrop := ρ.dropWhile_tokens (q := fun k => k == .whitespace || k == .comment) rfl ts
  have hhead := kind_of_head_dropWhile (q := fun k => k == .whitespace || k == .comment) rfl ts
  exact (congrArg skipNewline hdrop).trans (ρ.skipNewline_tokens hhead)

theorem remarks_tokens (ts : List Token) : remarks (ρ.tokens ts) = remarks ts := by
  have hremarks : ∀ us : List Token,
      ((ρ.tokens us).filter (·.kind == .comment)).flatMap (·.value.drop 2) =
        (us.filter (·.kind == .comment)).flatMap (·.value.drop 2) := by
    intro us
    induction us with
    | nil => rfl
    | cons u us ih =>
      by_cases hcomment : u.kind = .comment
      · rw [ρ.tokens_cons (by simp [hcomment])]
        simp [ρ.kind_token, ρ.value_token u (by simp [hcomment]), hcomment, ih]
      · cases hkeeps : ρ.keeps u with
        | false => rw [ρ.tokens_cons_of_not_keeps hkeeps, ih]; simp [hcomment]
        | true => rw [ρ.tokens_cons_of_keeps hkeeps]; simp [ρ.kind_token, hcomment, ih]
  have htake := ρ.takeWhile_tokens (q := fun k => k == .whitespace || k == .comment) rfl ts
  change (((ρ.tokens ts).takeWhile fun t => t.kind == .whitespace || t.kind == .comment).filter
    _).flatMap _ = _
  rw [htake]
  exact hremarks _

theorem isHeader_cons_tokens (t u : Token) (ts : List Token) :
    isHeader (u :: ρ.tokens ts) = isHeader (t :: ts) := by
  simp only [isHeader, List.drop_succ_cons, List.drop_zero]
  rw [ρ.skipWhitespace_tokens, ρ.head?_tokens (kind_of_head_skipWhitespace ts), Option.map_map]
  congr 2
  funext t
  exact ρ.kind_token t

theorem any_newline_tokens (ts : List Token) :
    (ρ.tokens ts).any (·.kind == .newline) = ts.any (·.kind == .newline) := by
  induction ts with
  | nil => rfl
  | cons t ts ih =>
    cases hkeeps : ρ.keeps t with
    | false =>
      rw [ρ.tokens_cons_of_not_keeps hkeeps, ih, List.any_cons, ρ.kind_of_not_keeps hkeeps]
      rfl
    | true =>
      rw [ρ.tokens_cons_of_keeps hkeeps, List.any_cons, List.any_cons, ρ.kind_token, ih]

@[simp] theorem trivia_empty : ρ.trivia {} = {} := ite_self _

@[simp] theorem comment_trivia (t : Trivia) : (ρ.trivia t).comment = t.comment := by
  unfold trivia
  split <;> rfl

@[simp] theorem newline_trivia (t : Trivia) : (ρ.trivia t).newline = t.newline := by
  unfold trivia
  split <;> rfl

theorem withoutSpace_trivia (t : Trivia) : (ρ.trivia t).withoutSpace = ρ.trivia t.withoutSpace := by
  unfold trivia
  split <;> rfl

theorem ifCommented_trivia (t : Trivia) : (ρ.trivia t).ifCommented = ρ.trivia t.ifCommented := by
  rw [Trivia.ifCommented, Trivia.ifCommented, ρ.comment_trivia, ρ.withoutSpace_trivia]
  split
  · exact ρ.trivia_empty.symm
  · rfl

theorem add_trivia (ht : t.isTrivia) (hkeeps : ρ.keeps t) (s : Trivia) :
    (ρ.trivia s).add (ρ.token t) = ρ.trivia (s.add t) := by
  obtain hkind | hkind | hkind := Token.isTrivia_iff.1 ht
  · simp only [Trivia.add, ρ.kind_token, ρ.value_token t (by simp [hkind]), hkind, trivia]
    split <;> rfl
  · have hspace : ρ.keepsSpace := by simpa [keeps, hkind] using hkeeps
    simp only [Trivia.add, ρ.kind_token, ρ.value_token t (by simp [hkind]), hkind, trivia, hspace,
      if_true]
  · simp only [Trivia.add, ρ.kind_token, hkind, trivia]
    split <;> rfl

theorem trivia_add_of_not_keeps (h : ρ.keeps t = false) (s : Trivia) :
    ρ.trivia (s.add t) = ρ.trivia s := by
  have hspace : ρ.keepsSpace = false := (Bool.or_eq_false_iff.1 h).1
  simp only [trivia, hspace, Trivia.add, ρ.kind_of_not_keeps h, Bool.false_eq_true, if_false]
  split <;> rfl

theorem foldl_add_tokens (hts : ∀ t ∈ ts, t.isTrivia) (s : Trivia) :
    (ρ.tokens ts).foldl Trivia.add (ρ.trivia s) = ρ.trivia (ts.foldl Trivia.add s) := by
  induction ts generalizing s with
  | nil => rfl
  | cons t ts ih =>
    have hmore := ih fun u hu => hts u (List.mem_cons_of_mem _ hu)
    cases hkeeps : ρ.keeps t with
    | false =>
      rw [ρ.tokens_cons_of_not_keeps hkeeps, List.foldl_cons, ← hmore,
        ρ.trivia_add_of_not_keeps hkeeps]
    | true =>
      rw [ρ.tokens_cons_of_keeps hkeeps, List.foldl_cons, List.foldl_cons,
        ρ.add_trivia (hts t List.mem_cons_self) hkeeps, hmore]

theorem triviaAhead_tokens (ts : List Token) :
    triviaAhead (ρ.tokens ts) = ρ.trivia (triviaAhead ts) := by
  have htake : (ρ.tokens ts).takeWhile Token.isTrivia = ρ.tokens (ts.takeWhile Token.isTrivia) :=
    ρ.takeWhile_tokens (q := Token.Kind.isTrivia) rfl ts
  have hfold := ρ.foldl_add_tokens (List.all_eq_true.1 (List.all_takeWhile (l := ts))) {}
  rw [ρ.trivia_empty] at hfold
  rw [triviaAhead, Trivia.ofTokens, htake, hfold, triviaAhead, Trivia.ofTokens]
  unfold trivia
  split <;> rfl

theorem expr_attach (t : Trivia) (e : Expr) :
    ρ.expr (e.attach t) = (ρ.expr e).attach (ρ.trivia t) := by
  unfold expr trivia
  split
  · rfl
  · exact e.withoutSpace_attach t

theorem expr_join (j : Joint) (es : List Expr) :
    ρ.expr (.join j es) = .join j (es.map ρ.expr) := by
  unfold expr
  split
  · rw [List.map_id']
  · exact Expr.withoutSpace_join j es

theorem expr_leaf (l : Leaf) (t : Trivia) : ρ.expr (.leaf l t) = .leaf l (ρ.trivia t) := by
  unfold expr trivia
  split <;> rfl

theorem expr_repeated (r : Repetition) (e : Expr) (t : Trivia) :
    ρ.expr (.repeated r e [] t) = .repeated r (ρ.expr e) [] (ρ.trivia t) := by
  unfold expr trivia
  split <;> rfl

theorem production_rule (name comment : Text) (e : Expr) (start : Bool) :
    ρ.production { rule := some ⟨name, e⟩, comment, startsOnNewline := start } =
      { rule := some ⟨name, ρ.expr e⟩, comment, startsOnNewline := start } := by
  unfold production expr
  split <;> rfl

@[simp] theorem comment_production (p : Production) : (ρ.production p).comment = p.comment := by
  unfold production
  split <;> rfl

theorem production_comment (p : Production) (comment : Text) :
    ρ.production { p with comment } = { ρ.production p with comment } := by
  unfold production
  split <;> rfl

theorem production_remark (comment : Text) : ρ.production { comment } = { comment } := by
  unfold production
  split <;> rfl

end Respelling

end GrammarCheck
