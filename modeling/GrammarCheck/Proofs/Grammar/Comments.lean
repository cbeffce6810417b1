import GrammarCheck.Proofs.Grammar.Nodes
import GrammarCheck.Proofs.Grammar.PrintedTwice
import Mathlib.Algebra.Order.Group.Multiset
import Mathlib.Tactic.Abel

namespace GrammarCheck

open Parsing

variable {t : Token} {ts us rest : List Token} {e : Expr} {es : List Expr} {part : Part}

namespace Text

def ink (t : Text) : Multiset Char := ↑(t.filter (!isBlank ·))

@[simp] theorem ink_nil : ink [] = 0 := rfl

@[simp] theorem ink_append (t u : Text) : ink (t ++ u) = ink t + ink u := by
  rw [ink, List.filter_append, ← Multiset.coe_add, ink, ink]

theorem ink_of_blank {t : Text} (h : ∀ c ∈ t, isBlank c) : ink t = 0 := by
  rw [ink, List.filter_eq_nil_iff.2 (by simpa using h), Multiset.coe_nil]

@[simp] theorem ink_cons_space (t : Text) : ink (' ' :: t) = ink t := by
  rw [← List.singleton_append, ink_append, ink_of_blank (List.forall_mem_singleton.2 rfl), zero_add]

@[simp] theorem ink_trimRight (t : Text) : t.trimRight.ink = t.ink := by
  obtain ⟨u, hu, ht⟩ := exists_blanks t
  calc t.trimRight.ink = t.trimRight.ink + u.ink := by rw [ink_of_blank hu, add_zero]
    _ = t.ink := by rw [← ink_append, ← ht]

end Text

section Tokens

def commentInk (ts : List Token) : Multiset Char :=
  Text.ink ((ts.filter (·.kind == .comment)).flatMap (·.value.drop 2))

@[simp] theorem commentInk_nil : commentInk [] = 0 := rfl

@[simp] theorem commentInk_append (ts us : List Token) :
    commentInk (ts ++ us) = commentInk ts + commentInk us := by
  rw [commentInk, List.filter_append, List.flatMap_append, Text.ink_append, commentInk, commentInk]

theorem commentInk_of_none (h : ∀ t ∈ ts, t.kind ≠ .comment) : commentInk ts = 0 := by
  rw [commentInk, List.filter_eq_nil_iff.2 (by simpa using h), List.flatMap_nil, Text.ink_nil]

theorem commentInk_cons (h : t.kind ≠ .comment) (ts : List Token) :
    commentInk (t :: ts) = commentInk ts := by
  rw [commentInk, List.filter_cons_of_neg (by simpa using h), commentInk]

theorem commentInk_cons_of_comment (h : t.kind = .comment) (ts : List Token) :
    commentInk (t :: ts) = Text.ink (t.value.drop 2) + commentInk ts := by
  rw [commentInk, List.filter_cons_of_pos (by simpa using h), List.flatMap_cons, Text.ink_append,
    commentInk]

theorem commentInk_skipNewline (ts : List Token) : commentInk (skipNewline ts) = commentInk ts := by
  cases ts with
  | nil => rfl
  | cons t ts =>
    rw [skipNewline]
    split
    · rename_i hnewline
      rw [commentInk_cons (by simp [eq_of_beq hnewline])]
    · rfl

theorem commentInk_lineEnd (ts : List Token) :
    commentInk (skipNewline (skipWhitespace ts)) = commentInk ts := by
  have hblank : ∀ t ∈ ts.takeWhile (·.kind == .whitespace), t.kind ≠ .comment := by
    intro t ht hcomment
    have hwhitespace := List.all_eq_true.1 List.all_takeWhile t ht
    rw [hcomment] at hwhitespace
    cases hwhitespace
  calc commentInk (skipNewline (skipWhitespace ts))
      = commentInk (ts.takeWhile (·.kind == .whitespace)) + commentInk (skipWhitespace ts) := by
        rw [commentInk_skipNewline, commentInk_of_none hblank, zero_add]
    _ = commentInk ts := by
        rw [skipWhitespace, ← commentInk_append, List.takeWhile_append_dropWhile]

theorem ink_remarks (ts : List Token) :
    (remarks ts).ink + commentInk (skipRemarks ts) = commentInk ts := by
  have htaken : (remarks ts).ink = commentInk (ts.takeWhile isRemark) := rfl
  rw [htaken, skipRemarks, commentInk_skipNewline, ← commentInk_append,
    List.takeWhile_append_dropWhile]

end Tokens

namespace Trivia

theorem ink_append (s t : Trivia) : (s ++ t).comment.ink = s.comment.ink + t.comment.ink := by
  change (Trivia.append s t).comment.ink = _
  unfold Trivia.append
  dsimp only
  split
  · exact Text.ink_append _ _
  · rw [Text.ink_append, Text.ink_cons_space]

theorem ink_ifCommented (t : Trivia) : t.ifCommented.comment.ink = t.comment.ink := by
  unfold ifCommented
  split
  · rename_i hempty
    rw [List.isEmpty_iff.1 hempty]
  · rfl

theorem ink_add (s : Trivia) (t : Token) :
    (s.add t).comment.ink = s.comment.ink + commentInk [t] := by
  by_cases hcomment : t.kind = .comment
  · rw [commentInk_cons_of_comment hcomment, commentInk_nil, add_zero, ← Text.ink_append]
    simp only [add, hcomment]
  rw [commentInk_cons hcomment, commentInk_nil, add_zero]
  by_cases hnewline : t.kind = .newline
  · simp only [add, hnewline]
    split
    · rename_i hempty
      rw [List.isEmpty_iff.1 hempty]
    · rw [Text.ink_append, Text.ink_cons_space, Text.ink_nil, add_zero]
  · unfold add
    split
    · contradiction
    · contradiction
    · split <;> rfl

theorem ink_foldl_add (s : Trivia) (ts : List Token) :
    (ts.foldl add s).comment.ink = s.comment.ink + commentInk ts := by
  induction ts generalizing s with
  | nil => rw [List.foldl_nil, commentInk_nil, add_zero]
  | cons t ts ih =>
    rw [List.foldl_cons, ih, ink_add, add_assoc, ← commentInk_append, List.singleton_append]

theorem ink_triviaAhead (ts : List Token) :
    (triviaAhead ts).comment.ink + commentInk (skipTrivia ts) = commentInk ts := by
  have htaken : (triviaAhead ts).comment.ink = commentInk (ts.takeWhile Token.isTrivia) := by
    rw [triviaAhead, ofTokens, Text.ink_trimRight, ink_foldl_add, Text.ink_nil, zero_add]
  rw [htaken, skipTrivia, ← commentInk_append, List.takeWhile_append_dropWhile]

end Trivia

theorem ink_barTrivia (ts : List Token) :
    (barTrivia ts).comment.ink + commentInk (skipBar ts) = commentInk ts := by
  unfold barTrivia skipBar
  split
  · rw [Trivia.ink_ifCommented, commentInk_cons (by simp), Trivia.ink_triviaAhead]
  · rw [Text.ink_nil, zero_add]

namespace Expr

def inkAt (nodes : List Expr) : Multiset Char := Text.ink (nodes.flatMap (·.after.comment))

theorem inkAt_cons (e : Expr) (es : List Expr) : inkAt (e :: es) = e.after.comment.ink + inkAt es :=
  Text.ink_append _ _

@[simp] theorem inkAt_append (es es' : List Expr) : inkAt (es ++ es') = inkAt es + inkAt es' := by
  rw [inkAt, List.flatMap_append, Text.ink_append, inkAt, inkAt]

def ink (e : Expr) : Multiset Char := inkAt e.nodes

theorem ink_eq (e : Expr) : e.ink = e.after.comment.ink + inkAt (e.children.flatMap nodes) := by
  rw [ink, nodes_eq, inkAt_cons]

theorem ink_attach (t : Trivia) (e : Expr) : (e.attach t).ink = e.ink + t.comment.ink := by
  rw [ink_eq, after_attach, children_attach, Trivia.ink_append, ink_eq e, add_right_comm]

theorem ink_join (j : Joint) (es : List Expr) : (join j es).ink = inkAt (es.flatMap nodes) := by
  match es with
  | [e] => rw [join, List.flatMap_singleton, ink]
  | [] | _ :: _ :: _ => exact (ink_eq _).trans (zero_add _)

theorem ink_leaf (l : Leaf) (t : Trivia) : (leaf l t).ink = t.comment.ink :=
  (ink_eq _).trans (add_zero _)

theorem ink_repeated (r : Repetition) (body : Expr) (label : Text) (t : Trivia) :
    (repeated r body label t).ink = t.comment.ink + body.ink := by
  rw [ink_eq, children, List.flatMap_singleton, after, ink]

end Expr

def Parsing.Part.ink : Part → Multiset Char
  | .alternatives c | .items c | .repetitions c => c.ink
  | _ => 0

theorem Repetition.ne_comment_of_ofKind? {kind : Token.Kind} {r : Repetition}
    (h : ofKind? kind = some r) : kind ≠ .comment := by
  rintro rfl
  cases h

theorem Parsing.Reads.ink (h : Reads part ts es rest) :
    part.ink + commentInk ts = Expr.inkAt (es.flatMap Expr.nodes) + commentInk rest := by
  have single : ∀ e, Expr.inkAt ([e].flatMap Expr.nodes) = e.ink := fun e => by
    rw [List.flatMap_singleton, Expr.ink]
  induction h with
  | @choice ts mid rest e es _ _ ihFirst ihMore =>
    simp only [Part.ink, single, Expr.ink_attach, zero_add] at ihFirst ihMore
    calc (0 : Multiset Char) + commentInk ts
        = (barTrivia ts).comment.ink + (e.ink + commentInk mid) := by
          rw [zero_add, ← ink_barTrivia, ihFirst]
      _ = e.ink + (barTrivia ts).comment.ink + commentInk mid := by abel
      _ = Expr.inkAt ([Expr.join .choice es].flatMap Expr.nodes) + commentInk rest := by
          rw [ihMore, single, Expr.ink_join]
  | @alternative t ts mid rest c e es bar _ _ ihHead ihMore =>
    simp only [Part.ink, single, zero_add] at ihHead ihMore ⊢
    have hbehind : (triviaAhead ts).comment.ink + (e.ink + commentInk mid) = commentInk ts := by
      rw [← ihHead, Trivia.ink_triviaAhead]
    rw [commentInk_cons (by simp [bar]), ← hbehind, ihMore, List.flatMap_cons, Expr.inkAt_append,
      ← Expr.ink, Expr.ink_attach, Trivia.withoutSpace]
    abel
  | lastAlternative | lastItem | noMark => rw [Part.ink, single]
  | sequence _ _ ihFirst ihMore =>
    simp only [Part.ink, single, Expr.ink_join, zero_add] at ihFirst ihMore ⊢
    rw [ihFirst, ihMore]
  | item _ _ _ ihHead ihMore =>
    simp only [Part.ink, single, zero_add] at ihHead ihMore ⊢
    rw [ihHead, ihMore, List.flatMap_cons, Expr.inkAt_append, ← Expr.ink, add_assoc]
  | unary _ _ ihFirst ihMore =>
    simp only [Part.ink, single, zero_add] at ihFirst ihMore ⊢
    rw [ihFirst, ihMore]
  | @mark t ts rest c es r mark _ ih =>
    simp only [Part.ink, Expr.ink_repeated] at ih ⊢
    rw [← ih, commentInk_cons (Repetition.ne_comment_of_ofKind? mark), ← Trivia.ink_triviaAhead ts]
    abel
  | @group t close ts rest e opening _ closing ih =>
    simp only [Part.ink, single, zero_add] at ih ⊢
    have hopening : (triviaAhead ts).comment.ink + (e.ink + commentInk rest) = commentInk ts := by
      rw [← Trivia.ink_triviaAhead ts, ih, commentInk_cons (by simp [closing])]
    rw [commentInk_cons (by simp [opening]), ← hopening, ← Trivia.ink_triviaAhead rest,
      Expr.ink_attach, Expr.ink_attach, Trivia.ink_ifCommented]
    abel
  | terminal kind | reference kind =>
    rw [commentInk_cons (by simp [kind]), single, Expr.ink_leaf, Trivia.ink_triviaAhead]
    exact zero_add _

theorem Parsing.ReadsProduction.ink {p : Production} (h : ReadsProduction (t :: ts) p rest)
    (hname : t.kind = .word) :
    commentInk (t :: ts) =
      p.comment.ink + Expr.inkAt (p.rule.toList.flatMap (·.body.nodes)) + commentInk rest := by
  have hparts : ∀ {breaks after mid : List Token} {colon : Token} {e : Expr},
      ts = breaks ++ colon :: after → (∀ t ∈ breaks, isBreak t) → colon.kind = .colon →
      Reads .choice (skipTrivia after) [e] mid →
      commentInk (t :: ts) =
        (triviaAhead after).comment.ink + (Expr.inkAt e.nodes + commentInk mid) := by
    rintro breaks after mid colon e rfl hbreaks hcolon hbody
    have hnone : commentInk breaks = 0 := commentInk_of_none fun t ht hcomment => by
      simpa [isBreak, hcomment] using hbreaks t ht
    have hread : commentInk (skipTrivia after) = Expr.inkAt e.nodes + commentInk mid := by
      simpa only [Part.ink, List.flatMap_singleton, zero_add] using hbody.ink
    rw [commentInk_cons (by simp [hname]), commentInk_append, hnone, zero_add,
      commentInk_cons (by simp [hcolon]), ← Trivia.ink_triviaAhead after, hread]
  cases h with
  | @closed _ colon semicolon breaks after behind e areBreaks isColon body isSemicolon =>
    rw [hparts rfl areBreaks isColon body, commentInk_cons (by simp [isSemicolon]),
      ← ink_remarks behind, Option.toList_some, List.flatMap_singleton, Text.ink_append]
    abel
  | last areBreaks isColon body =>
    rw [hparts rfl areBreaks isColon body, Option.toList_some, List.flatMap_singleton, add_assoc]

theorem Parsing.ReadsHeader.ink {name : Text} (h : ReadsHeader (t :: ts) name rest)
    (hkeyword : t.kind = .word) : commentInk (t :: ts) = commentInk rest := by
  have hblank : ∀ {us : List Token}, (∀ t ∈ us, t.kind = .whitespace) → commentInk us = 0 :=
    fun hus => commentInk_of_none fun t ht => by simp [hus t ht]
  cases h with
  | mk blankBefore isName blankAfter isSemicolon =>
    rw [commentInk_cons (by simp [hkeyword]), commentInk_append, hblank blankBefore, zero_add,
      commentInk_cons (by simp [isName]), commentInk_append, hblank blankAfter, zero_add,
      commentInk_cons (by simp [isSemicolon]), commentInk_lineEnd]

theorem Parsing.ReadsEntries.ink {name : Option Text} {ps : List Production}
    (h : ReadsEntries ts name ps) :
    commentInk ts = Text.ink (ps.flatMap (·.comment)) +
      Expr.inkAt ((ps.filterMap (·.rule)).flatMap (·.body.nodes)) := by
  induction h with
  | nil => rfl
  | comment kind _ ih =>
    rw [commentInk_cons_of_comment kind, ← commentInk_lineEnd, ih, List.flatMap_cons,
      Text.ink_append, add_assoc]
    rfl
  | newline kind _ ih =>
    rw [commentInk_cons (by simp [kind]), ih]
    rfl
  | whitespace kind _ ih => rw [commentInk_cons (by simp [kind]), ih]
  | header kind _ head _ ih => rw [head.ink kind, ih]
  | @production t ts rest name p ps kind _ rule _ ih =>
    have hrules : (p :: ps).filterMap (·.rule) = p.rule.toList ++ ps.filterMap (·.rule) := by
      cases hrule : p.rule with
      | none => rw [List.filterMap_cons_none hrule, Option.toList_none, List.nil_append]
      | some r => rw [List.filterMap_cons_some hrule, Option.toList_some, List.singleton_append]
    rw [rule.ink kind, ih, hrules, List.flatMap_append, Expr.inkAt_append, List.flatMap_cons,
      Text.ink_append]
    abel

namespace Grammar

/-- What is written in the comments of an accepted text is in the comments of its entries and of
the nodes of its rules, each character as often. -/
theorem ink_ofText {source name text : Text} {g : Grammar} (h : ofText source name text = .ok g) :
    ∃ ts, TokenList.ofText source text = .ok ts ∧
      Text.ink ((ts.toList.filter (·.kind == .comment)).flatMap (·.value.drop 2)) =
        Text.ink (g.productions.flatMap (·.comment)) +
          Text.ink ((g.rules.flatMap (·.body.nodes)).flatMap (·.after.comment)) := by
  obtain ⟨ts, n, ps, htokens, hread, rfl⟩ := ofText_eq_ok_iff.1 h
  have hfinish : commentInk ts.toList = commentInk ts.tokens := by
    rw [TokenList.toList, commentInk_append, commentInk_cons (by simp [Token.finish]),
      commentInk_nil, add_zero]
  exact ⟨ts, htokens, hfinish.trans hread.ink⟩

theorem ink_ofText_everywhere :
    ∃ g, ofText [] [] "//a b\nr: //c\n(//d\nx|//e\ny //f\n)*//g\n; //h".toList = .ok g ∧
      ∃ ts, TokenList.ofText [] "//a b\nr: //c\n(//d\nx|//e\ny //f\n)*//g\n; //h".toList = .ok ts ∧
        Text.ink ((ts.toList.filter (·.kind == .comment)).flatMap (·.value.drop 2)) =
          Text.ink (g.productions.flatMap (·.comment)) +
            Text.ink ((g.rules.flatMap (·.body.nodes)).flatMap (·.after.comment)) := by
  have hprint :
      (ofText [] [] "//a b\nr: //c\n(//d\nx|//e\ny //f\n)*//g\n; //h".toList).toOption.map print =
        some "//a b\nr:\n\t| ( x //e\n\t| y //f\n\t //d\n\t )* //g\n\t;  //ch\n".toList := by
    decide +kernel
  obtain ⟨g, hg, -⟩ := exists_ofText_of_map hprint
  exact ⟨g, hg, ink_ofText hg⟩

end Grammar

end GrammarCheck
