import GrammarCheck.Proofs.Grammar.Printed
import GrammarCheck.Proofs.Grammar.Reread
import GrammarCheck.Proofs.Parsing.Completeness

namespace GrammarCheck

variable {ts : List Token} {s : Symbol} {ss ss' : List Symbol} {newline : Text}

def layoutMarks (newline : Text) (layouts : List Trivia) : List Symbol :=
  layouts.flatMap (Trivia.printedMarks newline)

@[simp] theorem layoutMarks_nil : layoutMarks newline [] = [] := rfl

@[simp] theorem layoutMarks_cons (t : Trivia) (layouts : List Trivia) :
    layoutMarks newline (t :: layouts) = t.printedMarks newline ++ layoutMarks newline layouts :=
  List.flatMap_cons

theorem exists_cons_of_tokenMarks (h : tokenMarks ts = s :: ss) :
    ∃ blanks t rest, ts = blanks ++ t :: rest ∧ (∀ b ∈ blanks, b.kind = .whitespace) ∧
      t.symbol = s ∧ tokenMarks rest = ss := by
  induction ts with
  | nil => cases h
  | cons t ts ih =>
    by_cases hkind : t.kind = .whitespace
    · rw [tokenMarks_cons_of_whitespace hkind] at h
      obtain ⟨blanks, t', rest, rfl, hblanks, hsymbol, hrest⟩ := ih h
      exact ⟨t :: blanks, t', rest, rfl, List.forall_mem_cons.2 ⟨hkind, hblanks⟩, hsymbol, hrest⟩
    · rw [tokenMarks_cons hkind] at h
      obtain ⟨rfl, rfl⟩ := List.cons.inj h
      exact ⟨[], t, ts, rfl, by simp, rfl, rfl⟩

namespace Ready

theorem tokenMarks_cons {t : Token} (h : Ready (t :: ts)) :
    tokenMarks (t :: ts) = t.symbol :: tokenMarks ts := by
  refine GrammarCheck.tokenMarks_cons (fun hkind => ?_) ts
  have htrivia := h t rfl
  rw [Token.isTrivia, hkind] at htrivia
  cases htrivia

theorem exists_cons (hts : Ready ts) (h : tokenMarks ts = s :: ss) :
    ∃ t rest, ts = t :: rest ∧ t.symbol = s ∧ tokenMarks rest = ss := by
  cases ts with
  | nil => cases h
  | cons t ts =>
    rw [hts.tokenMarks_cons] at h
    obtain ⟨rfl, rfl⟩ := List.cons.inj h
    exact ⟨t, ts, rfl, rfl, rfl⟩

theorem head?_meaning (h : Ready ts) : (meaning ts).head? = (tokenMarks ts).head? := by
  cases ts with
  | nil => rfl
  | cons t ts => rw [h.tokenMarks_cons, meaning_cons (h t rfl), List.head?_cons, List.head?_cons]

end Ready

theorem tokenMarks_takeWhile {q : Token.Kind → Bool} (hq : q .whitespace) (ts : List Token) :
    tokenMarks (ts.takeWhile (q ·.kind)) = (tokenMarks ts).takeWhile (q ·.1) := by
  induction ts with
  | nil => rfl
  | cons t ts ih =>
    by_cases hkind : t.kind = .whitespace
    · rw [tokenMarks_cons_of_whitespace hkind, ← ih, List.takeWhile_cons]
      simp [hkind, hq, tokenMarks_cons_of_whitespace]
    · rw [tokenMarks_cons hkind, List.takeWhile_cons, List.takeWhile_cons]
      by_cases ht : q t.kind
      · simp [ht, Token.symbol, tokenMarks_cons hkind, ih]
      · simp [ht, Token.symbol, tokenMarks]

theorem tokenMarks_dropWhile {q : Token.Kind → Bool} (hq : q .whitespace) (ts : List Token) :
    tokenMarks (ts.dropWhile (q ·.kind)) = (tokenMarks ts).dropWhile (q ·.1) := by
  have hts : tokenMarks (ts.takeWhile (q ·.kind)) ++ tokenMarks (ts.dropWhile (q ·.kind)) =
      tokenMarks ts := by
    rw [← tokenMarks_append, List.takeWhile_append_dropWhile]
  rw [tokenMarks_takeWhile hq] at hts
  have hmarks := List.takeWhile_append_dropWhile (p := fun s : Symbol => q s.1) (l := tokenMarks ts)
  exact List.append_cancel_left (hts.trans hmarks.symm)

namespace Trivia

def addMark (t : Trivia) (s : Symbol) : Trivia := (t.add ⟨s.1, s.2, ⟨1, 1⟩⟩).withoutSpace

theorem withoutSpace_add (t : Trivia) (u : Token) :
    (t.add u).withoutSpace = t.withoutSpace.addMark u.symbol := by
  obtain ⟨kind, value, position⟩ := u
  cases kind <;> first
    | rfl
    | by_cases hline : t.newline <;> simp [add, addMark, withoutSpace, Token.symbol, hline]

theorem withoutSpace_foldl_add (ts : List Token) (t : Trivia) :
    (ts.foldl add t).withoutSpace = (tokenMarks ts).foldl addMark t.withoutSpace := by
  induction ts generalizing t with
  | nil => rfl
  | cons u ts ih =>
    rw [List.foldl_cons, ih]
    by_cases hkind : u.kind = .whitespace
    · have hadd : (t.add u).withoutSpace = t.withoutSpace := by
        simp only [add, hkind]
        split <;> rfl
      rw [tokenMarks_cons_of_whitespace hkind, hadd]
    · rw [tokenMarks_cons hkind, withoutSpace_add, List.foldl_cons]

theorem foldl_addMark (s t : Trivia) :
    (t.printedMarks newline).foldl addMark s.withoutSpace = s.withoutSpace.goOn t := by
  obtain ⟨whitespace, comment, isNewline⟩ := t
  cases comment <;> cases isNewline <;>
    simp [printedMarks, goOn, addMark, add, withoutSpace]

theorem withoutSpace_goOn (s t : Trivia) :
    (s.withoutSpace.goOn t).withoutSpace = s.withoutSpace.goOn t := by
  simp only [goOn, withoutSpace]
  split <;> rfl

theorem foldl_addMark_layoutMarks (layouts : List Trivia) (s : Trivia) :
    (layoutMarks newline layouts).foldl addMark s.withoutSpace =
      layouts.foldl goOn s.withoutSpace := by
  induction layouts generalizing s with
  | nil => rfl
  | cons t layouts ih =>
    rw [layoutMarks_cons, List.foldl_append, foldl_addMark, ← withoutSpace_goOn, ih,
      List.foldl_cons, withoutSpace_goOn]

theorem isTrivia_of_mem_printedMarks {t : Trivia} (h : s ∈ t.printedMarks newline) :
    s.1.isTrivia := by
  obtain h | h := List.mem_append.1 h
  · split at h <;> simp_all [Token.Kind.isTrivia]
  · split at h <;> simp_all [Token.Kind.isTrivia]

end Trivia

theorem skip_layout {layouts : List Trivia} (hss : ∀ s ∈ ss.head?, s.1.isTrivia = false)
    (h : tokenMarks ts = layoutMarks newline layouts ++ ss) :
    (triviaAhead ts).withoutSpace = .merge layouts ∧ tokenMarks (skipTrivia ts) = ss := by
  have htrivia : ∀ s ∈ layoutMarks newline layouts, s.1.isTrivia := by
    intro s hs
    obtain ⟨t, -, hs⟩ := List.mem_flatMap.1 hs
    exact Trivia.isTrivia_of_mem_printedMarks hs
  have hstop : ss.takeWhile (·.1.isTrivia) = [] ∧ ss.dropWhile (·.1.isTrivia) = ss := by
    cases ss with
    | nil => exact ⟨rfl, rfl⟩
    | cons s ss => simp [hss s rfl]
  have htake : tokenMarks (ts.takeWhile Token.isTrivia) = layoutMarks newline layouts := by
    have hmarks : tokenMarks (ts.takeWhile Token.isTrivia) =
        (tokenMarks ts).takeWhile (·.1.isTrivia) :=
      tokenMarks_takeWhile rfl ts
    rw [hmarks, h, List.takeWhile_append_of_pos htrivia, hstop.1, List.append_nil]
  have hfold : ((ts.takeWhile Token.isTrivia).foldl Trivia.add {}).withoutSpace =
      layouts.foldl Trivia.goOn {} := by
    rw [Trivia.withoutSpace_foldl_add, htake]
    exact Trivia.foldl_addMark_layoutMarks layouts {}
  refine ⟨?_, ?_⟩
  · rw [Trivia.merge, ← hfold]
    rfl
  · have hmarks : tokenMarks (skipTrivia ts) = (tokenMarks ts).dropWhile (·.1.isTrivia) :=
      tokenMarks_dropWhile rfl ts
    rw [hmarks, h, List.dropWhile_append_of_pos htrivia, hstop.2]

end GrammarCheck
