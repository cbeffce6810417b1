import GrammarCheck.Proofs.Parsing.Soundness

namespace GrammarCheck

open Parsing

variable {ts us rest : List Token} {failure : Failure}

namespace Failure

structure Within (failure : Failure) (ts : List Token) : Prop where
  rest : failure.rest <:+ ts
  culprit : ∀ t ∈ failure.culprit, t ∈ ts

theorem Within.of_suffix (h : failure.Within us) (hus : us <:+ ts) : failure.Within ts :=
  ⟨h.rest.trans hus, fun t ht => hus.subset (h.culprit t ht)⟩

theorem Within.ahead (fault : Fault) (ts : List Token) : (Failure.ahead fault ts).Within ts :=
  ⟨List.suffix_refl _, fun _ ht => List.mem_of_mem_head? ht⟩

theorem Within.unexpected (fault : Option Token → Fault) (ts : List Token) :
    (Failure.unexpected fault ts).Within ts :=
  .ahead _ ts

end Failure

namespace Parsed

variable {α β : Type} {n : Nat} {answer : Parsed α n}

inductive Within (ts : List Token) : Parsed α n → Prop
  | done {value : α} {rest : List Token} {shorter : rest.length < n} (behind : rest <:+ ts) :
    Within ts (done value rest shorter)
  | failed {failure : Failure} (refused : failure.Within ts) : Within ts (failed failure)

theorem Within.cases (h : answer.Within ts) :
    (∃ failure, answer = .failed failure ∧ failure.Within ts) ∨
      ∃ value rest shorter, answer = .done value rest shorter ∧ rest <:+ ts := by
  cases h with
  | done hrest => exact .inr ⟨_, _, _, rfl, hrest⟩
  | failed hfailure => exact .inl ⟨_, rfl, hfailure⟩

theorem Within.map (h : answer.Within ts) (f : α → β) : (answer.map f).Within ts := by
  cases h with
  | done hrest => exact .done hrest
  | failed hfailure => exact .failed hfailure

theorem Within.of_suffix (h : answer.Within us) (hus : us <:+ ts) : answer.Within ts := by
  cases h with
  | done hrest => exact .done (hrest.trans hus)
  | failed hfailure => exact .failed (hfailure.of_suffix hus)

def ahead : Parsed α n → List Token
  | .done _ rest _ => rest
  | .failed failure => failure.rest

theorem Within.ahead (h : answer.Within ts) : answer.ahead <:+ ts := by
  cases h with
  | done hrest => exact hrest
  | failed hfailure => exact hfailure.rest

end Parsed

namespace Parsing

variable {c : Expr} {bound : Nat}

theorem within_repetitions (h : ts.length < bound) : (repetitions c ts bound h).Within ts := by
  fun_induction repetitions c ts bound h with
  | case1 => exact .done (List.suffix_refl _)
  | case2 c t ts _ _ _ _ ih =>
    exact ih.of_suffix ((skipTrivia_suffix ts).trans (List.suffix_cons t ts))
  | case3 => exact .done (List.suffix_refl _)

theorem within_leaf {l : Leaf} (h : ts.length < bound) : (leaf l ts bound h).Within ts :=
  .done (skipTrivia_suffix ts)

theorem within_closeGroup {leading : Trivia} (h : ts.length < bound) :
    (closeGroup leading c ts bound h).Within ts := by
  unfold closeGroup
  split
  · exact .done ((skipTrivia_suffix _).trans (List.suffix_cons _ _))
  · exact .failed (.unexpected _ _)

mutual

theorem within_choice (ts : List Token) : (choice ts).Within ts := by
  have := length_skipBar_le ts
  have hfirst := (within_sequence (skipBar ts)).of_suffix (skipBar_suffix ts)
  rw [choice]
  obtain ⟨failure, heq, hfailure⟩ | ⟨e, rest, shorter, heq, hrest⟩ := hfirst.cases
  · rw [heq]
    exact .failed hfailure
  · rw [heq]
    exact ((within_alternatives rest _ _ _).of_suffix hrest).map _
termination_by 6 * ts.length + 5

theorem within_alternatives (ts : List Token) (c : Expr) (bound : Nat) (h : ts.length < bound) :
    (alternatives c ts bound h).Within ts := by
  rw [alternatives.eq_def]
  split
  · rename_i value position rest _
    have := length_skipTrivia_le rest
    have hhead := (within_sequence (skipTrivia rest)).of_suffix
      ((skipTrivia_suffix rest).trans (List.suffix_cons ⟨.bar, value, position⟩ rest))
    obtain ⟨failure, heq, hfailure⟩ | ⟨e, after, shorter, heq, hafter⟩ := hhead.cases
    · rw [heq]
      exact .failed hfailure
    · rw [heq]
      exact ((within_alternatives after e bound _).of_suffix hafter).map _
  · exact .done (List.suffix_refl _)
termination_by 6 * ts.length + 4
decreasing_by all_goals subst_vars; simp only [List.length_cons]; omega

theorem within_sequence (ts : List Token) : (sequence ts).Within ts := by
  rw [sequence]
  obtain ⟨failure, heq, hfailure⟩ | ⟨e, rest, shorter, heq, hrest⟩ := (within_unary ts).cases
  · rw [heq]
    exact .failed hfailure
  · rw [heq]
    exact ((within_items rest _ _ _).of_suffix hrest).map _
termination_by 6 * ts.length + 3

theorem within_items (ts : List Token) (c : Expr) (bound : Nat) (h : ts.length < bound) :
    (items c ts bound h).Within ts := by
  rw [items]
  split
  · exact .done (List.suffix_refl _)
  · obtain ⟨failure, heq, hfailure⟩ | ⟨e, rest, shorter, heq, hrest⟩ := (within_unary ts).cases
    · rw [heq]
      exact .failed hfailure
    · rw [heq]
      exact ((within_items rest e bound _).of_suffix hrest).map _
termination_by 6 * ts.length + 2

theorem within_unary (ts : List Token) : (unary ts).Within ts := by
  rw [unary]
  obtain ⟨failure, heq, hfailure⟩ | ⟨e, rest, shorter, heq, hrest⟩ := (within_atom ts).cases
  · rw [heq]
    exact .failed hfailure
  · rw [heq]
    exact (within_repetitions shorter).of_suffix hrest
termination_by 6 * ts.length + 1

theorem within_atom (ts : List Token) : (atom ts).Within ts := by
  rw [atom.eq_def]
  split
  · rename_i value position rest
    have := length_skipTrivia_le rest
    have hbody := (within_choice (skipTrivia rest)).of_suffix
      ((skipTrivia_suffix rest).trans (List.suffix_cons ⟨.openParen, value, position⟩ rest))
    obtain ⟨failure, heq, hfailure⟩ | ⟨e, after, shorter, heq, hafter⟩ := hbody.cases
    · rw [heq]
      exact .failed hfailure
    · rw [heq]
      exact (within_closeGroup _).of_suffix hafter
  · rename_i text position rest
    split
    · -- the terminal itself is to blame, and it is passed already
      exact .failed ⟨List.suffix_cons _ _, by simp⟩
    · exact (within_leaf _).of_suffix (List.suffix_cons _ _)
  · exact (within_leaf _).of_suffix (List.suffix_cons _ _)
  · exact .failed (.ahead _ _)
  · exact .failed (.unexpected _ _)
termination_by 6 * ts.length
decreasing_by subst_vars; simp only [List.length_cons]; omega

end

theorem within_close {p : Production} {name : Text} (h : ts.length < bound) :
    (close p name ts bound h).Within ts := by
  unfold close
  split
  · exact .done (List.suffix_refl _)
  · exact .done ((skips_skipRemarks _).suffix.trans (List.suffix_cons _ _))
  · exact .failed (.ahead _ _)
  · exact .failed (.unexpected _ _)

theorem within_production (ts : List Token) : (production ts).Within ts := by
  have hbreaks : (ts.drop 1).dropWhile isBreak <:+ ts :=
    (List.dropWhile_suffix _).trans (List.drop_suffix 1 ts)
  unfold production
  dsimp only
  split
  · rename_i value position rest hcolon
    have hbody := (within_choice (skipTrivia rest)).of_suffix
      ((skipTrivia_suffix rest).trans ((List.suffix_cons _ _).trans (hcolon ▸ hbreaks)))
    obtain ⟨failure, heq, hfailure⟩ | ⟨body, after, shorter, heq, hafter⟩ := hbody.cases
    · rw [heq]
      exact .failed hfailure
    · rw [heq]
      exact (within_close _).of_suffix hafter
  · exact .failed ((Failure.Within.unexpected _ _).of_suffix hbreaks)

theorem skipWhitespace_suffix (ts : List Token) : skipWhitespace ts <:+ ts :=
  List.dropWhile_suffix _

theorem within_of_expect {kind : Token.Kind} (h : expect kind ts = .error failure) :
    failure.Within ts := by
  unfold expect at h
  split at h
  · cases h
    exact .unexpected _ _
  · split at h
    · cases h
    · cases h
      exact .unexpected _ _

theorem expect_suffix {kind : Token.Kind} {t : Token} (h : expect kind ts = .ok (t, rest)) :
    rest <:+ ts := by
  rw [(expect_eq_ok_iff.1 h).1]
  exact List.suffix_cons t rest

theorem header_suffix (h : (header ts).2 = .ok rest) : rest <:+ ts := by
  cases ts with
  | nil => cases h
  | cons keyword ts =>
    obtain ⟨n, -, hhead⟩ := header_eq_ok_iff.1 (Prod.ext rfl h)
    exact hhead.suffix

theorem within_of_header (h : (header ts).2 = .error failure) : failure.Within ts := by
  have hname := (skipWhitespace_suffix (ts.drop 1)).trans (List.drop_suffix 1 ts)
  unfold header at h
  split at h
  · rename_i hword
    cases h
    exact (within_of_expect hword).of_suffix hname
  · rename_i hword
    split at h
    · rename_i hsemicolon
      cases h
      exact (within_of_expect hsemicolon).of_suffix
        ((skipWhitespace_suffix _).trans ((expect_suffix hword).trans hname))
    · cases h

theorem Entries.cons_eq_error_iff {e : Entries} {p : Production} :
    (e.cons p).result = .error failure ↔ e.result = .error failure := by
  cases hresult : e.result <;> simp [Entries.cons, hresult, Except.map]

theorem within_of_entries (h : (entries ts).result = .error failure) : failure.Within ts := by
  fun_induction entries ts with
  | case1 => cases h
  | case2 t ts _ ih =>
    exact (ih (Entries.cons_eq_error_iff.1 h)).of_suffix
      ((skips_lineEnd ts).suffix.trans (List.suffix_cons t ts))
  | case3 t ts _ ih => exact (ih (Entries.cons_eq_error_iff.1 h)).of_suffix (List.suffix_cons t ts)
  | case4 t ts _ ih => exact (ih h).of_suffix (List.suffix_cons t ts)
  | case5 t ts _ _ name f hheader =>
    cases h
    exact within_of_header (by rw [hheader])
  | case6 t ts _ _ name after hheader ih =>
    exact (ih h).of_suffix (header_suffix (by rw [hheader]))
  | case7 t ts _ _ f hproduction =>
    cases h
    have hwithin := within_production (t :: ts)
    rw [hproduction] at hwithin
    cases hwithin with
    | failed hfailure => exact hfailure
  | case8 t ts _ _ p after _ hproduction ih =>
    have hwithin := within_production (t :: ts)
    rw [hproduction] at hwithin
    exact (ih (Entries.cons_eq_error_iff.1 h)).of_suffix hwithin.ahead
  | case9 =>
    cases h
    exact .ahead _ _
  | case10 =>
    cases h
    exact .unexpected _ _

end Parsing

end GrammarCheck
