import GrammarCheck.Proofs.Parsing.Respelled

namespace GrammarCheck

namespace Parsing

variable {t colon : Token} {ts after mid : List Token} {e : Expr} {f : Failure}

theorem close_of_semicolon (p : Production) (name : Text) (hsemicolon : t.kind = .semicolon)
    {bound : Nat} (h : (t :: ts).length < bound) :
    ∃ h', close p name (t :: ts) bound h =
      .done { p with comment := p.comment ++ remarks ts } (skipRemarks ts) h' := by
  obtain ⟨kind, value, position⟩ := t
  cases hsemicolon
  exact ⟨_, rfl⟩

theorem close_of_closeParen (p : Production) (name : Text) (hclose : t.kind = .closeParen)
    {bound : Nat} (h : (t :: ts).length < bound) :
    close p name (t :: ts) bound h = .failed (.ahead .unexpectedClose (t :: ts)) := by
  obtain ⟨kind, value, position⟩ := t
  cases hclose
  rfl

theorem close_of_other (p : Production) (name : Text) (hsemicolon : t.kind ≠ .semicolon)
    (hclose : t.kind ≠ .closeParen) {bound : Nat} (h : (t :: ts).length < bound) :
    close p name (t :: ts) bound h = .failed (.unexpected (.expectedSemicolon name) (t :: ts)) := by
  generalize hcons : t :: ts = us at h ⊢
  unfold close
  split
  · cases hcons
  · cases hcons
    exact absurd rfl hsemicolon
  · cases hcons
    exact absurd rfl hclose
  · rfl

theorem production_of_noColon (hno : ∀ t ∈ (ts.dropWhile isBreak).head?, t.kind ≠ .colon) :
    production (t :: ts) =
      .failed (.unexpected (.expectedColon t.value) (ts.dropWhile isBreak)) := by
  unfold production
  split
  · rename_i hcolon
    rw [List.drop_succ_cons, List.drop_zero] at hcolon
    exact absurd rfl (hno _ (by rw [hcolon]; rfl))
  · rfl

theorem production_of_noBody (hcolon : ts.dropWhile isBreak = colon :: after)
    (isColon : colon.kind = .colon) (body : choice (skipTrivia after) = .failed f) :
    production (t :: ts) = .failed f := by
  obtain ⟨kind, value, position⟩ := colon
  cases isColon
  unfold production
  split
  · rename_i heq
    rw [List.drop_succ_cons, List.drop_zero, hcolon] at heq
    cases heq
    rw [body]
  · rename_i hother
    exact absurd hcolon (hother _ _ _)

theorem production_of_body (hcolon : ts.dropWhile isBreak = colon :: after)
    (isColon : colon.kind = .colon) {hshort : mid.length < (skipTrivia after).length}
    (body : choice (skipTrivia after) = .done e mid hshort) :
    ∃ h, production (t :: ts) =
      close
        { rule := some ⟨t.value, e⟩
          comment := (triviaAhead after).comment
          startsOnNewline := (ts.takeWhile isBreak).any (·.kind == .newline) ||
            (triviaAhead after).newline }
        t.value mid (t :: ts).length h := by
  obtain ⟨breaks, rfl, hbreaks, -⟩ := dropWhile_eq_cons_iff.1 hcolon
  have htake : (breaks ++ colon :: after).takeWhile isBreak = breaks := by
    rw [List.takeWhile_append_of_pos hbreaks,
      List.takeWhile_cons_of_neg (by simp [isBreak, isColon]), List.append_nil]
  have hreads := choice_reads (skipTrivia after) (by rw [body]; rfl)
  rw [htake]
  exact production_of_colon t hbreaks isColon hreads

theorem expect_cases (kind : Token.Kind) (ts : List Token) :
    (∃ t rest, ts = t :: rest ∧ t.kind = kind ∧ expect kind ts = .ok (t, rest)) ∨
      ((∀ t ∈ ts.head?, t.kind ≠ kind) ∧
        expect kind ts = .error (.unexpected (.expectedKind kind) ts)) := by
  cases ts with
  | nil => exact .inr ⟨by simp, rfl⟩
  | cons t rest =>
    by_cases hkind : t.kind = kind
    · exact .inl ⟨t, rest, rfl, hkind, expect_eq_ok_iff.2 ⟨rfl, hkind⟩⟩
    · exact .inr ⟨by simpa using hkind, by simp [expect, hkind]⟩

theorem entries_of_comment (h : t.kind = .comment) :
    entries (t :: ts) =
      (entries (skipNewline (skipWhitespace ts))).cons { comment := t.value.drop 2 } := by
  rw [entries]
  simp only [h]

theorem entries_of_newline (h : t.kind = .newline) : entries (t :: ts) = (entries ts).cons {} := by
  rw [entries]
  simp only [h]

theorem entries_of_whitespace (h : t.kind = .whitespace) : entries (t :: ts) = entries ts := by
  rw [entries]
  simp only [h]

def afterHeader : Option Text × Except Failure (List Token) → Entries
  | (name, .error failure) => ⟨name, .error failure⟩
  | (name, .ok rest) => (entries rest).orName name

theorem entries_of_header (h : t.kind = .word)
    (hkeyword : t.value == "grammar".toList && isHeader (t :: ts)) :
    entries (t :: ts) = afterHeader (header (t :: ts)) := by
  rw [entries]
  simp only [h, hkeyword, if_true]
  split
  · rename_i heq
    rw [heq]
    rfl
  · rename_i heq
    rw [heq]
    rfl

def afterProduction {n : Nat} : Parsed Production n → Entries
  | .failed failure => ⟨none, .error failure⟩
  | .done p rest _ => (entries rest).cons p

theorem entries_of_production (h : t.kind = .word)
    (hkeyword : ¬ (t.value == "grammar".toList && isHeader (t :: ts))) :
    entries (t :: ts) = afterProduction (production (t :: ts)) := by
  rw [entries]
  simp only [h]
  rw [if_neg hkeyword]
  cases production (t :: ts) <;> rfl

theorem entries_of_closeParen (h : t.kind = .closeParen) :
    entries (t :: ts) = ⟨none, .error (.ahead .unexpectedClose (t :: ts))⟩ := by
  rw [entries]
  simp only [h]

theorem entries_of_other (h : t.kind ≠ .comment ∧ t.kind ≠ .newline ∧ t.kind ≠ .whitespace ∧
    t.kind ≠ .word ∧ t.kind ≠ .closeParen) :
    entries (t :: ts) = ⟨none, .error (.unexpected .expectedName (t :: ts))⟩ := by
  rw [entries]
  split <;> simp_all

theorem expect_of_other {kind : Token.Kind} (h : ∀ t ∈ ts.head?, t.kind ≠ kind) :
    expect kind ts = .error (.unexpected (.expectedKind kind) ts) := by
  obtain ⟨t, rest, rfl, hkind, -⟩ | ⟨-, herror⟩ := expect_cases kind ts
  · exact absurd hkind (h t rfl)
  · exact herror

end Parsing

open Parsing

namespace Respelling

variable (ρ : Respelling) {t : Token} {ts : List Token}

theorem close_agrees (p : Production) (name : Text) (hts : Ready ts) {us : List Token}
    (hus : us = ρ.tokens ts) {bound bound' : Nat} (h : ts.length < bound) (h' : us.length < bound') :
    ρ.Agrees ρ.production (fun _ => True) (close p name ts bound h)
      (close (ρ.production p) name us bound' h') := by
  cases ts with
  | nil =>
    subst hus
    exact .done trivial
  | cons t rest =>
    have hahead := hts.kind_of_head
    have hkind := ρ.kind_token t
    have hcons := ρ.tokens_cons (hahead t rfl) rest
    obtain rfl : us = ρ.token t :: ρ.tokens rest := hus.trans hcons
    by_cases hsemicolon : t.kind = .semicolon
    · obtain ⟨_, hdone⟩ := close_of_semicolon p name hsemicolon h
      obtain ⟨_, hdone'⟩ := close_of_semicolon (ρ.production p) name (hkind.trans hsemicolon) h'
      rw [hdone, hdone']
      simp only [ρ.remarks_tokens, ρ.skipRemarks_tokens, ρ.comment_production,
        ← ρ.production_comment]
      exact .done trivial
    by_cases hclose : t.kind = .closeParen
    · rw [close_of_closeParen p name hclose, close_of_closeParen _ name (hkind.trans hclose), ← hcons]
      exact .failed (ρ.alike_ahead _ hahead)
    · rw [close_of_other p name hsemicolon hclose,
        close_of_other _ name (hkind ▸ hsemicolon) (hkind ▸ hclose), ← hcons]
      exact .failed (ρ.alike_unexpected (.expectedSemicolon name) (fun _ => rfl) hahead)

theorem production_agrees (t : Token) (hvalue : (ρ.token t).value = t.value) (ts : List Token) :
    ρ.Agrees ρ.production (fun _ => True) (Parsing.production (t :: ts))
      (Parsing.production (ρ.token t :: ρ.tokens ts)) := by
  have hdrop : (ρ.tokens ts).dropWhile isBreak = ρ.tokens (ts.dropWhile isBreak) :=
    ρ.dropWhile_tokens (q := fun k => k == .whitespace || k == .newline) rfl ts
  have htake : (ρ.tokens ts).takeWhile isBreak = ρ.tokens (ts.takeWhile isBreak) :=
    ρ.takeWhile_tokens (q := fun k => k == .whitespace || k == .newline) rfl ts
  have hahead : ∀ t ∈ (ts.dropWhile isBreak).head?, t.kind ≠ .whitespace :=
    kind_of_head_dropWhile (q := fun k => k == .whitespace || k == .newline) rfl ts
  by_cases hno : ∀ t ∈ (ts.dropWhile isBreak).head?, t.kind ≠ .colon
  · have hno' : ∀ t ∈ ((ρ.tokens ts).dropWhile isBreak).head?, t.kind ≠ .colon := by
      rw [hdrop]
      exact ρ.kind_of_head_tokens (· ≠ .colon) hahead hno
    rw [production_of_noColon hno, production_of_noColon hno', hvalue, hdrop]
    exact .failed (ρ.alike_unexpected (.expectedColon t.value) (fun _ => rfl) hahead)
  · obtain ⟨colon, after, hcolon, isColon⟩ := exists_cons_of_head hno
    have isColon' := (ρ.kind_token colon).trans isColon
    have hcolon' : (ρ.tokens ts).dropWhile isBreak = ρ.token colon :: ρ.tokens after := by
      rw [hdrop, hcolon, ρ.tokens_cons (by simp [isColon])]
    have hbody := ρ.choice_agrees (skipTrivia after) (ready_skipTrivia after)
    rw [← ρ.skipTrivia_tokens] at hbody
    generalize hanswer : choice (skipTrivia after) = answer at hbody
    generalize hanswer' : choice (skipTrivia (ρ.tokens after)) = answer' at hbody
    cases hbody with
    | failed alike =>
      rw [production_of_noBody hcolon isColon hanswer, production_of_noBody hcolon' isColon' hanswer']
      exact .failed alike
    | done left =>
      obtain ⟨_, hclose⟩ := production_of_body (t := t) hcolon isColon hanswer
      obtain ⟨_, hclose'⟩ := production_of_body (t := ρ.token t) hcolon' isColon' hanswer'
      rw [hclose, hclose']
      simp only [hvalue, htake, ρ.any_newline_tokens, ρ.triviaAhead_tokens, ρ.comment_trivia,
        ρ.newline_trivia, ← ρ.production_rule]
      exact ρ.close_agrees _ _ left rfl _ _

inductive ResultsAgree {α β : Type} (g : α → β) : Except Failure α → Except Failure β → Prop
  | ok (a : α) : ResultsAgree g (.ok a) (.ok (g a))
  | error {f f' : Failure} (alike : ρ.Alike f f') : ResultsAgree g (.error f) (.error f')

theorem expect_agrees (kind : Token.Kind) (hahead : ∀ t ∈ ts.head?, t.kind ≠ .whitespace) :
    ρ.ResultsAgree (Prod.map ρ.token ρ.tokens) (expect kind ts) (expect kind (ρ.tokens ts)) := by
  obtain ⟨t, rest, rfl, hkind, hok⟩ | ⟨hother, herror⟩ := expect_cases kind ts
  · have hok' : expect kind (ρ.tokens (t :: rest)) = .ok (ρ.token t, ρ.tokens rest) :=
      expect_eq_ok_iff.2 ⟨ρ.tokens_cons (hahead t rfl) rest, (ρ.kind_token t).trans hkind⟩
    rw [hok, hok']
    exact .ok (t, rest)
  · rw [herror, expect_of_other (ρ.kind_of_head_tokens (· ≠ kind) hahead hother)]
    exact .error (ρ.alike_unexpected (.expectedKind kind) (fun _ => rfl) hahead)

structure HeadersAgree (h h' : Option Text × Except Failure (List Token)) : Prop where
  name : h'.1 = h.1
  rest : ρ.ResultsAgree ρ.tokens h.2 h'.2

theorem header_agrees (t u : Token) (ts : List Token) :
    ρ.HeadersAgree (header (t :: ts)) (header (u :: ρ.tokens ts)) := by
  have hname := ρ.expect_agrees .word (kind_of_head_skipWhitespace ts)
  rw [← ρ.skipWhitespace_tokens] at hname
  simp only [header, List.drop_succ_cons, List.drop_zero]
  generalize hfound : expect .word (skipWhitespace ts) = found at hname
  generalize expect .word (skipWhitespace (ρ.tokens ts)) = found' at hname
  cases hname with
  | error alike => exact ⟨rfl, .error alike⟩
  | ok found =>
    obtain ⟨name, rest⟩ := found
    obtain ⟨-, hkind⟩ := expect_eq_ok_iff.1 hfound
    have hvalue := ρ.value_token name (by simp [hkind])
    have hend := ρ.expect_agrees .semicolon (kind_of_head_skipWhitespace rest)
    rw [← ρ.skipWhitespace_tokens] at hend
    simp only [Prod.map_apply]
    generalize expect .semicolon (skipWhitespace rest) = found at hend
    generalize expect .semicolon (skipWhitespace (ρ.tokens rest)) = found' at hend
    cases hend with
    | error alike => exact ⟨congrArg some hvalue, .error alike⟩
    | ok found =>
      refine ⟨congrArg some hvalue, ?_⟩
      simp only [Prod.map_snd, ρ.skipLineEnd_tokens]
      exact .ok _

structure EntriesAgree (e e' : Entries) : Prop where
  name : e'.name = e.name
  result : ρ.ResultsAgree (List.map ρ.production) e.result e'.result

theorem EntriesAgree.cons {ρ : Respelling} {e e' : Entries} (h : ρ.EntriesAgree e e')
    {p p' : Production} (hp : p' = ρ.production p) : ρ.EntriesAgree (e.cons p) (e'.cons p') := by
  subst hp
  obtain ⟨name, result⟩ := e
  obtain ⟨name', result'⟩ := e'
  obtain ⟨rfl, hresult⟩ := h
  cases hresult with
  | ok ps => exact ⟨rfl, .ok (p :: ps)⟩
  | error alike => exact ⟨rfl, .error alike⟩

theorem EntriesAgree.orName {ρ : Respelling} {e e' : Entries} (h : ρ.EntriesAgree e e')
    (name : Option Text) : ρ.EntriesAgree (e.orName name) (e'.orName name) :=
  ⟨congrArg (·.or name) h.name, h.result⟩

theorem opensHeader_tokens (hword : t.kind = .word) (ts : List Token) :
    ((ρ.token t).value == "grammar".toList && isHeader (ρ.token t :: ρ.tokens ts)) =
      (t.value == "grammar".toList && isHeader (t :: ts)) := by
  rw [ρ.isHeader_cons_tokens t, ρ.value_token t (by simp [hword])]

theorem entries_tokens_of_header (hword : t.kind = .word)
    (hkeyword : t.value == "grammar".toList && isHeader (t :: ts)) :
    entries (ρ.tokens (t :: ts)) = afterHeader (header (ρ.token t :: ρ.tokens ts)) := by
  rw [ρ.tokens_cons (by simp [hword])]
  exact entries_of_header ((ρ.kind_token t).trans hword)
    ((ρ.opensHeader_tokens hword ts).trans hkeyword)

theorem entries_tokens_of_production (hword : t.kind = .word)
    (hkeyword : ¬ (t.value == "grammar".toList && isHeader (t :: ts))) :
    entries (ρ.tokens (t :: ts)) =
      afterProduction (Parsing.production (ρ.token t :: ρ.tokens ts)) := by
  rw [ρ.tokens_cons (by simp [hword])]
  apply entries_of_production ((ρ.kind_token t).trans hword)
  rwa [ρ.opensHeader_tokens hword]

theorem entries_agrees (ts : List Token) : ρ.EntriesAgree (entries ts) (entries (ρ.tokens ts)) := by
  fun_induction entries ts with
  | case1 =>
    rw [show ρ.tokens [] = [] from rfl, entries]
    exact ⟨rfl, .ok []⟩
  | case2 t ts hcomment ih =>
    have hvalue := ρ.value_token t (by simp [hcomment])
    rw [ρ.tokens_cons (by simp [hcomment]), entries_of_comment ((ρ.kind_token t).trans hcomment),
      ρ.skipLineEnd_tokens, hvalue]
    exact ih.cons (ρ.production_remark _).symm
  | case3 t ts hnewline ih =>
    rw [ρ.tokens_cons (by simp [hnewline]), entries_of_newline ((ρ.kind_token t).trans hnewline)]
    exact ih.cons (ρ.production_remark _).symm
  | case4 t ts hwhitespace ih =>
    cases hkeeps : ρ.keeps t with
    | false => rwa [ρ.tokens_cons_of_not_keeps hkeeps]
    | true =>
      rwa [ρ.tokens_cons_of_keeps hkeeps,
        entries_of_whitespace ((ρ.kind_token t).trans hwhitespace)]
  | case5 t ts hword hkeyword name failure hheader =>
    have hagrees := ρ.header_agrees t (ρ.token t) ts
    rw [hheader] at hagrees
    rw [ρ.entries_tokens_of_header hword hkeyword]
    generalize header (ρ.token t :: ρ.tokens ts) = answer at hagrees
    obtain ⟨name', result⟩ := answer
    obtain ⟨rfl, _ | alike⟩ := hagrees
    exact ⟨rfl, .error alike⟩
  | case6 t ts hword hkeyword name rest hheader ih =>
    have hagrees := ρ.header_agrees t (ρ.token t) ts
    rw [hheader] at hagrees
    rw [ρ.entries_tokens_of_header hword hkeyword]
    generalize header (ρ.token t :: ρ.tokens ts) = answer at hagrees
    obtain ⟨name', result⟩ := answer
    obtain ⟨rfl, _ | _⟩ := hagrees
    exact ih.orName _
  | case7 t ts hword hkeyword failure hproduction =>
    have hagrees := ρ.production_agrees t (ρ.value_token t (by simp [hword])) ts
    rw [hproduction] at hagrees
    rw [ρ.entries_tokens_of_production hword hkeyword]
    generalize Parsing.production (ρ.token t :: ρ.tokens ts) = answer at hagrees
    cases hagrees with
    | failed alike => exact ⟨rfl, .error alike⟩
  | case8 t ts hword hkeyword p rest shorter hproduction ih =>
    have hagrees := ρ.production_agrees t (ρ.value_token t (by simp [hword])) ts
    rw [hproduction] at hagrees
    rw [ρ.entries_tokens_of_production hword hkeyword]
    generalize Parsing.production (ρ.token t :: ρ.tokens ts) = answer at hagrees
    cases hagrees with
    | done _ => exact ih.cons rfl
  | case9 t ts hclose =>
    have hahead : ∀ u ∈ (t :: ts).head?, u.kind ≠ .whitespace := by simp [hclose]
    rw [ρ.tokens_cons (hahead t rfl), entries_of_closeParen ((ρ.kind_token t).trans hclose),
      ← ρ.tokens_cons (hahead t rfl)]
    exact ⟨rfl, .error (ρ.alike_ahead _ hahead)⟩
  | case10 t ts hcomment hnewline hwhitespace hword hclose =>
    have hahead : ∀ u ∈ (t :: ts).head?, u.kind ≠ .whitespace := by simpa using hwhitespace
    rw [ρ.tokens_cons (hahead t rfl), entries_of_other (by
        rw [ρ.kind_token]
        exact ⟨hcomment, hnewline, hwhitespace, hword, hclose⟩),
      ← ρ.tokens_cons (hahead t rfl)]
    exact ⟨rfl, .error (ρ.alike_unexpected .expectedName (fun _ => rfl) hahead)⟩

end Respelling

end GrammarCheck
