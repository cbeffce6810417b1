import GrammarCheck.Grammar.Parsing.Entries
import GrammarCheck.Proofs.Parsing.Reads

namespace GrammarCheck

namespace Parsing

theorem dropWhile_eq_cons_iff {α : Type} {p : α → Bool} {xs ys : List α} {y : α} :
    xs.dropWhile p = y :: ys ↔ ∃ before, xs = before ++ y :: ys ∧ (∀ x ∈ before, p x) ∧ ¬ p y := by
  constructor
  · intro h
    induction xs with
    | nil => simp at h
    | cons x xs ih =>
      by_cases hx : p x
      · rw [List.dropWhile_cons_of_pos hx] at h
        obtain ⟨before, rfl, hbefore, hy⟩ := ih h
        exact ⟨x :: before, rfl, by simpa [hx] using hbefore, hy⟩
      · rw [List.dropWhile_cons_of_neg hx] at h
        obtain ⟨rfl, rfl⟩ := List.cons.inj h
        exact ⟨[], rfl, by simp, hx⟩
  · rintro ⟨before, rfl, hbefore, hy⟩
    rw [List.dropWhile_append_of_pos hbefore, List.dropWhile_cons_of_neg hy]

inductive ReadsProduction : List Token → Production → List Token → Prop
  | closed {name colon semicolon : Token} {breaks ts rest : List Token} {e : Expr}
      (areBreaks : ∀ t ∈ breaks, isBreak t) (isColon : colon.kind = .colon)
      (body : Reads .choice (skipTrivia ts) [e] (semicolon :: rest))
      (isSemicolon : semicolon.kind = .semicolon) :
    ReadsProduction (name :: (breaks ++ colon :: ts))
      { rule := some ⟨name.value, e⟩
        comment := (triviaAhead ts).comment ++ remarks rest
        startsOnNewline := breaks.any (·.kind == .newline) || (triviaAhead ts).newline }
      (skipRemarks rest)
  | last {name colon : Token} {breaks ts : List Token} {e : Expr}
      (areBreaks : ∀ t ∈ breaks, isBreak t) (isColon : colon.kind = .colon)
      (body : Reads .choice (skipTrivia ts) [e] []) :
    ReadsProduction (name :: (breaks ++ colon :: ts))
      { rule := some ⟨name.value, e⟩
        comment := (triviaAhead ts).comment
        startsOnNewline := breaks.any (·.kind == .newline) || (triviaAhead ts).newline } []

variable {t : Token} {ts rest : List Token} {p : Production}

theorem close_eq_ok_iff {name : Text} {q : Production} {bound : Nat} {h : ts.length < bound} :
    (close q name ts bound h).toExcept = .ok (p, rest) ↔
      (ts = [] ∧ p = q ∧ rest = []) ∨
        ∃ semicolon after, ts = semicolon :: after ∧ semicolon.kind = .semicolon ∧
          p = { q with comment := q.comment ++ remarks after } ∧ rest = skipRemarks after := by
  constructor
  · intro hdone
    unfold close at hdone
    split at hdone
    · simp only [Parsed.toExcept, Except.ok.injEq, Prod.mk.injEq] at hdone
      exact .inl ⟨rfl, hdone.1.symm, hdone.2.symm⟩
    · simp only [Parsed.toExcept, Except.ok.injEq, Prod.mk.injEq] at hdone
      exact .inr ⟨_, _, rfl, rfl, hdone.1.symm, hdone.2.symm⟩
    · simp [Parsed.toExcept] at hdone
    · simp [Parsed.toExcept] at hdone
  · rintro (⟨rfl, rfl, rfl⟩ | ⟨⟨kind, value, position⟩, after, rfl, hkind, rfl, rfl⟩)
    · rfl
    · cases hkind
      rfl

theorem production_of_colon (name : Token) {colon : Token} {breaks : List Token}
    (areBreaks : ∀ t ∈ breaks, isBreak t) (isColon : colon.kind = .colon) {e : Expr}
    (body : Reads .choice (skipTrivia ts) [e] rest) :
    ∃ h, production (name :: (breaks ++ colon :: ts)) =
      close
        { rule := some ⟨name.value, e⟩
          comment := (triviaAhead ts).comment
          startsOnNewline := breaks.any (·.kind == .newline) || (triviaAhead ts).newline }
        name.value rest (name :: (breaks ++ colon :: ts)).length h := by
  obtain ⟨hlen, hbody⟩ := Parsed.toExcept_eq_ok_iff.1 (choice_eq_ok_iff.2 body)
  have hshort : rest.length < (name :: (breaks ++ colon :: ts)).length := by
    have := length_skipTrivia_le ts
    simp only [List.length_cons, List.length_append]
    omega
  obtain ⟨kind, value, position⟩ := colon
  cases isColon
  have hdrop : (breaks ++ ⟨.colon, value, position⟩ :: ts).dropWhile isBreak =
      ⟨.colon, value, position⟩ :: ts := by
    rw [List.dropWhile_append_of_pos areBreaks, List.dropWhile_cons_of_neg (by simp [isBreak])]
  have htake : (breaks ++ ⟨.colon, value, position⟩ :: ts).takeWhile isBreak = breaks := by
    rw [List.takeWhile_append_of_pos areBreaks, List.takeWhile_cons_of_neg (by simp [isBreak]),
      List.append_nil]
  unfold production
  simp only [List.drop_succ_cons, List.drop_zero, List.head?_cons,
    Option.map_some, Option.getD_some, htake]
  split
  · rename_i value' position' after heq
    rw [List.drop_succ_cons, List.drop_zero, hdrop] at heq
    cases heq
    rw [hbody]
    exact ⟨hshort, rfl⟩
  · rename_i hother
    exact absurd hdrop (hother _ _ _)

theorem exists_body_of_production {name : Token}
    (hdone : (production (name :: ts)).toExcept = .ok (p, rest)) :
    ∃ breaks colon after e mid, ts = breaks ++ colon :: after ∧ (∀ t ∈ breaks, isBreak t) ∧
      colon.kind = .colon ∧ Reads .choice (skipTrivia after) [e] mid := by
  unfold production at hdone
  simp only at hdone
  split at hdone
  · rename_i value position after heq
    rw [List.drop_succ_cons, List.drop_zero, dropWhile_eq_cons_iff] at heq
    obtain ⟨breaks, rfl, hbreaks, -⟩ := heq
    split at hdone
    · simp [Parsed.toExcept] at hdone
    · rename_i e mid h hbody
      exact ⟨breaks, _, after, e, mid, rfl, hbreaks, rfl, choice_reads _ (by rw [hbody]; rfl)⟩
  · simp [Parsed.toExcept] at hdone

theorem production_eq_ok_iff {name : Token} :
    (production (name :: ts)).toExcept = .ok (p, rest) ↔ ReadsProduction (name :: ts) p rest := by
  constructor
  · intro hdone
    obtain ⟨breaks, colon, after, e, mid, rfl, hbreaks, hcolon, hbody⟩ :=
      exists_body_of_production hdone
    obtain ⟨h, heq⟩ := production_of_colon name hbreaks hcolon hbody
    rw [heq, close_eq_ok_iff] at hdone
    obtain ⟨rfl, rfl, rfl⟩ | ⟨semicolon, behind, rfl, hsemicolon, rfl, rfl⟩ := hdone
    · exact .last hbreaks hcolon hbody
    · exact .closed hbreaks hcolon hbody hsemicolon
  · intro h
    generalize hts : name :: ts = us at h
    cases h with
    | closed areBreaks isColon body isSemicolon =>
      obtain ⟨h, heq⟩ := production_of_colon _ areBreaks isColon body
      rw [heq, close_eq_ok_iff]
      exact .inr ⟨_, _, rfl, isSemicolon, rfl, rfl⟩
    | last areBreaks isColon body =>
      obtain ⟨h, heq⟩ := production_of_colon _ areBreaks isColon body
      rw [heq, close_eq_ok_iff]
      exact .inl ⟨rfl, rfl, rfl⟩

theorem expect_eq_ok_iff {kind : Token.Kind} :
    expect kind ts = .ok (t, rest) ↔ ts = t :: rest ∧ t.kind = kind := by
  cases ts with
  | nil => simp [expect]
  | cons t' ts =>
    by_cases h : t'.kind = kind
    · simp only [expect, h, beq_self_eq_true, if_true, Except.ok.injEq, Prod.mk.injEq, List.cons.injEq]
      constructor
      · rintro ⟨rfl, rfl⟩
        exact ⟨⟨rfl, rfl⟩, h⟩
      · rintro ⟨⟨rfl, rfl⟩, -⟩
        exact ⟨rfl, rfl⟩
    · simp only [expect, beq_iff_eq, h, if_false, reduceCtorEq, List.cons.injEq, false_iff]
      rintro ⟨⟨rfl, -⟩, h'⟩
      exact h h'

inductive ReadsHeader : List Token → Text → List Token → Prop
  | mk {keyword name semicolon : Token} {before after rest : List Token}
      (blankBefore : ∀ t ∈ before, t.kind = .whitespace) (isName : name.kind = .word)
      (blankAfter : ∀ t ∈ after, t.kind = .whitespace)
      (isSemicolon : semicolon.kind = .semicolon) :
    ReadsHeader (keyword :: (before ++ name :: (after ++ semicolon :: rest))) name.value
      (skipNewline (skipWhitespace rest))

theorem skipWhitespace_eq_cons_iff :
    skipWhitespace ts = t :: rest ↔ ∃ before, ts = before ++ t :: rest ∧
      (∀ x ∈ before, x.kind = .whitespace) ∧ t.kind ≠ .whitespace := by
  simp [skipWhitespace, dropWhile_eq_cons_iff]

theorem header_eq_ok_iff {keyword : Token} {name : Option Text} :
    header (keyword :: ts) = (name, .ok rest) ↔
      ∃ n, name = some n ∧ ReadsHeader (keyword :: ts) n rest := by
  constructor
  · intro h
    unfold header at h
    split at h
    · simp at h
    · rename_i nameToken behind hname
      rw [List.drop_succ_cons, List.drop_zero, expect_eq_ok_iff, skipWhitespace_eq_cons_iff] at hname
      obtain ⟨⟨before, rfl, hbefore, -⟩, hkind⟩ := hname
      split at h
      · simp at h
      · rename_i semicolon tail hsemicolon
        rw [expect_eq_ok_iff, skipWhitespace_eq_cons_iff] at hsemicolon
        obtain ⟨⟨after, rfl, hafter, -⟩, hkind'⟩ := hsemicolon
        cases h
        exact ⟨_, rfl, .mk hbefore hkind hafter hkind'⟩
  · rintro ⟨n, rfl, h⟩
    generalize hts : keyword :: ts = us at h
    cases h with
    | mk blankBefore isName blankAfter isSemicolon =>
      rename_i keyword' nameToken semicolon before after tail
      have hname : expect .word (skipWhitespace (before ++ nameToken :: (after ++ semicolon :: tail))) =
          .ok (nameToken, after ++ semicolon :: tail) :=
        expect_eq_ok_iff.2 ⟨skipWhitespace_eq_cons_iff.2
          ⟨before, rfl, blankBefore, by rw [isName]; decide⟩, isName⟩
      have hsemicolon : expect .semicolon (skipWhitespace (after ++ semicolon :: tail)) =
          .ok (semicolon, tail) :=
        expect_eq_ok_iff.2 ⟨skipWhitespace_eq_cons_iff.2
          ⟨after, rfl, blankAfter, by rw [isSemicolon]; decide⟩, isSemicolon⟩
      simp only [header, List.drop_succ_cons, List.drop_zero, hname, hsemicolon]

inductive ReadsEntries : List Token → Option Text → List Production → Prop
  | nil : ReadsEntries [] none []
  | comment {t : Token} {ts : List Token} {name : Option Text} {ps : List Production}
      (kind : t.kind = .comment) (more : ReadsEntries (skipNewline (skipWhitespace ts)) name ps) :
    ReadsEntries (t :: ts) name ({ comment := t.value.drop 2 } :: ps)
  | newline {t : Token} {ts : List Token} {name : Option Text} {ps : List Production}
      (kind : t.kind = .newline) (more : ReadsEntries ts name ps) :
    ReadsEntries (t :: ts) name ({} :: ps)
  | whitespace {t : Token} {ts : List Token} {name : Option Text} {ps : List Production}
      (kind : t.kind = .whitespace) (more : ReadsEntries ts name ps) : ReadsEntries (t :: ts) name ps
  | header {t : Token} {ts rest : List Token} {n : Text} {name : Option Text}
      {ps : List Production} (kind : t.kind = .word) (keyword : t.value = "grammar".toList)
      (head : ReadsHeader (t :: ts) n rest) (more : ReadsEntries rest name ps) :
    ReadsEntries (t :: ts) (name.or (some n)) ps
  | production {t : Token} {ts rest : List Token} {name : Option Text} {p : Production}
      {ps : List Production} (kind : t.kind = .word)
      (noHeader : ¬ (t.value = "grammar".toList ∧ isHeader (t :: ts)))
      (rule : ReadsProduction (t :: ts) p rest) (more : ReadsEntries rest name ps) :
    ReadsEntries (t :: ts) name (p :: ps)

namespace Entries

variable {e : Entries} {name : Option Text} {ps : List Production}

theorem cons_eq_ok_iff {p : Production} :
    e.cons p = ⟨name, .ok ps⟩ ↔ ∃ ps', e = ⟨name, .ok ps'⟩ ∧ ps = p :: ps' := by
  obtain ⟨n, result⟩ := e
  cases result with
  | error failure => simp [cons, Except.map]
  | ok ps' => simp [cons, Except.map, and_assoc, eq_comm]

theorem orName_eq_ok_iff {n : Option Text} :
    e.orName n = ⟨name, .ok ps⟩ ↔ ∃ name', e = ⟨name', .ok ps⟩ ∧ name = name'.or n := by
  obtain ⟨n', result⟩ := e
  simp only [orName, mk.injEq]
  constructor
  · rintro ⟨rfl, rfl⟩
    exact ⟨n', ⟨rfl, rfl⟩, rfl⟩
  · rintro ⟨name', ⟨rfl, rfl⟩, rfl⟩
    exact ⟨rfl, rfl⟩

end Entries

theorem isHeader_cons_iff :
    isHeader (t :: ts) ↔ ∃ before name behind, ts = before ++ name :: behind ∧
      (∀ x ∈ before, x.kind = .whitespace) ∧ name.kind = .word := by
  simp only [isHeader, List.drop_succ_cons, List.drop_zero]
  constructor
  · intro h
    cases hskip : skipWhitespace ts with
    | nil => simp [hskip] at h
    | cons name behind =>
      obtain ⟨before, rfl, hbefore, -⟩ := skipWhitespace_eq_cons_iff.1 hskip
      exact ⟨before, name, behind, rfl, hbefore, by simpa [hskip] using h⟩
  · rintro ⟨before, name, behind, rfl, hbefore, hname⟩
    have hskip : skipWhitespace (before ++ name :: behind) = name :: behind :=
      skipWhitespace_eq_cons_iff.2 ⟨before, rfl, hbefore, by rw [hname]; decide⟩
    simp [hskip, hname]

theorem ReadsHeader.isHeader {n : Text} (h : ReadsHeader ts n rest) : isHeader ts := by
  cases h with
  | mk blankBefore isName _ _ =>
    exact isHeader_cons_iff.2 ⟨_, _, _, rfl, blankBefore, isName⟩

theorem readsEntries_of_entries {name : Option Text} {ps : List Production}
    (h : entries ts = ⟨name, .ok ps⟩) : ReadsEntries ts name ps := by
  fun_induction entries ts generalizing name ps with
  | case1 =>
    cases h
    exact .nil
  | case2 t ts kind ih =>
    obtain ⟨ps, h', rfl⟩ := Entries.cons_eq_ok_iff.1 h
    exact .comment kind (ih h')
  | case3 t ts kind ih =>
    obtain ⟨ps, h', rfl⟩ := Entries.cons_eq_ok_iff.1 h
    exact .newline kind (ih h')
  | case4 t ts kind ih => exact .whitespace kind (ih h)
  | case5 t ts kind hkeyword n failure hheader => simp at h
  | case6 t ts kind hkeyword n rest hheader ih =>
    obtain ⟨name, h', rfl⟩ := Entries.orName_eq_ok_iff.1 h
    obtain ⟨n, rfl, hhead⟩ := header_eq_ok_iff.1 hheader
    simp only [Bool.and_eq_true, beq_iff_eq] at hkeyword
    exact .header kind hkeyword.1 hhead (ih h')
  | case7 t ts kind hkeyword failure hproduction => simp at h
  | case8 t ts kind hkeyword p rest shorter hproduction ih =>
    obtain ⟨ps, h', rfl⟩ := Entries.cons_eq_ok_iff.1 h
    have hrule := production_eq_ok_iff.1 (by rw [hproduction]; rfl)
    exact .production kind (by simpa using hkeyword) hrule (ih h')
  | case9 t ts kind => simp at h
  | case10 t ts => simp at h

theorem ReadsEntries.entries {name : Option Text} {ps : List Production}
    (h : ReadsEntries ts name ps) : entries ts = ⟨name, .ok ps⟩ := by
  induction h with
  | nil => rw [Parsing.entries]
  | comment kind _ ih =>
    rw [Parsing.entries]
    simp only [kind, ih]
    rfl
  | newline kind _ ih =>
    rw [Parsing.entries]
    simp only [kind, ih]
    rfl
  | whitespace kind _ ih =>
    rw [Parsing.entries]
    simp only [kind, ih]
  | @header t ts rest n name ps kind keyword head _ ih =>
    have hheader : Parsing.header (t :: ts) = (some n, .ok rest) := header_eq_ok_iff.2 ⟨n, rfl, head⟩
    rw [Parsing.entries]
    simp only [kind, keyword, head.isHeader, beq_self_eq_true, Bool.and_self, if_true]
    split
    · rename_i heq
      rw [hheader] at heq
      cases heq
    · rename_i heq
      rw [hheader] at heq
      cases heq
      rw [ih]
      rfl
  | @production t ts rest name p ps kind noHeader rule _ ih =>
    obtain ⟨h, hproduction⟩ := Parsed.toExcept_eq_ok_iff.1 (production_eq_ok_iff.2 rule)
    rw [Parsing.entries]
    simp only [kind]
    rw [if_neg (by simpa using noHeader), hproduction]
    simp only [ih]
    rfl

theorem entries_eq_ok_iff {name : Option Text} {ps : List Production} :
    entries ts = ⟨name, .ok ps⟩ ↔ ReadsEntries ts name ps :=
  ⟨readsEntries_of_entries, ReadsEntries.entries⟩

end Parsing

end GrammarCheck
