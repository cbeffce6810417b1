import GrammarCheck.Grammar.File
import GrammarCheck.Grammar.Parsing.Parser
import GrammarCheck.Proofs.Notation.Lexed
import GrammarCheck.Proofs.Parsing.Completeness

namespace GrammarCheck

open Parsing

variable {t : Token} {ts us : List Token} {rules : List (Text × Expr)}

/-- Layout apart, a place in a list of tokens is given by what is meant from there on. -/
theorem Ready.eq_of_suffix (h : Ready ts) (hsuffix : us <:+ ts)
    (hmeaning : meaning ts = meaning us) : ts = us := by
  obtain ⟨before, rfl⟩ := hsuffix
  cases before with
  | nil => rfl
  | cons t before =>
    rw [meaning_append, List.append_left_eq_self, meaning_cons (h t rfl)] at hmeaning
    cases hmeaning

theorem Derives.reads_upTo {body : List Token} {semicolon : Token} {e : Expr}
    (h : Derives .choice (meaning body) [e]) (hkind : semicolon.kind = .semicolon)
    (after : List Token) :
    ∃ e', Reads .choice (skipTrivia (body ++ semicolon :: after)) [e'] (semicolon :: after) ∧
      e'.erase = e := by
  have hall : meaning (body ++ semicolon :: after) =
      meaning body ++ (.semicolon, semicolon.value) :: meaning after := by
    rw [meaning_append, meaning_cons_of_kind hkind rfl]
  obtain ⟨e', rest, hread, he, hrest, hready⟩ := h.isRead _ _ (ready_skipTrivia _)
    (by rw [meaning_skipTrivia, hall]) (by simp [EndsChoice])
  obtain ⟨u, us, rfl, hu, -, hus⟩ := hready.eq_cons hrest
  have hsuffix : u :: us <:+ body ++ semicolon :: after :=
    hread.suffix.trans (List.dropWhile_suffix _)
  have hmeaning : meaning (u :: us) = meaning (semicolon :: after) := by
    rw [hrest, meaning_cons_of_kind hkind rfl]
  have hplace : u :: us = semicolon :: after := by
    obtain hle | hle := List.suffix_or_suffix_of_suffix hsuffix (List.suffix_append _ _)
    · refine (Ready.eq_of_suffix (fun x hx => ?_) hle hmeaning.symm).symm
      obtain rfl : semicolon = x := by simpa using hx
      simp [Token.isTrivia, hkind, Token.Kind.isTrivia]
    · exact hready.eq_of_suffix hle hmeaning
  exact ⟨e', hplace ▸ hread, (List.cons.inj he).1⟩

theorem Derives.reads_toEnd {body : List Token} {e : Expr}
    (h : Derives .choice (meaning body) [e]) :
    ∃ e', Reads .choice (skipTrivia body) [e'] [] ∧ e'.erase = e := by
  obtain ⟨e', rest, hread, he, hrest, hready⟩ := h.isRead _ [] (ready_skipTrivia _)
    (by rw [meaning_skipTrivia, List.append_nil]) (by simp [EndsChoice])
  obtain rfl := hready.eq_nil hrest
  exact ⟨e', hread, (List.cons.inj he).1⟩

theorem opensHeader_cons_iff :
    OpensHeader (t :: ts) ↔ t.kind = .word ∧ t.value = "grammar".toList ∧ isHeader (t :: ts) := by
  have hhead : (∃ u ∈ (skipWhitespace ts).head?, u.kind = .word) ↔ isHeader (t :: ts) := by
    simp [isHeader]
  rw [← hhead]
  rfl

theorem DerivesEntry.ne_nil (h : DerivesEntry ts rules) : ts ≠ [] := by
  cases h <;> simp

namespace DerivesGrammar

theorem of_trivia_cons (h : DerivesGrammar (t :: ts) rules) (ht : t.isTrivia) :
    DerivesGrammar ts rules := by
  have hword : ∀ u : Token, u.kind = .word → u ≠ t := by
    rintro u hu rfl
    simp [Token.isTrivia, hu, Token.Kind.isTrivia] at ht
  generalize hall : t :: ts = all at h
  cases h with
  | nil => cases hall
  | cons hentry hmore =>
    cases hentry with
    | layout =>
      cases hall
      exact hmore
    | header isWord => exact absurd (List.cons.inj hall).1.symm (hword _ isWord)
    | rule hrule =>
      cases hrule with
      | mk isName => exact absurd (List.cons.inj hall).1.symm (hword _ isName)
  | openRule hrule =>
    cases hrule with
    | mk isName => exact absurd (List.cons.inj hall).1.symm (hword _ isName)

theorem of_trivia_append (hus : ∀ u ∈ us, u.isTrivia) (h : DerivesGrammar (us ++ ts) rules) :
    DerivesGrammar ts rules := by
  induction us with
  | nil => exact h
  | cons u us ih =>
    exact ih (fun v hv => hus v (List.mem_cons_of_mem _ hv)) (h.of_trivia_cons (hus u (by simp)))

theorem to_skips (hskips : Skips us ts) (h : DerivesGrammar us rules) :
    DerivesGrammar ts rules := by
  obtain ⟨before, rfl, hbefore⟩ := hskips
  exact of_trivia_append hbefore h

theorem readsEntries (h : DerivesGrammar ts rules) :
    ∃ name ps, ReadsEntries ts name ps ∧ plainRules ps = rules := by
  induction hn : ts.length using Nat.strongRecOn generalizing ts rules with
  | ind n ih =>
    cases h with
    | nil => exact ⟨none, [], .nil, rfl⟩
    | openRule hrule =>
      cases hrule with
      | mk isName areBreaks isColon noHeader derived =>
        obtain ⟨e, hread, rfl⟩ := derived.reads_toEnd
        refine ⟨none, _, .production isName (fun h => noHeader ?_)
          (.last (fun t ht => isBreak_iff.2 (areBreaks t ht)) isColon hread) .nil, rfl⟩
        exact opensHeader_cons_iff.2 ⟨isName, h⟩
    | @cons entry after rules rules' hentry hmore =>
      have hlt : after.length < n := by
        have := List.length_pos_iff.2 hentry.ne_nil
        simp only [List.length_append] at hn
        omega
      -- reading goes on behind the layout on the line of the entry
      have hleft : ∀ rest, Skips after rest →
          ∃ name ps, ReadsEntries rest name ps ∧ plainRules ps = rules' :=
        fun rest hskips => ih _ (Nat.lt_of_le_of_lt hskips.length_le hlt) (hmore.to_skips hskips) rfl
      cases hentry with
      | layout isTrivia =>
        obtain kind | kind | kind := Token.isTrivia_iff.1 isTrivia
        · obtain ⟨name, ps, hread, hps⟩ := hleft _ (skips_lineEnd after)
          exact ⟨name, _, .comment kind hread, hps⟩
        · obtain ⟨name, ps, hread, hps⟩ := hleft after .refl
          exact ⟨name, ps, .whitespace kind hread, hps⟩
        · obtain ⟨name, ps, hread, hps⟩ := hleft after .refl
          exact ⟨name, _, .newline kind hread, hps⟩
      | @header keyword n' semicolon before behind isWord isKeyword blankBefore isName blankAfter
          isSemicolon =>
        obtain ⟨name, ps, hread, hps⟩ := hleft _ (skips_lineEnd after)
        have hhead : ReadsHeader (keyword :: (before ++ n' :: (behind ++ semicolon :: after)))
            n'.value (skipNewline (skipWhitespace after)) :=
          .mk blankBefore isName blankAfter isSemicolon
        have hentry := ReadsEntries.header isWord isKeyword hhead hread
        exact ⟨_, ps, by simpa using hentry, hps⟩
      | @rule _ _ semicolon hrule isSemicolon =>
        cases hrule with
        | @mk n' colon breaks body _ isName areBreaks isColon noHeader derived =>
          obtain ⟨e, hbody, rfl⟩ := derived.reads_upTo isSemicolon after
          obtain ⟨name, ps, hread, hps⟩ := hleft _ (skips_skipRemarks after)
          have hno : ¬ OpensHeader (n' :: (breaks ++ colon :: (body ++ semicolon :: after))) :=
            not_opensHeader areBreaks isColon _
          have hentry := ReadsEntries.production isName
            (fun h => hno (opensHeader_cons_iff.2 ⟨isName, h⟩))
            (.closed (fun t ht => isBreak_iff.2 (areBreaks t ht)) isColon hbody isSemicolon) hread
          refine ⟨name, _ :: ps, by simpa using hentry, ?_⟩
          rw [plainRules_cons, hps]
          rfl

end DerivesGrammar

namespace Grammar

variable {source name text : Text} {g : Grammar}

theorem ofText_eq_ok_iff : ofText source name text = .ok g ↔
    ∃ ts n ps, TokenList.ofText source text = .ok ts ∧ ReadsEntries ts.tokens n ps ∧
      g = ⟨n.getD name, ps, newlineOf ts.tokens⟩ := by
  unfold ofText
  constructor
  · intro h
    split at h
    · cases h
    · rename_i ts hts
      dsimp only at h
      split at h
      · cases h
      · rename_i ps hps
        cases h
        refine ⟨ts, _, ps, hts, entries_eq_ok_iff.1 ?_, rfl⟩
        rw [← hps]
  · rintro ⟨ts, n, ps, hts, hread, rfl⟩
    rw [hts]
    dsimp only
    rw [entries_eq_ok_iff.2 hread]

/-- A text is accepted exactly if a grammar is derived from its tokens, and its rules, layout aside,
are the derived ones. -/
theorem ofText_iff_derivesGrammar {ts : TokenList} (h : TokenList.ofText source text = .ok ts)
    (name : Text) (rules : List (Text × Expr)) :
    (∃ g, ofText source name text = .ok g ∧ plainRules g.productions = rules) ↔
      DerivesGrammar ts.tokens rules := by
  constructor
  · rintro ⟨g, hg, rfl⟩
    obtain ⟨ts', n, ps, hts, hread, rfl⟩ := ofText_eq_ok_iff.1 hg
    obtain rfl : ts = ts' := Except.ok.inj (h.symm.trans hts)
    exact hread.derives
  · intro hderives
    obtain ⟨n, ps, hread, hps⟩ := hderives.readsEntries
    exact ⟨_, ofText_eq_ok_iff.2 ⟨ts, n, ps, h, hread, rfl⟩, hps⟩

theorem ofText_open_rule :
    TokenList.ofText [] ['a', ':', 'b'] =
        .ok ⟨[⟨.word, ['a'], ⟨1, 1⟩⟩, ⟨.colon, [':'], ⟨1, 2⟩⟩, ⟨.word, ['b'], ⟨1, 3⟩⟩], ⟨1, 4⟩⟩ ∧
      ∃ g, ofText [] [] ['a', ':', 'b'] = .ok g ∧
        plainRules g.productions = [(['a'], .leaf (.reference ['b']) {})] := by
  have htokens : TokenList.ofText [] ['a', ':', 'b'] =
      .ok ⟨[⟨.word, ['a'], ⟨1, 1⟩⟩, ⟨.colon, [':'], ⟨1, 2⟩⟩, ⟨.word, ['b'], ⟨1, 3⟩⟩], ⟨1, 4⟩⟩ := by
    exact TokenList.ofText_eq_ok_iff.2 (by decide +kernel)
  have hbody : Derives .choice [(.word, ['b'])] [.leaf (.reference ['b']) {}] :=
    .choice (.lastAlternative (.sequence (.lastItem (.atom .reference))))
  refine ⟨htokens, (ofText_iff_derivesGrammar htokens [] _).2 (.openRule ?_)⟩
  have hnone : ∀ t ∈ ([] : List Token), t.kind = .whitespace ∨ t.kind = .newline := by simp
  exact .mk rfl hnone rfl (not_opensHeader hnone rfl _) hbody

end Grammar

end GrammarCheck
