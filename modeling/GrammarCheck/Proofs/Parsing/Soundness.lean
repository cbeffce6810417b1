import GrammarCheck.Proofs.Parsing.Derivation
import GrammarCheck.Proofs.Parsing.ReadsEntries

namespace GrammarCheck

namespace Parsing

variable {ts rest : List Token} {es : List Expr} {part : Part}

/-- What is used up by a part is derived from it. A part that goes on from an expression completes
any derivation of that. -/
def Part.Denotes (used : List Symbol) (es : List Expr) : Part → Prop
  | .choice => Derives .choice used (es.map Expr.erase)
  | .alternatives c => ∀ ss, Derives .sequence ss [c.erase] →
    Derives .alternatives (ss ++ used) (es.map Expr.erase)
  | .sequence => Derives .sequence used (es.map Expr.erase)
  | .items c => ∀ ss, Derives .unary ss [c.erase] →
    Derives .items (ss ++ used) (es.map Expr.erase)
  | .unary => Derives .unary used (es.map Expr.erase)
  | .repetitions c => ∀ ss, Derives .unary ss [c.erase] →
    Derives .unary (ss ++ used) (es.map Expr.erase)
  | .atom => Derives .atom used (es.map Expr.erase)

theorem meaning_cons_of_kind {t : Token} {kind : Token.Kind} (h : t.kind = kind)
    (hkind : kind.isTrivia = false) (ts : List Token) :
    meaning (t :: ts) = (kind, t.value) :: meaning ts := by
  rw [meaning_cons (by rw [Token.isTrivia, h, hkind]), Token.symbol, h]

theorem skipBar_cases (ts : List Token) :
    (∃ v, meaning ts = (.bar, v) :: meaning (skipBar ts)) ∨ skipBar ts = ts := by
  unfold skipBar
  split
  · exact .inl ⟨_, by rw [meaning_skipTrivia]; rfl⟩
  · exact .inr rfl

theorem Reads.denotes (h : Reads part ts es rest) :
    ∃ used, meaning ts = used ++ meaning rest ∧ part.Denotes used es := by
  induction h with
  | @choice ts mid rest e es _ _ ihFirst ihMore =>
    obtain ⟨used, hused, hfirst⟩ := ihFirst
    obtain ⟨used', hused', hmore⟩ := ihMore
    have hall := hmore used (by simpa [Part.Denotes] using hfirst)
    obtain ⟨v, hbar⟩ | hbar := skipBar_cases ts
    · refine ⟨(.bar, v) :: (used ++ used'), by simp [hbar, hused, hused'], ?_⟩
      simpa [Part.Denotes, Expr.erase_join] using Derives.barredChoice hall
    · refine ⟨used ++ used', by rw [← hbar]; simp [hused, hused'], ?_⟩
      simpa [Part.Denotes, Expr.erase_join] using Derives.choice hall
  | @alternative t ts mid rest c e es bar _ _ ihHead ihMore =>
    obtain ⟨used, hused, hhead⟩ := ihHead
    obtain ⟨used', hused', hmore⟩ := ihMore
    rw [meaning_skipTrivia] at hused
    refine ⟨(.bar, t.value) :: (used ++ used'), ?_, fun ss hc => ?_⟩
    · rw [meaning_cons_of_kind bar rfl, hused, hused']
      simp
    · simpa using Derives.alternative hc (hmore used (by simpa [Part.Denotes] using hhead))
  | lastAlternative noBar =>
    exact ⟨[], rfl, fun ss hc => by simpa using Derives.lastAlternative hc⟩
  | sequence _ _ ihFirst ihMore =>
    obtain ⟨used, hused, hfirst⟩ := ihFirst
    obtain ⟨used', hused', hmore⟩ := ihMore
    refine ⟨used ++ used', by simp [hused, hused'], ?_⟩
    simpa [Part.Denotes, Expr.erase_join] using
      Derives.sequence (hmore used (by simpa [Part.Denotes] using hfirst))
  | item goesOn _ _ ihHead ihMore =>
    obtain ⟨used, hused, hhead⟩ := ihHead
    obtain ⟨used', hused', hmore⟩ := ihMore
    refine ⟨used ++ used', by simp [hused, hused'], fun ss hc => ?_⟩
    simpa using Derives.item hc (hmore used (by simpa [Part.Denotes] using hhead))
  | lastItem ends => exact ⟨[], rfl, fun ss hc => by simpa using Derives.lastItem hc⟩
  | unary _ _ ihFirst ihMore =>
    obtain ⟨used, hused, hfirst⟩ := ihFirst
    obtain ⟨used', hused', hmore⟩ := ihMore
    exact ⟨used ++ used', by simp [hused, hused'],
      hmore used (.atom (by simpa [Part.Denotes] using hfirst))⟩
  | @mark t ts rest c es r mark _ ih =>
    obtain ⟨used, hused, hmore⟩ := ih
    have hkind := Repetition.ofKind?_eq_some_iff.1 mark
    rw [meaning_skipTrivia] at hused
    refine ⟨(r.kind, t.value) :: used, ?_, fun ss hc => ?_⟩
    · rw [meaning_cons_of_kind hkind (by cases r <;> rfl), hused]
      rfl
    · simpa using hmore (ss ++ [(r.kind, t.value)]) (.repeated hc)
  | noMark noMark => exact ⟨[], rfl, fun ss hc => by simpa using hc⟩
  | @group t close ts rest e opening _ closing ih =>
    obtain ⟨used, hused, hbody⟩ := ih
    rw [meaning_skipTrivia, meaning_cons_of_kind closing rfl] at hused
    refine ⟨(.openParen, t.value) :: used ++ [(.closeParen, close.value)], ?_, ?_⟩
    · rw [meaning_cons_of_kind opening rfl, hused]
      simp
    · simpa [Part.Denotes] using Derives.group (by simpa [Part.Denotes] using hbody)
  | @terminal t ts l kind legal =>
    refine ⟨[(.terminal, t.value)], ?_, .terminal (Leaf.ofTerminal_eq_ok_iff.1 legal)⟩
    rw [meaning_cons_of_kind kind rfl, meaning_skipTrivia]
    rfl
  | @reference t ts kind =>
    refine ⟨[(.word, t.value)], ?_, .reference⟩
    rw [meaning_cons_of_kind kind rfl, meaning_skipTrivia]
    rfl

theorem skipTrivia_suffix (ts : List Token) : skipTrivia ts <:+ ts := List.dropWhile_suffix _

theorem skipBar_suffix (ts : List Token) : skipBar ts <:+ ts := by
  unfold skipBar
  split
  · exact (skipTrivia_suffix _).trans (List.suffix_cons _ _)
  · exact List.suffix_refl _

theorem Reads.suffix (h : Reads part ts es rest) : rest <:+ ts := by
  induction h with
  | choice _ _ ihFirst ihMore => exact (ihMore.trans ihFirst).trans (skipBar_suffix _)
  | alternative _ _ _ ihHead ihMore =>
    exact ((ihMore.trans ihHead).trans (skipTrivia_suffix _)).trans (List.suffix_cons _ _)
  | lastAlternative | lastItem | noMark => exact List.suffix_refl _
  | sequence _ _ ihFirst ihMore => exact ihMore.trans ihFirst
  | item _ _ _ ihHead ihMore => exact ihMore.trans ihHead
  | unary _ _ ihFirst ihMore => exact ihMore.trans ihFirst
  | mark _ _ ih => exact (ih.trans (skipTrivia_suffix _)).trans (List.suffix_cons _ _)
  | group _ _ _ ih =>
    have hbody := ((skipTrivia_suffix _).trans (List.suffix_cons _ _)).trans ih
    exact (hbody.trans (skipTrivia_suffix _)).trans (List.suffix_cons _ _)
  | terminal | reference => exact (skipTrivia_suffix _).trans (List.suffix_cons _ _)

theorem Reads.exists_body {e : Expr} (h : Reads .choice (skipTrivia ts) [e] rest) :
    ∃ body, ts = body ++ rest ∧ Derives .choice (meaning body) [e.erase] := by
  obtain ⟨body, rfl⟩ := h.suffix.trans (List.dropWhile_suffix _)
  obtain ⟨used, hused, hderives⟩ := h.denotes
  rw [meaning_skipTrivia, meaning_append] at hused
  refine ⟨body, rfl, ?_⟩
  rw [List.append_cancel_right hused]
  exact hderives

def Skips (ts rest : List Token) : Prop := ∃ us, ts = us ++ rest ∧ ∀ t ∈ us, t.isTrivia

theorem Skips.refl : Skips ts ts := ⟨[], rfl, by simp⟩

theorem Skips.suffix (h : Skips ts rest) : rest <:+ ts := by
  obtain ⟨us, rfl, -⟩ := h
  exact List.suffix_append us rest

theorem Skips.length_le (h : Skips ts rest) : rest.length ≤ ts.length := by
  obtain ⟨us, rfl, -⟩ := h
  simp

theorem Skips.trans {us : List Token} (h : Skips ts us) (h' : Skips us rest) : Skips ts rest := by
  obtain ⟨vs, rfl, hvs⟩ := h
  obtain ⟨ws, rfl, hws⟩ := h'
  refine ⟨vs ++ ws, by simp, fun t ht => ?_⟩
  obtain ht | ht := List.mem_append.1 ht
  · exact hvs t ht
  · exact hws t ht

theorem skips_dropWhile {p : Token → Bool} (hp : ∀ t, p t → t.isTrivia) (ts : List Token) :
    Skips ts (ts.dropWhile p) := by
  induction ts with
  | nil => exact .refl
  | cons t ts ih =>
    by_cases ht : p t
    · rw [List.dropWhile_cons_of_pos ht]
      exact Skips.trans ⟨[t], rfl, by simpa using hp t ht⟩ ih
    · rw [List.dropWhile_cons_of_neg ht]
      exact .refl

theorem skips_skipNewline (ts : List Token) : Skips ts (skipNewline ts) := by
  cases ts with
  | nil => exact .refl
  | cons t ts =>
    by_cases ht : t.kind = .newline
    · exact ⟨[t], by simp [skipNewline, ht], by simp [Token.isTrivia, ht, Token.Kind.isTrivia]⟩
    · exact ⟨[], by simp [skipNewline, ht], by simp⟩

theorem skips_lineEnd (ts : List Token) : Skips ts (skipNewline (skipWhitespace ts)) := by
  refine (skips_dropWhile (fun t ht => ?_) ts).trans (skips_skipNewline _)
  simp only [beq_iff_eq] at ht
  simp [Token.isTrivia, ht, Token.Kind.isTrivia]

theorem skips_skipRemarks (ts : List Token) : Skips ts (skipRemarks ts) := by
  refine (skips_dropWhile (fun t ht => ?_) ts).trans (skips_skipNewline _)
  simp only [isRemark, Bool.or_eq_true, beq_iff_eq] at ht
  obtain ht | ht := ht <;> simp [Token.isTrivia, ht, Token.Kind.isTrivia]

theorem suffix_of_colon (name colon : Token) (breaks ts : List Token) :
    colon :: ts <:+ name :: (breaks ++ colon :: ts) :=
  (List.suffix_append breaks _).trans (List.suffix_cons name _)

theorem ReadsProduction.suffix {p : Production} (h : ReadsProduction ts p rest) : rest <:+ ts := by
  cases h with
  | @closed name colon semicolon breaks after behind e _ _ body =>
    have hbody := body.suffix.trans ((skipTrivia_suffix after).trans (List.suffix_cons colon after))
    have hbehind := (skips_skipRemarks behind).suffix.trans (List.suffix_cons semicolon behind)
    exact (hbehind.trans hbody).trans (suffix_of_colon name colon breaks after)
  | last => exact List.nil_suffix

theorem ReadsHeader.suffix {name : Text} (h : ReadsHeader ts name rest) : rest <:+ ts := by
  cases h with
  | mk =>
    apply (skips_lineEnd _).suffix.trans
    exact (List.suffix_cons _ _).trans ((List.suffix_append _ _).trans ((List.suffix_cons _ _).trans
      ((List.suffix_append _ _).trans (List.suffix_cons _ _))))

end Parsing

open Parsing

def plainRules (ps : List Production) : List (Text × Expr) :=
  (ps.filterMap (·.rule)).map fun rule => (rule.name, rule.body.erase)

theorem plainRules_cons (p : Production) (ps : List Production) :
    plainRules (p :: ps) = plainRules [p] ++ plainRules ps := by
  rw [← List.singleton_append]
  simp only [plainRules, List.filterMap_append, List.map_append]

theorem DerivesGrammar.of_skips {ts rest : List Token} {rules : List (Text × Expr)}
    (hskips : Skips ts rest) (h : DerivesGrammar rest rules) : DerivesGrammar ts rules := by
  obtain ⟨us, rfl, hus⟩ := hskips
  induction us with
  | nil => exact h
  | cons t us ih =>
    exact .cons (.layout (hus t (by simp))) (ih fun t ht => hus t (List.mem_cons_of_mem _ ht))

theorem not_opensHeader {name colon : Token} {breaks : List Token}
    (areBreaks : ∀ t ∈ breaks, t.kind = .whitespace ∨ t.kind = .newline)
    (isColon : colon.kind = .colon) (ts : List Token) :
    ¬ OpensHeader (name :: (breaks ++ colon :: ts)) := by
  rintro ⟨-, -, t, ht, hkind⟩
  induction breaks with
  | nil => simp_all
  | cons b breaks ih =>
    obtain hb | hb := areBreaks b (by simp)
    · rw [List.cons_append, List.dropWhile_cons_of_pos (by simp [hb])] at ht
      exact ih (fun t ht => areBreaks t (List.mem_cons_of_mem _ ht)) ht
    · rw [List.cons_append, List.dropWhile_cons_of_neg (by simp [hb])] at ht
      simp only [List.head?_cons, Option.mem_def, Option.some.injEq] at ht
      simp [← ht, hb] at hkind

theorem isBreak_iff {t : Token} : isBreak t ↔ t.kind = .whitespace ∨ t.kind = .newline := by
  simp [isBreak]

theorem Parsing.ReadsProduction.derives {name : Token} {ts rest : List Token} {p : Production}
    (isName : name.kind = .word) (h : ReadsProduction (name :: ts) p rest) :
    ∃ e, plainRules [p] = [(name.value, e)] ∧
      (DerivesRule (name :: ts) (name.value, e) ∧ rest = [] ∨
        ∃ rule semicolon after, name :: ts = rule ++ semicolon :: after ∧
          DerivesRule rule (name.value, e) ∧ semicolon.kind = .semicolon ∧ Skips after rest) := by
  generalize hus : name :: ts = us at h
  cases h with
  | closed areBreaks isColon body isSemicolon =>
    cases hus
    obtain ⟨used, rfl, hbody⟩ := body.exists_body
    have areBreaks' := fun t ht => isBreak_iff.1 (areBreaks t ht)
    refine ⟨_, rfl, .inr ⟨_, _, _, ?_,
      .mk isName areBreaks' isColon (not_opensHeader areBreaks' isColon used) hbody, isSemicolon,
      skips_skipRemarks _⟩⟩
    simp
  | last areBreaks isColon body =>
    cases hus
    obtain ⟨used, rfl, hbody⟩ := body.exists_body
    have areBreaks' := fun t ht => isBreak_iff.1 (areBreaks t ht)
    rw [List.append_nil]
    exact ⟨_, rfl, .inl ⟨.mk isName areBreaks' isColon
      (not_opensHeader areBreaks' isColon used) hbody, rfl⟩⟩

theorem Parsing.ReadsHeader.derives {keyword : Token} {ts rest : List Token} {n : Text}
    (isWord : keyword.kind = .word) (isKeyword : keyword.value = "grammar".toList)
    (h : ReadsHeader (keyword :: ts) n rest) :
    ∃ entry after, keyword :: ts = entry ++ after ∧ DerivesEntry entry [] ∧ Skips after rest := by
  generalize hus : keyword :: ts = us at h
  cases h with
  | mk blankBefore isName blankAfter isSemicolon =>
    cases hus
    refine ⟨_, _, ?_, .header isWord isKeyword blankBefore isName blankAfter isSemicolon,
      skips_lineEnd _⟩
    simp

theorem Token.isTrivia_iff {t : Token} :
    t.isTrivia ↔ t.kind = .comment ∨ t.kind = .whitespace ∨ t.kind = .newline := by
  cases h : t.kind <;> simp [Token.isTrivia, Token.Kind.isTrivia, h]

theorem Token.isTrivia_of_kind {t : Token} {kind : Token.Kind} (h : t.kind = kind)
    (hkind : kind.isTrivia) : t.isTrivia := by
  rw [Token.isTrivia, h, hkind]

theorem Parsing.ReadsEntries.derives {ts : List Token} {name : Option Text} {ps : List Production}
    (h : ReadsEntries ts name ps) : DerivesGrammar ts (plainRules ps) := by
  induction h with
  | nil => exact .nil
  | comment kind _ ih =>
    exact .cons (.layout (Token.isTrivia_of_kind kind rfl)) (.of_skips (skips_lineEnd _) ih)
  | newline kind _ ih => exact .cons (.layout (Token.isTrivia_of_kind kind rfl)) ih
  | whitespace kind _ ih => exact .cons (.layout (Token.isTrivia_of_kind kind rfl)) ih
  | header kind keyword head _ ih =>
    obtain ⟨entry, after, heq, hentry, hskips⟩ := head.derives kind keyword
    rw [heq]
    exact .cons hentry (.of_skips hskips ih)
  | @production t ts rest name p ps kind noHeader rule more ih =>
    obtain ⟨e, hplain, ⟨hrule, rfl⟩ | ⟨used, semicolon, after, heq, hrule, hsemicolon, hskips⟩⟩ :=
      rule.derives kind
    · cases more
      rw [hplain]
      exact .openRule hrule
    · rw [heq, plainRules_cons, hplain, ← List.singleton_append, ← List.append_assoc]
      exact .cons (.rule hrule hsemicolon) (.of_skips hskips ih)

end GrammarCheck
