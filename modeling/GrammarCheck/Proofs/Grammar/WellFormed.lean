import GrammarCheck.Proofs.Grammar.Nodes
import GrammarCheck.Proofs.Grammar.Parsed

/-!
Whatever expression the parser completes is well formed, also where the text is refused further on:
every node passes the check of its shape, and its text and layout are such as can be written.
-/

namespace GrammarCheck

open Parsing

variable {d e : Expr} {es : List Expr} {t u : Token} {ts us rest : List Token} {part : Part}

namespace Trivia

variable {P : Trivia → Prop}

/-- A kind of layout that stays of its kind when layouts are put together and when some is left out. -/
structure Closed (P : Trivia → Prop) : Prop where
  empty : P {}
  append {s t : Trivia} : P s → P t → P (s ++ t)
  withoutSpace {t : Trivia} : P t → P t.withoutSpace

theorem Closed.ifCommented (hP : Closed P) {t : Trivia} (h : P t) : P t.ifCommented := by
  unfold Trivia.ifCommented
  split
  · exact hP.empty
  · exact hP.withoutSpace h

def Spaced (t : Trivia) : Prop := ∀ c ∈ t.whitespace, isSpace c

theorem closed_spaced : Closed Spaced where
  empty := by simp [Spaced]
  append hs ht := List.forall_mem_append.2 ⟨hs, ht⟩
  withoutSpace _ := by simp [Spaced, withoutSpace]

end Trivia

def SpacedTokens (ts : List Token) : Prop :=
  ∀ t ∈ ts, t.kind = .whitespace → ∀ c ∈ t.value, isSpace c

theorem SpacedTokens.of_suffix (h : SpacedTokens ts) (hus : us <:+ ts) : SpacedTokens us :=
  fun t ht => h t (hus.subset ht)

theorem Cursor.spaced_spaceToken (a : Cursor) : SpacedTokens a.spaceToken := by
  have hspace : ∀ c ∈ a.unread.leadingSpace, isSpace c := List.all_eq_true.1 List.all_takeWhile
  unfold spaceToken
  split
  · simp [SpacedTokens]
  · rintro t ht -
    rw [List.mem_singleton.1 ht]
    exact hspace

theorem Cursor.spaced_readOn (a : Cursor) : SpacedTokens a.readOn.tokens := by
  fun_induction readOn a with
  | case1 | case2 => simp [SpacedTokens]
  | case3 a ch rest hcons kind value extra hfirst after reading ih =>
    exact List.forall_mem_cons.2 ⟨fun hkind => absurd hkind (Lexeme.ne_whitespace_of_first hfirst),
      List.forall_mem_append.2 ⟨after.spaced_spaceToken, ih⟩⟩

theorem TokenList.spaced_ofText {source text : Text} {ts : TokenList}
    (h : ofText source text = .ok ts) : SpacedTokens ts.tokens := by
  rw [← (ofText_eq_ok_iff.1 h).2.1]
  exact Cursor.spaced_readOn _

theorem Trivia.Spaced.add {s : Trivia} (hs : s.Spaced) (ht : t.isTrivia)
    (hspace : t.kind = .whitespace → ∀ c ∈ t.value, isSpace c) : (s.add t).Spaced := by
  obtain hkind | hkind | hkind := Token.isTrivia_iff.1 ht
  · simpa [Trivia.add, hkind, Spaced] using hs
  · simp only [Trivia.add, hkind]
    split
    · exact hs
    · exact List.forall_mem_append.2 ⟨hs, hspace hkind⟩
  · simpa [Trivia.add, hkind, Spaced] using hs

theorem Trivia.Spaced.foldl_add {s : Trivia} (hs : s.Spaced) (hts : SpacedTokens ts)
    (htrivia : ∀ t ∈ ts, t.isTrivia) : (ts.foldl Trivia.add s).Spaced := by
  induction ts generalizing s with
  | nil => exact hs
  | cons t ts ih =>
    rw [List.forall_mem_cons] at htrivia
    exact ih (hs.add htrivia.1 (hts t List.mem_cons_self)) (hts.of_suffix (List.suffix_cons t ts))
      htrivia.2

theorem Trivia.spaced_triviaAhead (hts : SpacedTokens ts) : (triviaAhead ts).Spaced := by
  have htake : SpacedTokens (ts.takeWhile Token.isTrivia) :=
    fun t ht => hts t ((List.takeWhile_prefix _).subset ht)
  exact closed_spaced.empty.foldl_add htake (List.all_eq_true.1 List.all_takeWhile)

section Carries

variable {P : Trivia → Prop}

def Parsing.Part.CarriesOnly (P : Trivia → Prop) : Part → Prop
  | .alternatives c | .items c | .repetitions c => c.CarriesOnly P
  | _ => True

theorem barTrivia_of_closed (hP : Trivia.Closed P) (ahead : ∀ us, us <:+ ts → P (triviaAhead us)) :
    P (barTrivia ts) := by
  unfold barTrivia
  split
  · exact hP.ifCommented (ahead _ (List.suffix_cons _ _))
  · exact hP.empty

theorem Parsing.Reads.carriesOnly (h : Reads part ts es rest) (hP : Trivia.Closed P)
    (ahead : ∀ us, us <:+ ts → P (triviaAhead us)) (hcurrent : part.CarriesOnly P) :
    ∀ e ∈ es, e.CarriesOnly P := by
  have attach : ∀ {e : Expr} {t : Trivia}, e.CarriesOnly P → P t → (e.attach t).CarriesOnly P :=
    fun he ht => he.attach (hP.append (Expr.carriesOnly_iff.1 he).1 ht)
  induction h with
  | @choice ts mid rest e es first _ ihFirst ihMore =>
    have hbar := fun us hus => ahead us (List.IsSuffix.trans hus (skipBar_suffix ts))
    have he := ihFirst hbar trivial e List.mem_cons_self
    have hes := ihMore (fun us hus => hbar us (hus.trans first.suffix))
      (attach he (barTrivia_of_closed hP ahead))
    exact List.forall_mem_singleton.2 (.join hP.empty hes)
  | @alternative t ts mid rest c e es _ head _ ihHead ihMore =>
    have htail := fun us hus => ahead us (List.IsSuffix.trans hus (List.suffix_cons t ts))
    have hskip := fun us hus => htail us (List.IsSuffix.trans hus (skipTrivia_suffix ts))
    have he := ihHead hskip trivial e List.mem_cons_self
    have hes := ihMore (fun us hus => hskip us (hus.trans head.suffix)) he
    exact List.forall_mem_cons.2
      ⟨attach hcurrent (hP.withoutSpace (htail ts (List.suffix_refl ts))), hes⟩
  | lastAlternative | lastItem | noMark => exact List.forall_mem_singleton.2 hcurrent
  | @sequence ts mid rest e es first _ ihFirst ihMore =>
    have he := ihFirst ahead trivial e List.mem_cons_self
    have hes := ihMore (fun us hus => ahead us (hus.trans first.suffix)) he
    exact List.forall_mem_singleton.2 (.join hP.empty hes)
  | @item ts mid rest c e es _ head _ ihHead ihMore =>
    have he := ihHead ahead trivial e List.mem_cons_self
    exact List.forall_mem_cons.2
      ⟨hcurrent, ihMore (fun us hus => ahead us (hus.trans head.suffix)) he⟩
  | @unary ts mid rest e es first _ ihFirst ihMore =>
    have he := ihFirst ahead trivial e List.mem_cons_self
    exact ihMore (fun us hus => ahead us (hus.trans first.suffix)) he
  | @mark t ts rest c es r _ _ ih =>
    have htail := fun us hus => ahead us (List.IsSuffix.trans hus (List.suffix_cons t ts))
    refine ih (fun us hus => htail us (hus.trans (skipTrivia_suffix ts))) ?_
    exact Expr.carriesOnly_iff.2
      ⟨htail ts (List.suffix_refl ts), List.forall_mem_singleton.2 hcurrent⟩
  | @group t close ts rest e _ body _ ih =>
    have htail := fun us hus => ahead us (List.IsSuffix.trans hus (List.suffix_cons t ts))
    have hskip := fun us hus => htail us (List.IsSuffix.trans hus (skipTrivia_suffix ts))
    have he := ih hskip trivial e List.mem_cons_self
    have hleading := hP.ifCommented (htail ts (List.suffix_refl ts))
    have hbehind := hskip rest ((List.suffix_cons close rest).trans body.suffix)
    exact List.forall_mem_singleton.2 (attach (attach he hleading) hbehind)
  | @terminal t ts | @reference t ts =>
    have hbehind := ahead ts (List.suffix_cons t ts)
    exact List.forall_mem_singleton.2 (Expr.carriesOnly_iff.2 ⟨hbehind, by simp [Expr.children]⟩)

end Carries

namespace Expr

structure WellFormed (e : Expr) : Prop where
  shaped : Draft.assemble e.kind e.text e.children e.after = .ok e
  many : e.isGroup → 2 ≤ e.children.length
  reference : e.kind = .reference → Bareword e.text
  terminal : e.kind = .terminal → (∀ c ∈ e.text, isLineEnd c = false) ∧
    ¬ ('\'' ∈ e.text ∧ '"' ∈ e.text) ∧ ¬ Angled e.text
  spaced : e.after.Spaced
  layout : e.after.Tidy

theorem Tidy.of_mem_children (h : e.Tidy) : ∀ d ∈ e.children, d.Tidy := by
  intro d hd
  cases h with
  | leaf => cases hd
  | repeated tidy =>
    rw [List.mem_singleton.1 hd]
    exact tidy
  | group _ tidy => exact tidy d hd

theorem Tidy.layout (h : e.Tidy) : e.after.Tidy := by
  cases h with
  | leaf _ layout | repeated _ layout | group _ _ layout => exact layout

theorem Tidy.shaped (h : e.Tidy) : Draft.assemble e.kind e.text e.children e.after = .ok e := by
  cases h with
  | leaf leaf layout =>
    cases leaf with
    | terminal | reference => rfl
    | @special text _ nonempty noQuestion =>
      have hlegal : (text.isEmpty || text.contains '?') = false := by simp [nonempty, noQuestion]
      simp only [kind, Expr.text, children, Draft.assemble, hlegal]
      rfl
  | repeated => rfl
  | @group j items after many =>
    obtain _ | ⟨d, _ | ⟨d', items⟩⟩ := items
    · cases many
    · exact absurd many (by simp)
    · rfl

theorem Tidy.wellFormed (h : e.Tidy) (hspaced : e.after.Spaced) : e.WellFormed where
  shaped := h.shaped
  many hgroup := by
    cases h with
    | leaf | repeated => cases hgroup
    | group many => exact many
  reference hkind := by
    cases h with
    | leaf leaf =>
      cases leaf with
      | terminal | special => cases hkind
      | reference bareword => exact bareword
    | repeated | group => cases hkind
  terminal hkind := by
    cases h with
    | leaf leaf =>
      cases leaf with
      | terminal oneLine notAngled oneQuote => exact ⟨oneLine, oneQuote, notAngled⟩
      | special | reference => cases hkind
    | repeated | group => cases hkind
  spaced := hspaced
  layout := h.layout

end Expr

inductive Parsing.Completes (ts : List Token) (e : Expr) : Prop
  | choice {rest : List Token} (done : (choice ts).toExcept = .ok (e, rest))
  | sequence {rest : List Token} (done : (sequence ts).toExcept = .ok (e, rest))
  | unary {rest : List Token} (done : (unary ts).toExcept = .ok (e, rest))
  | atom {rest : List Token} (done : (atom ts).toExcept = .ok (e, rest))

theorem Parsing.Completes.wellFormed (h : Completes ts e) (hts : SoundTokens ts)
    (hspaced : SpacedTokens ts) : ∀ d ∈ e.nodes, d.WellFormed := by
  have ahead : ∀ us, us <:+ ts → (triviaAhead us).Spaced :=
    fun us hus => Trivia.spaced_triviaAhead (hspaced.of_suffix hus)
  have hread : ∀ {part : Part} {rest : List Token}, Reads part ts [e] rest → part.CurrentTidy →
      part.CarriesOnly Trivia.Spaced → ∀ d ∈ e.nodes, d.WellFormed := by
    intro part rest hreads htidy hcarries d hd
    have he : e.Tidy := hreads.tidy hts htidy e List.mem_cons_self
    have hlayout : e.CarriesOnly Trivia.Spaced :=
      hreads.carriesOnly Trivia.closed_spaced ahead hcarries e List.mem_cons_self
    have hnode : d.Tidy := Expr.forall_mem_nodes (fun _ h => h.of_mem_children) he d hd
    exact hnode.wellFormed (hlayout d hd)
  cases h with
  | choice done => exact hread (choice_reads ts done) trivial trivial
  | sequence done => exact hread (sequence_reads ts done) trivial trivial
  | unary done => exact hread (unary_reads ts done) trivial trivial
  | atom done => exact hread (atom_reads ts _ _ done) trivial trivial

theorem Parsing.ReadsProduction.completes {p : Production} (h : ReadsProduction ts p rest) :
    ∀ body ∈ p.body, ∃ us, us <:+ ts ∧ Completes us body := by
  cases h with
  | @closed name colon _ breaks after _ _ _ _ body | @last name colon breaks after _ _ _ body =>
    have hskip : skipTrivia after <:+ name :: (breaks ++ colon :: after) :=
      ((skipTrivia_suffix after).trans (List.suffix_cons colon after)).trans
        (suffix_of_colon name colon breaks after)
    rintro _ ⟨⟩
    exact ⟨_, hskip, .choice (choice_eq_ok_iff.2 body)⟩

theorem Parsing.ReadsEntries.completes {name : Option Text} {ps : List Production}
    (h : ReadsEntries ts name ps) :
    ∀ p ∈ ps, ∀ body ∈ p.body, ∃ us, us <:+ ts ∧ Completes us body := by
  have later : ∀ {ts rest : List Token} {body : Expr}, rest <:+ ts →
      (∃ us, us <:+ rest ∧ Completes us body) → ∃ us, us <:+ ts ∧ Completes us body := by
    rintro ts rest body hrest ⟨us, hus, hbody⟩
    exact ⟨us, hus.trans hrest, hbody⟩
  induction h with
  | nil => simp
  | @comment t ts _ _ _ _ ih =>
    have hrest := (skips_lineEnd ts).suffix.trans (List.suffix_cons t ts)
    refine List.forall_mem_cons.2 ⟨nofun, ?_⟩
    exact fun p hp body hbody => later hrest (ih p hp body hbody)
  | @newline t ts _ _ _ _ ih =>
    refine List.forall_mem_cons.2 ⟨nofun, ?_⟩
    exact fun p hp body hbody => later (List.suffix_cons t ts) (ih p hp body hbody)
  | @whitespace t ts _ _ _ _ ih =>
    exact fun p hp body hbody => later (List.suffix_cons t ts) (ih p hp body hbody)
  | header _ _ head _ ih => exact fun p hp body hbody => later head.suffix (ih p hp body hbody)
  | production _ _ rule _ ih =>
    refine List.forall_mem_cons.2 ⟨rule.completes, ?_⟩
    exact fun p hp body hbody => later rule.suffix (ih p hp body hbody)

namespace Production

structure WellFormed (p : Production) : Prop where
  shaped : ruleOf p.name p.body = .ok p.rule
  body : ∀ body ∈ p.body, ∀ d ∈ body.nodes, d.WellFormed

theorem ruleOf_eq (p : Production) : ruleOf p.name p.body = .ok p.rule := by
  rw [name, Production.body]
  cases p.rule <;> rfl

end Production

namespace Grammar

/-- All that the parser completes is well formed. Either the text is refused as no grammar, or a
grammar of well-formed entries is returned. -/
theorem ofText_wellFormed (source name text : Text) :
    (∀ ts, TokenList.ofText source text = .ok ts → ∀ us, us <:+ ts.tokens → ∀ e, Completes us e →
      ∀ d ∈ e.nodes, d.WellFormed) ∧
    ((∃ e, ofText source name text = .error e) ∨
      ∃ g, ofText source name text = .ok g ∧ ∀ p ∈ g.productions, p.WellFormed) := by
  have hcompletes : ∀ ts, TokenList.ofText source text = .ok ts → ∀ us, us <:+ ts.tokens →
      ∀ e, Completes us e → ∀ d ∈ e.nodes, d.WellFormed := by
    intro ts hts us hus e he
    exact he.wellFormed ((TokenList.sound_ofText hts).of_suffix hus)
      ((TokenList.spaced_ofText hts).of_suffix hus)
  refine ⟨hcompletes, ?_⟩
  cases hread : ofText source name text with
  | error e => exact .inl ⟨e, rfl⟩
  | ok g =>
    obtain ⟨ts, n, ps, hts, hentries, rfl⟩ := ofText_eq_ok_iff.1 hread
    refine .inr ⟨_, rfl, fun p hp => ⟨p.ruleOf_eq, fun body hbody => ?_⟩⟩
    obtain ⟨us, hus, hbody⟩ := hentries.completes p hp body hbody
    exact hcompletes ts hts us hus body hbody

end Grammar

end GrammarCheck
