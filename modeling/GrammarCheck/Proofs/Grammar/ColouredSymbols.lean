import GrammarCheck.Grammar.Colour
import GrammarCheck.Proofs.Grammar.Symbols
import GrammarCheck.Proofs.Grammar.WellFormed
import GrammarCheck.Proofs.Notation.GistWords
import GrammarCheck.Proofs.Parsing.Operands

namespace GrammarCheck

variable {ms ms' : List Mark} {ss ss' : List Symbol} {t u : Text}

/-- The symbols that marks show. A comment is the last word of its line, and if no blanks set it
apart, the only one. -/
inductive Shown : List Mark → List Symbol → Prop
  | nil : Shown [] []
  | name {name : Text} {ms : List Mark} {ss : List Symbol} (bareword : Bareword name)
      (more : Shown ms ss) : Shown (.word ⟨name, .production⟩ :: ms) ((.word, name) :: ss)
  | terminal {text : Text} {ms : List Mark} {ss : List Symbol}
      (oneLine : ∀ c ∈ text, isLineEnd c = false) (more : Shown ms ss) :
    Shown (.word ⟨'\'' :: text.escapeTerminal ++ ['\''], .terminal⟩ :: ms) ((.terminal, text) :: ss)
  | plain {text : Text} {ms : List Mark} {ss : List Symbol} (nonempty : text ≠ [])
      (plain : ∀ c ∈ text, isPlain c) (more : Shown ms ss) :
    Shown (.word ⟨text, .plain⟩ :: ms) (operatorSymbols text ++ ss)
  | comment {blanks comment : Text} {ms : List Mark} {ss : List Symbol} (nonempty : blanks ≠ [])
      (blank : ∀ c ∈ blanks, isSpace c) (oneLine : ∀ c ∈ comment, isLineEnd c = false)
      (more : Shown (.lineBreak :: ms) ss) :
    Shown (.word ⟨blanks ++ '/' :: '/' :: comment, .comment⟩ :: .lineBreak :: ms)
      ((.comment, []) :: ss)
  | lineBreak {ms : List Mark} {ss : List Symbol} (more : Shown ms ss) : Shown (.lineBreak :: ms) ss
  | remark {comment : Text} {ms : List Mark} {ss : List Symbol}
      (oneLine : ∀ c ∈ comment, isLineEnd c = false) (more : Shown (.lineBreak :: ms) ss) :
    Shown (.lineBreak :: .word ⟨'/' :: '/' :: comment, .comment⟩ :: .lineBreak :: ms)
      ((.comment, []) :: ss)

theorem Shown.append (h : Shown ms ss) (h' : Shown ms' ss') : Shown (ms ++ ms') (ss ++ ss') := by
  induction h with
  | nil => exact h'
  | name bareword _ ih => exact .name bareword ih
  | terminal oneLine _ ih => exact .terminal oneLine ih
  | plain nonempty plain _ ih =>
    rw [List.append_assoc]
    exact .plain nonempty plain ih
  | comment nonempty blank oneLine _ ih => exact .comment nonempty blank oneLine ih
  | lineBreak _ ih => exact .lineBreak ih
  | remark oneLine _ ih => exact .remark oneLine ih

theorem Shown.operator {c : Char} {kind : Token.Kind} (hc : Token.Kind.operator? c = some kind)
    (more : Shown ms ss) : Shown (.plain [c] :: ms) ((kind, [c]) :: ss) := by
  have hplain := Shown.plain (List.cons_ne_nil c [])
    (List.forall_mem_singleton.2 (isPlain_iff.2 (.inr (by simp [hc])))) more
  simpa [operatorSymbols, hc, Mark.plain] using hplain

def Mark.Sound : Mark → Prop
  | .word w => w.category = .comment → Text.closesGroup w.text = false
  | .lineBreak => True

theorem significant_operatorSymbols (t : Text) :
    significant (operatorSymbols t) = operatorSymbols t := by
  refine List.filter_eq_self.2 fun s hs => ?_
  obtain ⟨c, -, hc⟩ := List.mem_filterMap.1 hs
  obtain ⟨kind, hkind, rfl⟩ := Option.map_eq_some_iff.1 hc
  unfold Token.Kind.operator? at hkind
  split at hkind <;> cases hkind <;> rfl

structure Shows (ms : List Mark) (ss : List Symbol) : Prop where
  shown : ∃ ss', Shown ms ss' ∧ significant ss' = ss
  sound : ∀ m ∈ ms, m.Sound

namespace Shows

theorem nil : Shows [] [] := ⟨⟨[], .nil, rfl⟩, nofun⟩

theorem append (h : Shows ms ss) (h' : Shows ms' ss') : Shows (ms ++ ms') (ss ++ ss') := by
  obtain ⟨⟨_, h, rfl⟩, hsound⟩ := h
  obtain ⟨⟨_, h', rfl⟩, hsound'⟩ := h'
  exact ⟨⟨_, h.append h', significant_append ..⟩, List.forall_mem_append.2 ⟨hsound, hsound'⟩⟩

theorem plain (hne : t ≠ []) (ht : ∀ c ∈ t, isPlain c) :
    Shows [.plain t] (operatorSymbols t) where
  shown := ⟨_, .plain hne ht .nil, by rw [List.append_nil, significant_operatorSymbols]⟩
  sound := List.forall_mem_singleton.2 nofun

theorem blanks (hne : t ≠ []) (ht : ∀ c ∈ t, isSpace c) : Shows [.plain t] [] := by
  have hnone : operatorSymbols t = [] :=
    List.filterMap_eq_nil_iff.2 fun c hc => by
      rw [(Lexeme.ne_of_isBlank (isSpace_iff.1 (ht c hc)).1).1, Option.map_none]
  have hplain := plain hne fun c hc => isPlain_iff.2 (.inl (ht c hc))
  rwa [hnone] at hplain

theorem lineBreak : Shows [.lineBreak] [] where
  shown := ⟨[], .lineBreak .nil, rfl⟩
  sound := List.forall_mem_singleton.2 trivial

theorem comment {space comment : Text} (hne : space ≠ []) (hspace : ∀ c ∈ space, isSpace c)
    (hcomment : OneLine comment) :
    Shows [.word ⟨space ++ '/' :: '/' :: comment, .comment⟩, .lineBreak] [] where
  shown := ⟨_, .comment hne hspace hcomment.noLineEnd (.lineBreak .nil), rfl⟩
  sound := List.forall_mem_cons.2
    ⟨fun _ => (closesGroup_comment space comment hspace).trans hcomment.noClose,
      List.forall_mem_singleton.2 trivial⟩

theorem trivia {after : Trivia} (hcomment : OneLine after.comment) (hspaced : after.Spaced) :
    Shows after.marks [] := by
  have hspace : Shows (if after.whitespace.isEmpty then [] else [.plain after.whitespace]) [] := by
    split
    · exact nil
    · rename_i hempty
      exact blanks (by simpa using hempty) hspaced
  have htab : Shows [.plain ['\t']] [] := blanks (by simp) (List.all_eq_true.1 rfl)
  have hline : Shows ((if after.comment.isEmpty then []
        else [.word ⟨' ' :: '/' :: '/' :: after.comment, .comment⟩]) ++
      (if after.newline || !after.comment.isEmpty then [.lineBreak, .plain ['\t']] else [])) [] := by
    cases hempty : after.comment.isEmpty with
    | false =>
      have hremark := comment (List.cons_ne_nil ' ' []) (List.all_eq_true.1 rfl) hcomment
      simpa using hremark.append htab
    | true =>
      cases after.newline with
      | false => exact nil
      | true => exact lineBreak.append htab
  have hall := hspace.append hline
  rwa [← List.append_assoc] at hall

theorem enclose (h : Shows ms ss) (inParens : Bool) :
    Shows (encloseMarks inParens ms) (encloseSymbols inParens ss) := by
  cases inParens with
  | false => exact h
  | true =>
    have hopen : Shows [.plain ['(', ' ']] [(.openParen, ['('])] :=
      plain (by simp) (List.all_eq_true.1 rfl)
    have hclose : Shows [.plain [' ', ')']] [(.closeParen, [')'])] :=
      plain (by simp) (List.all_eq_true.1 rfl)
    simpa [encloseMarks, encloseSymbols] using hopen.append (h.append hclose)

theorem leaf {l : Leaf} (hl : l.Printable) (hspecial : ∀ text, l ≠ .special text) :
    Shows [l.mark] [l.symbol] := by
  cases hl with
  | terminal oneLine =>
    exact ⟨⟨_, .terminal oneLine .nil, rfl⟩, List.forall_mem_singleton.2 nofun⟩
  | special => exact absurd rfl (hspecial _)
  | reference bareword =>
    exact ⟨⟨_, .name bareword .nil, rfl⟩, List.forall_mem_singleton.2 nofun⟩

end Shows

namespace Expr

variable {e : Expr} {es : List Expr}

theorem shows_alternatives (he : Shows e.marks e.symbols) (hes : ∀ d ∈ es, Shows d.marks d.symbols) :
    Shows (marks.alternatives (e :: es)) (e.symbols ++ symbols.further .choice es) := by
  induction es generalizing e with
  | nil =>
    rw [symbols.further, List.append_nil]
    exact he
  | cons d es ih =>
    obtain ⟨hd, hes⟩ := List.forall_mem_cons.1 hes
    have hbar : Shows [.plain ['|', ' ']] [(.bar, ['|'])] := .plain (by simp) (List.all_eq_true.1 rfl)
    have hall := he.append (hbar.append (ih hd hes))
    simpa [marks.alternatives, symbols.further, Joint.separator, Joint.encloses] using hall

theorem shows_inSequence (hes : ∀ d ∈ es, Shows d.marks d.symbols) (afterTab : Bool) :
    Shows (marks.inSequence afterTab es) (symbols.further .sequence es) := by
  induction es generalizing afterTab with
  | nil => exact .nil
  | cons d es ih =>
    obtain ⟨hd, hes⟩ := List.forall_mem_cons.1 hes
    have hindent : Shows (if afterTab then [.plain [' ', ' ']] else []) [] := by
      split
      · exact .blanks (by simp) (List.all_eq_true.1 rfl)
      · exact .nil
    have hall := fun ending => hindent.append ((hd.enclose d.isChoice).append (ih hes ending))
    simpa [marks.inSequence, symbols.further, Joint.separator, Joint.encloses] using hall _

theorem Tidy.shows (h : e.Tidy) (hspaced : e.CarriesOnly Trivia.Spaced)
    (hplain : ∀ l ∈ e.leaves, ∀ text, l ≠ .special text) : Shows e.marks e.symbols := by
  induction h with
  | leaf leaf layout =>
    exact (Shows.leaf leaf (hplain _ (List.mem_singleton.2 rfl))).append
      (.trivia layout.comment (carriesOnly_iff.1 hspaced).1)
  | @repeated r body after _ layout ih =>
    obtain ⟨hafter, hbody⟩ := carriesOnly_iff.1 hspaced
    have hbody := (ih (hbody body List.mem_cons_self) hplain).enclose body.isGroup
    have hmark : Shows [.plain [r.mark]] [(r.kind, [r.mark])] := by
      cases r <;> exact .plain (by simp) (List.all_eq_true.1 rfl)
    have hall := hbody.append (hmark.append (.trivia layout.comment hafter))
    simpa [marks, symbols] using hall
  | @group j items after many _ layout ih =>
    obtain ⟨hafter, hspacedItems⟩ := carriesOnly_iff.1 hspaced
    have hitems : ∀ d ∈ items, Shows d.marks d.symbols := by
      intro d hd
      refine ih d hd (hspacedItems d hd) fun l hl => hplain l ?_
      rw [leaves_group]
      exact List.mem_flatMap.2 ⟨d, hd, hl⟩
    obtain ⟨e, es, rfl⟩ := List.exists_cons_of_ne_nil (l := items) (by rintro rfl; cases many)
    have htrivia : Shows after.marks [] := .trivia layout.comment hafter
    cases j with
    | choice =>
      obtain ⟨he, hes⟩ := List.forall_mem_cons.1 hitems
      have hall := (shows_alternatives he hes).append htrivia
      rwa [List.append_nil] at hall
    | sequence =>
      have hall := (shows_inSequence hitems false).append htrivia
      simpa [marks, symbols, symbols.further, Joint.separator] using hall

theorem Printable.derives_barred (h : e.Printable) (v : Text) :
    ∃ d, Derives .choice ((.bar, v) :: e.symbols) [d] ∧ d.normal = e.normal := by
  obtain ⟨ds, hds, hgathers⟩ := h.denoted.parts .choice
  refine ⟨_, .barredChoice hds, ?_⟩
  rw [normal_join hds.unlabelled, hgathers, h.unlabelled.gather_parts_normal]

end Expr

/-- The entries of a grammar, with its rules in order. All rules are closed, and no header is among
the entries. -/
inductive ShownRules : List Symbol → List (Text × Expr) → Prop
  | nil : ShownRules [] []
  | comment {v : Text} {ss : List Symbol} {rules : List (Text × Expr)} (more : ShownRules ss rules) :
    ShownRules ((.comment, v) :: ss) rules
  | rule {name v v' : Text} {body ss : List Symbol} {e : Expr} {rules : List (Text × Expr)}
      (derived : Derives .choice (significant body) [e]) (more : ShownRules ss rules) :
    ShownRules ((.word, name) :: (.colon, v) :: (body ++ (.semicolon, v') :: ss)) ((name, e) :: rules)

namespace ShownRules

variable {rules rules' : List (Text × Expr)} {ts : List Token}

theorem operands_eq (h : ShownRules ss rules) : operands ss = rulesSize rules := by
  induction h with
  | nil => rfl
  | comment _ ih => rwa [operands_cons_of_mark rfl]
  | @rule _ _ _ body _ e rules derived _ ih =>
    have hbody := derived.operands_eq
    rw [operands_significant, List.flatMap_singleton] at hbody
    rw [operands_cons_of_operand rfl, operands_cons_of_mark rfl, operands_append,
      operands_cons_of_mark rfl, hbody, ih, ← List.singleton_append, rulesSize_append,
      rulesSize_singleton]
    exact Nat.add_right_comm _ _ _

theorem derivesGrammar (h : ShownRules ss rules) (hts : gist (ts.map Token.symbol) = ss) :
    DerivesGrammar ts rules := by
  have htrivia : ∀ {gap : List Token}, (∀ t ∈ gap, t.kind = .whitespace ∨ t.kind = .newline) →
      ∀ t ∈ gap, t.isTrivia := fun hgap t ht => Token.isTrivia_iff.2 (.inr (hgap t ht))
  induction h generalizing ts with
  | nil => exact .of_skips ⟨ts, by simp, htrivia (kind_of_gist_eq_nil hts)⟩ .nil
  | comment _ ih =>
    obtain ⟨gap, t, after, rfl, hgap, hcomment, hafter⟩ := exists_first_of_gist hts
    have hkind : t.kind = .comment := (fst_noted t.symbol).symm.trans (congrArg Prod.fst hcomment)
    exact .of_skips ⟨gap, rfl, htrivia hgap⟩
      (.cons (.layout (Token.isTrivia_iff.2 (.inl hkind))) (ih hafter))
  | @rule _ _ _ body _ _ _ derived _ ih =>
    obtain ⟨gap, t, more, rfl, hgap, hname, hmore⟩ := exists_first_of_gist hts
    obtain ⟨breaks, colon, more, rfl, hbreaks, hcolon, hmore⟩ := exists_first_of_gist hmore
    obtain ⟨inner, semicolon, after, rfl, hinner, hsemicolon, hafter⟩ := exists_token_of_gist hmore
    have hname := Prod.mk.inj (eq_of_noted hname nofun)
    have hcolon : colon.kind = .colon := congrArg Prod.fst (eq_of_noted hcolon nofun)
    have hsemicolon : semicolon.kind = .semicolon :=
      congrArg Prod.fst (eq_of_noted hsemicolon nofun)
    have hmeaning : meaning inner = significant body := by
      rw [meaning_eq_significant, ← significant_gist, hinner]
    rw [← hmeaning] at derived
    have hrule := DerivesRule.mk hname.1 hbreaks hcolon (not_opensHeader hbreaks hcolon inner) derived
    have hall := DerivesGrammar.cons (.rule hrule hsemicolon) (ih hafter)
    rw [hname.2] at hall
    exact .of_skips ⟨gap, rfl, htrivia hgap⟩ (by simpa using hall)

end ShownRules

def commentSymbols (comment : Text) : List Symbol :=
  if comment.isEmpty then [] else [(.comment, [])]

theorem ShownRules.comments {rules : List (Text × Expr)} (h : ShownRules ss rules) (comment : Text) :
    ShownRules (commentSymbols comment ++ ss) rules := by
  unfold commentSymbols
  split
  · exact h
  · exact h.comment

def normalRules (rules : List Rule) : List (Text × Expr) :=
  rules.map fun rule => (rule.name, rule.body.normal)

namespace Production

variable {comment : Text} {rules : List (Text × Expr)} {p : Production}

theorem shown_remark (hcomment : ∀ c ∈ comment, isLineEnd c = false)
    (h : Shown (.lineBreak :: ms) ss) :
    Shown (.lineBreak :: ((if comment.isEmpty then []
        else [.word ⟨'/' :: '/' :: comment, .comment⟩]) ++ .lineBreak :: ms))
      (commentSymbols comment ++ ss) := by
  unfold commentSymbols
  split
  · exact h.lineBreak
  · exact h.remark hcomment

theorem shown_comment (hcomment : ∀ c ∈ comment, isLineEnd c = false)
    (h : Shown (.lineBreak :: ms) ss) :
    Shown ((if comment.isEmpty then []
        else [.word ⟨' ' :: ' ' :: '/' :: '/' :: comment, .comment⟩]) ++ .lineBreak :: ms)
      (commentSymbols comment ++ ss) := by
  unfold commentSymbols
  split
  · exact h
  · exact .comment (List.cons_ne_nil ' ' [' ']) (List.all_eq_true.1 rfl) hcomment h

theorem shows_start {e : Expr} (he : e.Printable) (hshows : Shows e.marks e.symbols)
    (startsOnNewline : Bool) :
    ∃ ss d, Shown ((if startsOnNewline then [.lineBreak, .plain ['\t', '|', ' ']]
        else [.plain [' ']]) ++ e.marks) ss ∧
      Derives .choice (significant ss) [d] ∧ d.normal = e.normal := by
  cases startsOnNewline with
  | true =>
    obtain ⟨d, hd, hnormal⟩ := he.derives_barred ['|']
    have hbar : Shows [.plain ['\t', '|', ' ']] [(.bar, ['|'])] :=
      .plain (by simp) (List.all_eq_true.1 rfl)
    obtain ⟨ss, hss, hsymbols⟩ := (Shows.lineBreak.append (hbar.append hshows)).shown
    exact ⟨ss, d, hss, hsymbols ▸ hd, hnormal⟩
  | false =>
    obtain ⟨d, hd, hnormal⟩ := he.derives
    have hspace : Shows [.plain [' ']] [] := .blanks (by simp) (List.all_eq_true.1 rfl)
    obtain ⟨ss, hss, hsymbols⟩ := (hspace.append hshows).shown
    exact ⟨ss, d, hss, hsymbols ▸ hd, hnormal⟩

theorem Tidy.exists_shown (h : p.Tidy) (hspaced : ∀ body ∈ p.body, body.CarriesOnly Trivia.Spaced)
    (hplain : ∀ body ∈ p.body, ∀ l ∈ body.leaves, ∀ text, l ≠ .special text)
    (hmore : Shown (.lineBreak :: ms) ss) (hrules : ShownRules ss rules) :
    ∃ ss' new, Shown (.lineBreak :: (p.marks ++ ms)) ss' ∧ ShownRules ss' (new ++ rules) ∧
      new.map (fun rule => (rule.1, rule.2.normal)) = normalRules p.rule.toList := by
  obtain ⟨rule, comment, startsOnNewline, link, linkName⟩ := p
  cases rule with
  | none =>
    have hshown := shown_remark h.comment hmore
    exact ⟨_, [], by simpa [marks] using hshown, hrules.comments comment, rfl⟩
  | some rule =>
    have hbody := h.body rule rfl
    obtain ⟨ss', d, hss', hd, hnormal⟩ := shows_start hbody.printable
      (hbody.shows (hspaced rule.body rfl) (hplain rule.body rfl)) startsOnNewline
    have hentry : ShownRules ((.word, rule.name) :: (.colon, [':']) ::
        (ss' ++ (.semicolon, [';']) :: (commentSymbols comment ++ ss))) ((rule.name, d) :: rules) :=
      .rule hd (hrules.comments comment)
    have hclosed := hss'.append ((shown_comment h.comment hmore).operator (c := ';') rfl)
    have hall := (Shown.name (h.name rule rfl) (hclosed.operator (c := ':') rfl)).lineBreak
    exact ⟨_, [(rule.name, d)], by simpa [marks] using hall, hentry, by simp [normalRules, hnormal]⟩

theorem sound_comment_iff (blanks comment : Text) (hblanks : ∀ c ∈ blanks, isSpace c) :
    (∀ m ∈ (if comment.isEmpty then []
        else [Mark.word ⟨blanks ++ '/' :: '/' :: comment, .comment⟩]), m.Sound) ↔
      Text.closesGroup comment = false := by
  split
  · rename_i hempty
    rw [List.isEmpty_iff.1 hempty]
    exact iff_of_true nofun rfl
  · rw [List.forall_mem_singleton, Mark.Sound, closesGroup_comment blanks comment hblanks]
    exact ⟨fun h => h rfl, fun h _ => h⟩

theorem Tidy.sound_iff (h : p.Tidy) (hspaced : ∀ body ∈ p.body, body.CarriesOnly Trivia.Spaced)
    (hplain : ∀ body ∈ p.body, ∀ l ∈ body.leaves, ∀ text, l ≠ .special text) :
    (∀ m ∈ p.marks, m.Sound) ↔ Text.closesGroup p.comment = false := by
  have hbreak : ∀ m ∈ [Mark.lineBreak], m.Sound := List.forall_mem_singleton.2 trivial
  have hword : ∀ {w : ColouredWord}, w.category ≠ .comment → ∀ m ∈ [Mark.word w], m.Sound :=
    fun hw => List.forall_mem_singleton.2 fun hcomment => absurd hcomment hw
  obtain ⟨rule, comment, startsOnNewline, link, linkName⟩ := p
  cases rule with
  | none =>
    have hcomment := sound_comment_iff [] comment nofun
    rw [marks, List.forall_mem_append, and_iff_left hbreak]
    exact hcomment
  | some rule =>
    have hbody := (h.body rule rfl).shows (hspaced rule.body rfl) (hplain rule.body rfl)
    have hcomment := sound_comment_iff [' ', ' '] comment (List.all_eq_true.1 rfl)
    have hstart : ∀ m ∈ (if startsOnNewline then [Mark.lineBreak, .plain ['\t', '|', ' ']]
        else [.plain [' ']]), m.Sound := by
      split
      · exact List.forall_mem_cons.2 ⟨trivial, hword nofun⟩
      · exact hword nofun
    have hname : ∀ m ∈ Mark.word ⟨rule.name, .production⟩ :: .plain [':'] ::
        (if startsOnNewline then [Mark.lineBreak, .plain ['\t', '|', ' ']] else [.plain [' ']]),
        m.Sound := List.forall_mem_cons.2 ⟨nofun, List.forall_mem_cons.2 ⟨nofun, hstart⟩⟩
    have hsemicolon : ∀ m ∈ [Mark.plain [';']], m.Sound := hword nofun
    rw [marks]
    simp only [List.forall_mem_append]
    constructor
    · rintro ⟨⟨-, h⟩, -⟩
      exact hcomment.1 h
    · exact fun h => ⟨⟨⟨⟨hname, hbody.sound⟩, hsemicolon⟩, hcomment.2 h⟩, hbreak⟩

end Production

namespace Grammar

theorem exists_shown {ps : List Production} (htidy : ∀ p ∈ ps, p.Tidy)
    (hspaced : ∀ p ∈ ps, ∀ body ∈ p.body, body.CarriesOnly Trivia.Spaced)
    (hplain : ∀ p ∈ ps, ∀ body ∈ p.body, ∀ l ∈ body.leaves, ∀ text, l ≠ .special text) :
    ∃ ss rules, Shown (.lineBreak :: ps.flatMap (·.marks)) ss ∧ ShownRules ss rules ∧
      rules.map (fun rule => (rule.1, rule.2.normal)) = normalRules (ps.filterMap (·.rule)) := by
  induction ps with
  | nil => exact ⟨[], [], .lineBreak .nil, .nil, rfl⟩
  | cons p ps ih =>
    rw [List.forall_mem_cons] at htidy hspaced hplain
    obtain ⟨ss, rules, hshown, hrules, hnormal⟩ := ih htidy.2 hspaced.2 hplain.2
    obtain ⟨ss', new, hshown', hrules', hnew⟩ :=
      htidy.1.exists_shown hspaced.1 hplain.1 hshown hrules
    refine ⟨ss', new ++ rules, hshown', hrules', ?_⟩
    rw [List.map_append, hnew, hnormal]
    cases hrule : p.rule <;> simp [normalRules, hrule]

end Grammar

end GrammarCheck
