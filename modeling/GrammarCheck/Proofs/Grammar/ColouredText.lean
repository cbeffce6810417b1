import GrammarCheck.Proofs.Grammar.ColouredReading

/-!
Coloured lines as a text of their own. It is a text of the same rules unless two names run together
in a line, or the comment of an entry holds the mark that closes a comment in other notations.
-/

namespace GrammarCheck

open Mark

variable {ss : List Symbol} {source name text : Text} {g : Grammar} {rules : List (Text × Expr)}

namespace ColouredWord

def Apart (w w' : ColouredWord) : Prop := ¬ (w.category = .production ∧ w'.category = .production)

instance (w w' : ColouredWord) : Decidable (w.Apart w') :=
  inferInstanceAs (Decidable (¬ (w.category = .production ∧ w'.category = .production)))

end ColouredWord

theorem Text.join_append {separator : Text} {ts : List Text} (h : ts ≠ []) :
    join separator ts ++ separator = ts.flatMap (· ++ separator) := by
  induction ts with
  | nil => contradiction
  | cons t ts ih =>
    cases ts with
    | nil => simp [join]
    | cons u ts =>
      rw [List.flatMap_cons, join, List.append_assoc, ih (List.cons_ne_nil u ts)]
      exact List.cons_ne_nil u ts

namespace Mark

theorem apart_word_iff (w w' : ColouredWord) : Apart (.word w) (.word w') ↔ w.Apart w' := by
  simp [Apart, ColouredWord.Apart, isName]

theorem isChain_closed_iff (ls : List (List ColouredWord)) :
    (closed ls).IsChain Apart ↔ ∀ line ∈ ls, line.IsChain ColouredWord.Apart := by
  induction ls with
  | nil => exact iff_of_true .nil nofun
  | cons line ls ih =>
    have hbreak : ∀ m ∈ (line.map Mark.word).getLast?, ∀ m' ∈ (Mark.lineBreak :: closed ls).head?,
        Apart m m' := by
      rintro m - _ ⟨⟩ hnames
      cases hnames.2
    have hsplit : closed (line :: ls) = line.map .word ++ .lineBreak :: closed ls := by simp [closed]
    rw [hsplit, List.isChain_append, isChain_apart_cons rfl, ih, List.isChain_map,
      List.forall_mem_cons, and_iff_left hbreak]
    simp only [apart_word_iff]

theorem hasGist_join_iff (ls : List (List ColouredWord)) :
    HasGist (Text.join ['\n'] (ls.map lineText)) ss ↔ HasGist (joined (.lineBreak :: closed ls)) ss := by
  have hblank : ∀ c ∈ ['\n'], isBlank c := List.forall_mem_singleton.2 (by decide)
  rw [HasGist.lineBreak_iff]
  cases ls with
  | nil => rfl
  | cons line ls =>
    have htext : joined (closed (line :: ls)) =
        Text.join ['\n'] ((line :: ls).map lineText) ++ ['\n'] := by
      rw [joined, text_closed, Text.join_append (by simp), List.flatMap_map]
    rw [htext, HasGist.append_blank_iff hblank]

end Mark

namespace Grammar

def leaves (g : Grammar) : List Leaf := g.rules.flatMap (·.body.leaves)

def colouredText (g : Grammar) : Text := Text.join ['\n'] (g.colouredLines.map lineText)

theorem mem_leaves {p : Production} (hp : p ∈ g.productions) {body : Expr} (hbody : body ∈ p.body)
    {l : Leaf} (hl : l ∈ body.leaves) : l ∈ g.leaves := by
  obtain ⟨rule, hrule, rfl⟩ := Option.map_eq_some_iff.1 hbody
  exact List.mem_flatMap.2 ⟨rule, List.mem_filterMap.2 ⟨p, hp, hrule⟩, hl⟩

theorem closed_colouredLines (g : Grammar) :
    Mark.closed g.colouredLines = g.productions.flatMap (·.marks) := by
  obtain ⟨ls, hls⟩ : ∃ ls, g.productions.flatMap (·.marks) = Mark.closed ls := by
    induction g.productions with
    | nil => exact ⟨[], rfl⟩
    | cons p ps ih =>
      obtain ⟨ls, hls⟩ := exists_closed p.lineMarks
      obtain ⟨more, hmore⟩ := ih
      refine ⟨ls ++ more, ?_⟩
      rw [List.flatMap_cons, Production.marks_eq, hls, hmore, Mark.closed, Mark.closed, Mark.closed,
        List.flatMap_append]
  rw [colouredLines, hls, lines_closed]

theorem hasGist_colouredText_iff (g : Grammar) : HasGist g.colouredText ss ↔
    HasGist (joined (.lineBreak :: g.productions.flatMap (·.marks))) ss := by
  rw [colouredText, hasGist_join_iff, closed_colouredLines]

theorem apart_and_sound_iff (h : g.Tidy)
    (hspaced : ∀ p ∈ g.productions, ∀ body ∈ p.body, body.CarriesOnly Trivia.Spaced)
    (hplain : ∀ p ∈ g.productions, ∀ body ∈ p.body, ∀ l ∈ body.leaves, ∀ text, l ≠ .special text) :
    ((.lineBreak :: g.productions.flatMap (·.marks)).IsChain Apart ∧
        ∀ m ∈ .lineBreak :: g.productions.flatMap (·.marks), m.Sound) ↔
      (∀ line ∈ g.colouredLines, line.IsChain ColouredWord.Apart) ∧
        ∀ p ∈ g.productions, Text.closesGroup p.comment = false := by
  rw [isChain_apart_cons rfl, ← closed_colouredLines, isChain_closed_iff, closed_colouredLines,
    List.forall_mem_cons, and_iff_right (show Mark.Sound .lineBreak from trivial),
    List.forall_mem_flatMap]
  refine and_congr_right fun _ => forall₂_congr fun p hp => ?_
  exact (h.productions p hp).sound_iff (hspaced p hp) (hplain p hp)

theorem normalRules_eq (ps : List Production) : normalRules (ps.filterMap (·.rule)) =
    (plainRules ps).map fun rule => (rule.1, rule.2.normal) := by
  simp [normalRules, plainRules]

theorem leaves_normalRules (g : Grammar) :
    (normalRules g.rules).flatMap (·.2.leaves) = g.leaves := by
  simp [normalRules, leaves, List.flatMap_map]

theorem exists_ofText_normalRules_iff :
    (∃ g, ofText source name text = .ok g ∧ normalRules g.rules = rules) ↔
      ∃ ts rules', TokenList.ofText source text = .ok ts ∧ DerivesGrammar ts.tokens rules' ∧
        rules'.map (fun rule => (rule.1, rule.2.normal)) = rules := by
  constructor
  · rintro ⟨g, hg, rfl⟩
    obtain ⟨ts, n, ps, htext, hread, rfl⟩ := ofText_eq_ok_iff.1 hg
    exact ⟨ts, _, htext, hread.derives, (normalRules_eq ps).symm⟩
  · rintro ⟨ts, rules', htext, hderives, rfl⟩
    obtain ⟨n, ps, hread, rfl⟩ := hderives.readsEntries
    exact ⟨_, ofText_eq_ok_iff.2 ⟨ts, n, ps, htext, hread, rfl⟩, normalRules_eq ps⟩

/-- The coloured lines of a grammar without special terminals are a text of the same rules, in
normal form, exactly if no two names stand side by side in a line and the comment of no entry holds
the mark that closes a comment. -/
theorem colouredText_reads_back_iff (h : ofText source name text = .ok g)
    (hplain : ∀ l ∈ g.leaves, ∀ text, l ≠ .special text) (source' name' : Text) :
    (∃ g', ofText source' name' g.colouredText = .ok g' ∧
        normalRules g'.rules = normalRules g.rules) ↔
      (∀ line ∈ g.colouredLines, line.IsChain ColouredWord.Apart) ∧
        ∀ p ∈ g.productions, Text.closesGroup p.comment = false := by
  have htidy := tidy_of_ofText h
  have hspaced := spaced_of_ofText h
  have hplain : ∀ p ∈ g.productions, ∀ body ∈ p.body, ∀ l ∈ body.leaves, ∀ text,
      l ≠ .special text := fun p hp body hbody l hl => hplain l (mem_leaves hp hbody hl)
  obtain ⟨ss, rules, hshown, hrules, hnormal⟩ := exists_shown htidy.productions hspaced hplain
  rw [← apart_and_sound_iff htidy hspaced hplain, exists_ofText_normalRules_iff]
  constructor
  · rintro ⟨ts, rules', htext, hderives, hrules'⟩
    have hgist := (hasGist_colouredText_iff g).1
      (TokenList.exists_ofText_gist_iff.1 ⟨ts, htext, rfl⟩)
    refine hshown.apart_and_sound hgist ?_
    calc operands ss
      _ = rulesSize rules := hrules.operands_eq
      _ = rulesSize rules' := rulesSize_eq_of_normal (hnormal.trans hrules'.symm)
      _ ≤ operands (ts.tokens.map Token.symbol) := hderives.rulesSize_le
      _ = operands (gist (ts.tokens.map Token.symbol)) := (operands_gist _).symm
  · rintro ⟨hapart, hsound⟩
    have hgist := (hasGist_colouredText_iff g).2 (hshown.hasGist hapart hsound)
    obtain ⟨ts, htext, hts⟩ := TokenList.exists_ofText_gist_iff.2 hgist
    exact ⟨ts, rules, htext, hrules.derivesGrammar hts, hnormal⟩

theorem colouredText_reads_back_iff_lines :
    ∃ g, ofText [] [] "r: //c\n('x' |a)* b; //d\n//e".toList = .ok g ∧
      (∀ l ∈ g.leaves, ∀ text, l ≠ .special text) ∧
      ((∀ line ∈ g.colouredLines, line.IsChain ColouredWord.Apart) ∧
        ∀ p ∈ g.productions, Text.closesGroup p.comment = false) ∧
      ∃ g', ofText [] [] g.colouredText = .ok g' ∧ normalRules g'.rules = normalRules g.rules := by
  have hread : (ofText [] [] "r: //c\n('x' |a)* b; //d\n//e".toList).toOption.map (fun g =>
      (g.leaves, decide ((∀ line ∈ g.colouredLines, line.IsChain ColouredWord.Apart) ∧
        ∀ p ∈ g.productions, Text.closesGroup p.comment = false))) =
      some ([.terminal ['x'], .reference ['a'], .reference ['b']], true) := by decide +kernel
  obtain ⟨g, hg, hshown⟩ := exists_ofText_of_map hread
  obtain ⟨hleaves, hapart⟩ := Prod.mk.inj hshown
  have hplain : ∀ l ∈ g.leaves, ∀ text, l ≠ .special text := by simp [hleaves]
  have hapart := of_decide_eq_true hapart
  exact ⟨g, hg, hplain, hapart, (colouredText_reads_back_iff hg hplain [] []).2 hapart⟩

/-- The parentheses around a single name are not shown. Without a blank behind them the name runs
together with the next. -/
theorem colouredText_merges_names :
    ∃ g g', ofText [] [] "r:(a)b;".toList = .ok g ∧ (∀ l ∈ g.leaves, ∀ text, l ≠ .special text) ∧
      ofText [] [] g.colouredText = .ok g' ∧ normalRules g'.rules ≠ normalRules g.rules := by
  have hfirst : (ofText [] [] "r:(a)b;".toList).toOption.map (fun g => (g.colouredText, g.leaves)) =
      some ("r: ab;".toList, [.reference ['a'], .reference ['b']]) := by decide +kernel
  have hagain : (ofText [] [] "r: ab;".toList).toOption.map leaves =
      some [.reference ['a', 'b']] := by decide +kernel
  obtain ⟨g, hg, hshown⟩ := exists_ofText_of_map hfirst
  obtain ⟨g', hg', hleaves'⟩ := exists_ofText_of_map hagain
  obtain ⟨htext, hleaves⟩ := Prod.mk.inj hshown
  refine ⟨g, g', hg, by simp [hleaves], htext ▸ hg', fun hsame => ?_⟩
  have hsame := congrArg (List.flatMap (·.2.leaves)) hsame
  rw [leaves_normalRules, leaves_normalRules, hleaves, hleaves'] at hsame
  cases hsame

end Grammar

end GrammarCheck
