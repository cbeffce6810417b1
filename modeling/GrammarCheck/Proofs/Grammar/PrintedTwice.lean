import GrammarCheck.Proofs.Grammar.Stable

/-!
A grammar whose text is read and printed again as the same text is stable, so that stable grammars
are the only ones of this kind. Both grammars have the same text: nothing is lost from the first and
the last line of it, and from then on their symbols are compared.
-/

namespace GrammarCheck

variable {newline newline' : Text} {ls : List Grammar.Line}

theorem IsNewline.append_cases (h : IsNewline newline) (h' : IsNewline newline') {t u : Text}
    (heq : t ++ (newline ++ u) = newline') :
    t = [] ∧ u = [] ∧ newline = newline' ∨ t = ['\r'] ∨ newline = ['\r'] ∧ u = ['\n'] := by
  obtain rfl | rfl | rfl := h <;> obtain rfl | rfl | rfl := h' <;> cases t with
  | nil => simp_all
  | cons c t =>
    cases t <;> simp_all

namespace Grammar

variable {g g' : Grammar} {l : Line} {source source' name text : Text}

namespace Line

theorem getLast?_text (h : l.comment ≠ []) (newline : Text) :
    (l.text newline id).getLast? = l.comment.getLast? := by
  have happend : ∃ t, l.text newline id = t ++ l.comment := by
    cases l with
    | header => exact absurd rfl h
    | entry p =>
      have hcomment : p.comment ≠ [] := h
      cases hrule : p.rule with
      | none => exact ⟨['/', '/'], by simp [text, Production.line, hrule, hcomment, comment]⟩
      | some rule =>
        exact ⟨rule.name ++ [':'] ++ p.start newline ++ rule.body.print newline ++
          [';', ' ', ' ', '/', '/'], by simp [text, Production.line, hrule, hcomment, comment]⟩
  obtain ⟨t, htext⟩ := happend
  rw [htext, List.getLast?_append, List.getLast?_eq_some_getLast h]
  rfl

theorem Printable.noLineEnd_getLast (h : l.Printable) (hblank : l.isBlank = false)
    (newline : Text) :
    ∀ c ∈ (l.text newline id).getLast?, isLineEnd c = false := by
  by_cases hcomment : l.comment = []
  · have hlast : (l.text newline id).getLast? = some ';' := by
      cases l with
      | header name => exact List.getLast?_concat
      | entry p =>
        have hempty : p.comment = [] := hcomment
        cases hrule : p.rule with
        | none => simp [isBlank, Production.isBlank, hrule, hempty] at hblank
        | some rule =>
          have htext : text newline id (.entry p) = rule.name ++ [':'] ++ p.start newline ++
              rule.body.print newline ++ [';'] := by
            simp [text, Production.line, hrule, hempty]
          rw [htext, List.getLast?_concat]
    rw [hlast]
    rintro c ⟨⟩
    rfl
  · rw [getLast?_text hcomment]
    intro c hc
    cases l with
    | header => exact absurd rfl hcomment
    | entry p =>
      have hp : p.Printable := h
      exact hp.comment.noLineEnd c (List.mem_of_getLast? hc)

end Line

theorem closed_ne_nil (h : IsNewline newline) (hne : ls ≠ []) : closed newline ls ≠ [] := by
  obtain ⟨l, ls, rfl⟩ := List.exists_cons_of_ne_nil hne
  simp [closed, h.ne_nil]

theorem exists_blank_head (h : IsNewline newline) (hblank : ∀ l ∈ ls, l.isBlank) (hne : ls ≠ [])
    (more : List Line) : ∃ c ∈ (closed newline (ls ++ more)).head?, isBlank c := by
  obtain ⟨c, t, htext⟩ := List.exists_cons_of_ne_nil (closed_ne_nil h hne)
  have happend : closed newline (ls ++ more) = c :: t ++ closed newline more := by
    rw [← htext, closed, closed, closed, List.flatMap_append]
  have hc : c ∈ closed newline ls := by
    rw [htext]
    exact List.mem_cons_self
  exact ⟨c, by rw [happend]; rfl, blank_closed h hblank c hc⟩

theorem append_of_trim_closed (h : IsNewline newline) (h' : IsNewline newline')
    {init after : List Line} {last : Line} (hafter : ∀ l ∈ after, l.isBlank)
    (hlast : last.Printable) (hblank : last.isBlank = false)
    (heq : closed newline (init ++ last :: after) =
      closed newline init ++ last.text newline Text.trimRight ++ newline') :
    after = [] ∧ newline = newline' ∧ ∀ c ∈ last.comment.getLast?, isBlank c = false := by
  rw [← Line.trimRight_text hblank] at heq
  obtain ⟨rest, hrest⟩ := Text.trimRight_prefix (last.text newline id)
  have hsplit : closed newline (init ++ last :: after) = closed newline init ++
      ((last.text newline id).trimRight ++ (rest ++ (newline ++ closed newline after))) := by
    rw [← List.append_assoc _ rest, hrest]
    simp [closed]
  rw [hsplit, List.append_assoc, List.append_cancel_left_eq, List.append_cancel_left_eq] at heq
  have hend := hlast.noLineEnd_getLast hblank newline
  -- in the other two ways a line end would stand at the end of a line or at the start of one
  obtain ⟨rfl, hclosed, hnewline⟩ | rfl | ⟨rfl, hclosed⟩ := h.append_cases h' heq
  · refine ⟨?_, hnewline, fun c hc => ?_⟩
    · exact Classical.byContradiction fun hne => closed_ne_nil h hne hclosed
    · have hcomment : last.comment ≠ [] := by
        rintro hempty
        rw [hempty] at hc
        cases hc
      rw [← Line.getLast?_text hcomment newline, ← hrest, List.append_nil] at hc
      exact Text.isBlank_getLast_trimRight _ c hc
  · rw [← hrest, List.getLast?_concat] at hend
    cases hend '\r' rfl
  · cases after with
    | nil => cases hclosed
    | cons l after =>
      rw [closed, List.flatMap_cons, Line.text_of_isBlank (hafter l List.mem_cons_self)] at hclosed
      cases hclosed

/-- Grammars with the same text, of which one has lost nothing at the ends, have both lost nothing
and have the same line ends. -/
theorem Untrimmed.of_print_eq (h' : g'.Untrimmed) (hg' : g'.Printable) (hg : g.Printable)
    (heq : g'.print = g.print) : g.Untrimmed ∧ (g.lines ≠ [] → g.newline = g'.newline) := by
  -- the text starts with no blank, so there are no blank lines before the first one of `g`
  have hstart : ∀ before more : List Line, (∀ l ∈ before, l.isBlank) → g.lines = before ++ more →
      before = [] := by
    intro before more hbefore hlines
    apply Classical.byContradiction
    intro hne
    obtain ⟨c, hc, hblank⟩ := exists_blank_head hg.newline hbefore hne more
    rw [← hlines, ← print_eq_closed, ← heq] at hc
    rw [h'.head_print hg' c hc] at hblank
    cases hblank
  obtain hblank | ⟨before, init, last, after, hlines, hbefore, hfirst, hlast, hafter⟩ :=
    all_or_exists_within Line.isBlank g.lines
  · have hnone : g.lines = [] := hstart g.lines [] hblank (List.append_nil _).symm
    have hproductions : g.productions = [] :=
      List.map_eq_nil_iff.1 (List.append_eq_nil_iff.1 hnone).2
    exact ⟨⟨by simp [hproductions], by simp [hproductions]⟩, fun hne => absurd hnone hne⟩
  · obtain rfl := hstart before _ hbefore hlines
    rw [List.nil_append] at hlines
    have hprintable := hg.lines
    rw [hlines, List.forall_mem_append, List.forall_mem_cons] at hprintable
    obtain ⟨hinit, hprintableLast, -⟩ := hprintable
    have hne : g'.lines ≠ [] := by
      intro hempty
      rw [print_eq_closed, hempty, print_eq_closed, hlines] at heq
      exact closed_ne_nil hg.newline (by simp) heq.symm
    obtain ⟨hprint, -⟩ := h'.exists_scanned hg' hne
    have htrim := trim_closed hg.newline hbefore hafter hinit hprintableLast hlast hfirst
    rw [List.nil_append] at htrim
    rw [heq, print_eq_closed, hlines, htrim] at hprint
    obtain ⟨rfl, hnewline, hcomment⟩ :=
      append_of_trim_closed hg.newline hg'.newline hafter hprintableLast hlast hprint
    exact ⟨.of_lines hlines hfirst hlast hcomment, fun _ => hnewline⟩

theorem Untrimmed.closedMarks_eq (h : g.Untrimmed) (hg : g.Printable) (h' : g'.Untrimmed)
    (hg' : g'.Printable) (heq : g'.print = g.print) (hne : g.lines ≠ []) (hne' : g'.lines ≠ [])
    (hnewline : g.newline = g'.newline) :
    closedMarks g.newline g'.lines = closedMarks g.newline g.lines := by
  obtain ⟨-, ss, hscanned, hss⟩ := h.exists_scanned hg hne
  obtain ⟨-, ss', hscanned', hss'⟩ := h'.exists_scanned hg' hne'
  rw [heq] at hscanned'
  obtain ⟨ts, hts, rfl⟩ := hscanned.exists_tokens []
  obtain ⟨ts', hts', rfl⟩ := hscanned'.exists_tokens []
  obtain rfl := Except.ok.inj (hts.symm.trans hts')
  rw [← hnewline] at hss'
  exact hss'.symm.trans hss

theorem closedMarks_lines (newline : Text) (g : Grammar) :
    closedMarks newline g.lines =
      closedMarks newline (if g.name.isEmpty then [] else [.header g.name]) ++
        closedMarks newline (g.productions.map .entry) := by
  rw [lines, closedMarks, closedMarks, closedMarks, List.flatMap_append]

theorem tokenMarks_of_readsEntries {ts : List Token} (h : Parsing.ReadsEntries ts none []) :
    tokenMarks ts = [] := by
  generalize hname : none = n at h
  generalize hps : [] = ps at h
  induction h with
  | nil => rfl
  | whitespace kind _ ih => rw [tokenMarks_cons_of_whitespace kind, ih hname hps]
  | header _ _ _ _ _ =>
    have hor := (Option.or_eq_none_iff.1 hname.symm).2
    cases hor
  | comment | newline | production => cases hps

theorem newline_of_no_lines (h : ofText source [] text = .ok g) (hempty : g.lines = []) :
    g.newline = defaultNewline := by
  have hname := name_of_ofText h
  obtain ⟨ts, n, ps, htext, hread, rfl⟩ := ofText_eq_ok_iff.1 h
  obtain ⟨hheader, hps⟩ := List.append_eq_nil_iff.1 hempty
  have hps' : ps = [] := List.map_eq_nil_iff.1 hps
  have hn : n = none := by
    cases n with
    | none => rfl
    | some n =>
      obtain ⟨hne, -, -⟩ := (hread.tidy (TokenList.sound_ofText htext)).1 n rfl
      simp [hne] at hheader
  subst hps' hn
  change newlineOf ts.tokens = defaultNewline
  rw [newlineOf_eq, tokenMarks_of_readsEntries hread]
  rfl

theorem Printable.of_reread (h : ofText source [] text = .ok g)
    (h' : ofText source' [] g.print = .ok g') : g.Printable := by
  have htidy := tidy_of_ofText h
  have hname := name_of_ofText h
  refine htidy.printable hname fun p hp => Bool.eq_false_iff.2 fun hclose => ?_
  exact htidy.refused hname ⟨p, hp, hclose⟩ source' g' h'

theorem Stable.of_print_again (h : ofText source [] text = .ok g)
    (h' : ofText source' [] g.print = .ok g') (heq : g'.print = g.print) : g.Stable := by
  have htidy := tidy_of_ofText h
  have hprintable := Printable.of_reread h h'
  -- the texts are the same, so `g'` is read from its own text and nothing of it is lost
  have hagain : ofText source' [] g'.print = .ok g' := heq ▸ h'
  have hprintable' := Printable.of_reread h' hagain
  obtain ⟨g₁, hg₁, hname, hkept, hnewline⟩ := hprintable.exists_ofText source'
  obtain rfl := Except.ok.inj (h'.symm.trans hg₁)
  obtain ⟨g₂, hg₂, -, hkept', -⟩ := hprintable'.exists_ofText source'
  obtain rfl := Except.ok.inj (hagain.symm.trans hg₂)
  have huntrimmed' := Untrimmed.of_kept hkept'
  obtain ⟨huntrimmed, hsame⟩ := huntrimmed'.of_print_eq hprintable' hprintable heq
  have hcomments : ∀ p ∈ g.productions, Text.closesGroup p.comment = false :=
    fun p hp => (hprintable.productions p hp).comment.noClose
  by_cases hempty : g.lines = []
  · have hnone : g.productions = [] :=
      List.map_eq_nil_iff.1 (List.append_eq_nil_iff.1 hempty).2
    exact ⟨huntrimmed, hcomments, by simp [hnone], .inl (newline_of_no_lines h hempty)⟩
  have hne : g'.lines ≠ [] := by
    intro hnone
    rw [print_eq_closed, hnone, print_eq_closed] at heq
    exact closed_ne_nil hprintable.newline hempty heq.symm
  have hmarks := huntrimmed.closedMarks_eq hprintable huntrimmed' hprintable' heq hempty hne
    (hsame hempty)
  rw [closedMarks_lines, closedMarks_lines, hname, List.append_cancel_left_eq] at hmarks
  have hshrinks := shrinks_entries htidy.productions (huntrimmed.kept hkept) g.newline
  refine ⟨huntrimmed, hcomments, hshrinks.eq_iff.1 hmarks, ?_⟩
  rw [hsame hempty, hnewline]
  split
  · rename_i hline
    exact .inr hline
  · exact .inl rfl

/-- The text of a parsed grammar is read and printed again as the same text exactly for stable
grammars. -/
theorem print_again_iff (h : ofText source [] text = .ok g) (source' : Text) :
    (∃ g', ofText source' [] g.print = .ok g' ∧ g'.print = g.print) ↔ g.Stable := by
  constructor
  · rintro ⟨g', hg', heq⟩
    exact .of_print_again h hg' heq
  · intro hstable
    exact hstable.print_again (tidy_of_ofText h) (name_of_ofText h) source'

theorem exists_ofText_of_map {α : Type} {f : Grammar → α} {x : α}
    (h : (ofText source name text).toOption.map f = some x) :
    ∃ g, ofText source name text = .ok g ∧ f g = x := by
  obtain ⟨g, hg, hx⟩ := Option.map_eq_some_iff.1 h
  refine ⟨g, ?_, hx⟩
  cases hread : ofText source name text with
  | ok g' =>
    rw [hread] at hg
    rw [Option.some.inj hg]
  | error =>
    rw [hread] at hg
    cases hg

theorem print_again_iff_parens :
    ∃ g, ofText [] [] ['a', ':', '(', 'b', '|', '(', 'c', ')', ')', '*', ';'] = .ok g ∧
      (∃ g', ofText [] [] g.print = .ok g' ∧ g'.print = g.print) ∧ g.Stable := by
  have hfirst :
      (ofText [] [] ['a', ':', '(', 'b', '|', '(', 'c', ')', ')', '*', ';']).toOption.map print =
        some ['a', ':', '\t', '(', ' ', 'b', ' ', '|', ' ', 'c', ' ', ')', '*', ';', '\r', '\n'] := by
    decide +kernel
  have hagain :
      (ofText [] [] ['a', ':', '\t', '(', ' ', 'b', ' ', '|', ' ', 'c', ' ', ')', '*', ';', '\r',
        '\n']).toOption.map print =
        some ['a', ':', '\t', '(', ' ', 'b', ' ', '|', ' ', 'c', ' ', ')', '*', ';', '\r', '\n'] := by
    decide +kernel
  obtain ⟨g, hg, hprint⟩ := exists_ofText_of_map hfirst
  obtain ⟨g', hg', hprint'⟩ := exists_ofText_of_map hagain
  rw [← hprint] at hg'
  have hsame := hprint'.trans hprint.symm
  exact ⟨g, hg, ⟨g', hg', hsame⟩, (print_again_iff hg []).1 ⟨g', hg', hsame⟩⟩

/-- A line end before a closing parenthesis and one behind it are both written before it, and read
back as one. -/
theorem print_again_merges_line_ends :
    ∃ g g', ofText [] [] ['r', ':', '(', 'a', '|', 'b', '\n', ')', '\n', 'c', ';'] = .ok g ∧
      ofText [] [] g.print = .ok g' ∧ g'.print ≠ g.print := by
  have hfirst :
      (ofText [] [] ['r', ':', '(', 'a', '|', 'b', '\n', ')', '\n', 'c', ';']).toOption.map print =
        some ['r', ':', '\t', '(', ' ', 'a', ' ', '|', ' ', 'b', '\n', '\t', '\n', '\t', ' ',
          ')', ' ', 'c', ';', '\n'] := by
    decide +kernel
  have hagain :
      (ofText [] [] ['r', ':', '\t', '(', ' ', 'a', ' ', '|', ' ', 'b', '\n', '\t', '\n', '\t', ' ',
        ')', ' ', 'c', ';', '\n']).toOption.map print =
        some ['r', ':', '\t', '(', ' ', 'a', ' ', '|', ' ', 'b', '\n', '\t', ' ',
          ')', ' ', 'c', ';', '\n'] := by
    decide +kernel
  obtain ⟨g, hg, hprint⟩ := exists_ofText_of_map hfirst
  obtain ⟨g', hg', hprint'⟩ := exists_ofText_of_map hagain
  refine ⟨g, g', hg, hprint ▸ hg', ?_⟩
  rw [hprint, hprint']
  decide

end Grammar

end GrammarCheck
