import GrammarCheck.Proofs.Grammar.ReadLines

namespace GrammarCheck

open Parsing

variable {ss ss' : List Symbol} {newline : Text}

def OneNewline (newline : Text) (ss : List Symbol) : Prop :=
  ∀ s ∈ ss, s.1 = .newline → s.2 = newline

namespace OneNewline

theorem append (h : OneNewline newline ss) (h' : OneNewline newline ss') :
    OneNewline newline (ss ++ ss') :=
  List.forall_mem_append.2 ⟨h, h'⟩

theorem cons {s : Symbol} (hs : s.1 ≠ .newline) (h : OneNewline newline ss) :
    OneNewline newline (s :: ss) :=
  List.forall_mem_cons.2 ⟨fun hkind => absurd hkind hs, h⟩

theorem nil : OneNewline newline [] := by simp [OneNewline]

theorem trivia (t : Trivia) : OneNewline newline (t.printedMarks newline) := by
  unfold Trivia.printedMarks
  split <;> split <;> simp [OneNewline]

theorem enclose (h : OneNewline newline ss) (inParens : Bool) :
    OneNewline newline (encloseSymbols inParens ss) := by
  cases inParens with
  | false => exact h
  | true => exact cons nofun (h.append (cons nofun nil))

theorem separator (j : Joint) : OneNewline newline j.separator := by
  cases j with
  | choice => exact cons nofun nil
  | sequence => exact nil

theorem expr (e : Expr) : OneNewline newline (e.printedMarks newline) := by
  induction e with
  | leaf l after => exact cons (by cases l <;> exact nofun) (trivia after)
  | repeated r body label after ih =>
    exact (ih.enclose body.isGroup).append (cons (by cases r <;> exact nofun) (trivia after))
  | group j items label after ih =>
    have hfurther : ∀ es : List Expr, (∀ e ∈ es, OneNewline newline (e.printedMarks newline)) →
        OneNewline newline (Expr.printedMarks.further newline j es) := by
      intro es hes
      induction es with
      | nil => exact nil
      | cons e es ihes =>
        exact ((separator j).append ((hes e List.mem_cons_self).enclose _)).append
          (ihes fun d hd => hes d (List.mem_cons_of_mem _ hd))
    cases items with
    | nil => exact trivia after
    | cons e es =>
      exact (((ih e List.mem_cons_self).enclose _).append
        (hfurther es fun d hd => ih d (List.mem_cons_of_mem _ hd))).append (trivia after)

theorem comment (part : Text → Text) (comment : Text) :
    OneNewline newline (commentMarks part comment) := by
  unfold commentMarks
  split
  · exact nil
  · exact cons nofun nil

theorem production (part : Text → Text) (p : Production) :
    OneNewline newline (p.printedMarks newline part) := by
  unfold Production.printedMarks
  split
  · exact comment part p.comment
  · rename_i rule _
    have hstart : OneNewline newline (p.startMarks newline) := by
      unfold Production.startMarks
      split <;> simp [OneNewline]
    exact cons nofun (cons nofun
      (hstart.append ((expr rule.body).append (cons nofun (comment part p.comment)))))

theorem line (part : Text → Text) (l : Grammar.Line) :
    OneNewline newline (l.printedMarks newline part) := by
  cases l with
  | header name => exact cons nofun (cons nofun (cons nofun nil))
  | entry p => exact production part p

theorem closed (ls : List Grammar.Line) : OneNewline newline (Grammar.closedMarks newline ls) := by
  intro s hs
  obtain ⟨l, -, hs⟩ := List.mem_flatMap.1 hs
  obtain hs | hs := List.mem_append.1 hs
  · exact line id l s hs
  · obtain rfl := List.mem_singleton.1 hs
    exact fun _ => rfl

end OneNewline

namespace Grammar

theorem newlineOf_eq (ts : List Token) :
    newlineOf ts = (((tokenMarks ts).find? (·.1 == .newline)).map (·.2)).getD ['\r', '\n'] := by
  have hfind : (ts.filter (·.kind != .whitespace)).find? (·.kind == .newline) =
      ts.find? (·.kind == .newline) := by
    rw [List.find?_filter]
    congr 1
    funext t
    obtain ⟨kind, value, position⟩ := t
    cases kind <;> rfl
  rw [newlineOf, tokenMarks, List.find?_map, Option.map_map, ← hfind]
  rfl

theorem newlineOf_of_oneNewline {ts : List Token} {t : Text}
    (h : OneNewline newline (tokenMarks ts)) (hscanned : Scanned t (tokenMarks ts) []) :
    newlineOf ts = if t.any isLineEnd then newline else defaultNewline := by
  have hexists : t.any isLineEnd ↔ ∃ s ∈ tokenMarks ts, s.1 = .newline := by
    rw [List.any_eq_true, hscanned.exists_newline_iff]
  rw [newlineOf_eq]
  cases hfind : (tokenMarks ts).find? (·.1 == .newline) with
  | none =>
    have hnot : ¬ ∃ s ∈ tokenMarks ts, s.1 = .newline := by
      rintro ⟨s, hs, hkind⟩
      have hno := List.find?_eq_none.1 hfind s hs
      simp [hkind] at hno
    rw [if_neg (hexists.not.2 hnot)]
    rfl
  | some s =>
    have hs := List.mem_of_find?_eq_some hfind
    have hkind : s.1 = .newline := by simpa using List.find?_some hfind
    rw [if_pos (hexists.2 ⟨s, hs, hkind⟩)]
    exact h s hs hkind

variable {g : Grammar}

theorem filterMap_name?_lines (g : Grammar) :
    g.lines.filterMap Line.name? = if g.name.isEmpty then [] else [g.name] := by
  have hentries : (g.productions.map Line.entry).filterMap Line.name? = [] := by
    rw [List.filterMap_map]
    exact List.filterMap_eq_nil_iff.2 fun _ _ => rfl
  rw [lines, List.filterMap_append, hentries, List.append_nil]
  split <;> rfl

/-- What becomes of the lines of a printed grammar: blank lines at the ends of the text are lost,
and blanks at its end. -/
inductive Kept (ls : List Line) : List Production → Prop
  | none (blank : ∀ l ∈ ls, l.isBlank) : Kept ls []
  | within {before init after : List Line} {last : Line}
      (eq : ls = before ++ (init ++ last :: after))
      (blankBefore : ∀ l ∈ before, l.isBlank)
      (first : ∀ l ∈ (init ++ [last]).head?, l.isBlank = false) (notBlank : last.isBlank = false)
      (blankAfter : ∀ l ∈ after, l.isBlank) :
    Kept ls (init.flatMap (Line.reread id) ++ last.reread Text.trimRight)

theorem Line.name?_of_isBlank {l : Line} (h : l.isBlank) : l.name? = none := by
  cases l with
  | header => cases h
  | entry => rfl

theorem filterMap_name?_of_isBlank {ls : List Line} (h : ∀ l ∈ ls, l.isBlank) :
    ls.filterMap Line.name? = [] :=
  List.filterMap_eq_nil_iff.2 fun l hl => Line.name?_of_isBlank (h l hl)

theorem getLast?_names (g : Grammar) :
    (g.lines.filterMap Line.name?).getLast?.getD [] = g.name := by
  rw [filterMap_name?_lines]
  split
  · rename_i hname
    exact (List.isEmpty_iff.1 hname).symm
  · rfl

theorem Printable.exists_reads (h : g.Printable) :
    ∃ ss, Scanned g.print.trim ss [] ∧ OneNewline g.newline ss ∧
      ∀ ts, tokenMarks ts = ss → ∃ name ps, ReadsEntries ts name ps ∧ name.getD [] = g.name ∧
        Kept g.lines (ps.map Production.withoutSpace) := by
  rw [print_eq_closed]
  obtain hblank | ⟨before, init, last, after, heq, hbefore, hfirst, hlast, hafter⟩ :=
    all_or_exists_within Line.isBlank g.lines
  · have htrim : (closed g.newline g.lines).trim = [] := by
      rw [Text.trim, Text.trimRight_eq_nil (blank_closed h.newline hblank)]
      rfl
    have hname : [] = g.name := by
      rw [← getLast?_names g, filterMap_name?_of_isBlank hblank]
      rfl
    refine ⟨[], htrim ▸ .nil, .nil, fun ts hts => ?_⟩
    exact ⟨none, [], readsEntries_of_blanks hts, hname, .none hblank⟩
  · have hlines := h.lines
    rw [heq, List.forall_mem_append, List.forall_mem_append, List.forall_mem_cons] at hlines
    obtain ⟨-, hinit, hprintable, -⟩ := hlines
    have htrim := trim_closed h.newline hbefore hafter hinit hprintable hlast hfirst
    rw [← heq] at htrim
    rw [htrim]
    refine ⟨_, scanned_lines h.newline hinit hprintable,
      (OneNewline.closed init).append (.line _ last), fun ts hts => ?_⟩
    obtain ⟨name, ps, hread, hname, hps⟩ := reads_lines hinit hprintable hlast hts
    refine ⟨name, ps, hread, ?_, hps ▸ .within heq hbefore hfirst hlast hafter⟩
    have hnames : g.lines.filterMap Line.name? = (init ++ [last]).filterMap Line.name? := by
      rw [heq, List.filterMap_append, filterMap_name?_of_isBlank hbefore, List.nil_append,
        List.append_cons, List.filterMap_append, filterMap_name?_of_isBlank hafter, List.append_nil]
    rw [← getLast?_names g, hnames, hname]

theorem Printable.exists_ofText (h : g.Printable) (source : Text) :
    ∃ g', ofText source [] g.print = .ok g' ∧ g'.name = g.name ∧
      Kept g.lines (g'.productions.map Production.withoutSpace) ∧
      g'.newline = if g.print.trim.any isLineEnd then g.newline else defaultNewline := by
  obtain ⟨ss, hscanned, hnewline, hreads⟩ := h.exists_reads
  obtain ⟨ts, htext, hmarks⟩ := hscanned.exists_tokens source
  obtain ⟨name, ps, hread, hname, hkept⟩ := hreads ts.tokens hmarks
  exact ⟨_, ofText_eq_ok_iff.2 ⟨ts, name, ps, htext, hread, rfl⟩, hname, hkept,
    newlineOf_of_oneNewline (hmarks ▸ hnewline) (hmarks ▸ hscanned)⟩

end Grammar

end GrammarCheck
