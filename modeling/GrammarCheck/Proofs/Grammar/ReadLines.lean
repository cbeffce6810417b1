import GrammarCheck.Proofs.Grammar.Lines
import GrammarCheck.Proofs.Grammar.ReadBack
import GrammarCheck.Proofs.Notation.LineEnds
import GrammarCheck.Proofs.Parsing.Acceptance

namespace GrammarCheck

open Parsing

variable {ts rest us : List Token} {t : Token} {ss r : List Symbol} {newline : Text}
  {part : Text → Text} {p : Production} {name : Option Text} {ps : List Production}

inductive EndsLine : List Symbol → List Symbol → Prop
  | newline (value : Text) (r : List Symbol) : EndsLine ((.newline, value) :: r) r
  | finish : EndsLine [] []

theorem tokenMarks_skipNewline (hhead : ∀ t ∈ ts.head?, t.kind ≠ .whitespace)
    (h : EndsLine (tokenMarks ts) r) : tokenMarks (skipNewline ts) = r := by
  cases ts with
  | nil =>
    cases h
    rfl
  | cons t ts =>
    rw [tokenMarks_cons (hhead t rfl)] at h
    generalize hss : t.symbol :: tokenMarks ts = ss at h
    cases h with
    | newline value r =>
      obtain ⟨hsymbol, hts⟩ := List.cons.inj hss
      have hkind : t.kind = .newline := congrArg Prod.fst hsymbol
      simp [skipNewline, hkind, hts]
    | finish => cases hss

theorem tokenMarks_skipNewline_dropWhile {q : Token.Kind → Bool} (hq : q .whitespace)
    (h : EndsLine ((tokenMarks ts).dropWhile (q ·.1)) r) :
    tokenMarks (skipNewline (ts.dropWhile (q ·.kind))) = r := by
  refine tokenMarks_skipNewline (fun t ht hkind => ?_) (by rwa [tokenMarks_dropWhile hq])
  have hnot := List.head?_dropWhile_not (fun t : Token => q t.kind) ts
  rw [Option.mem_def.1 ht] at hnot
  simp [hkind, hq] at hnot

theorem tokenMarks_skipLineEnd (h : EndsLine (tokenMarks ts) r) :
    tokenMarks (skipNewline (skipWhitespace ts)) = r := by
  refine tokenMarks_skipNewline_dropWhile (q := (· == .whitespace)) rfl ?_
  generalize hss : tokenMarks ts = ss at h
  cases h with
  | newline value r => exact .newline value r
  | finish => exact .finish

theorem remarks_eq (ts : List Token) :
    remarks ts =
      ((tokenMarks (ts.takeWhile isRemark)).filter (·.1 == .comment)).flatMap (·.2.drop 2) := by
  have hkind : ∀ t : Token,
      (t.kind == .comment && t.kind != .whitespace) = (t.kind == .comment) := by
    rintro ⟨kind, value, position⟩
    cases kind <;> rfl
  rw [remarks, tokenMarks, List.filter_map, List.filter_filter, List.flatMap_map]
  congr 2
  funext t
  exact (hkind t).symm

theorem read_comment {comment : Text} (hpart : part [] = [])
    (hts : tokenMarks ts = commentMarks part comment ++ ss) (hline : EndsLine ss r) :
    remarks ts = part comment ∧ tokenMarks (skipRemarks ts) = r := by
  have hsplit : (tokenMarks ts).takeWhile (fun s => s.1 == .whitespace || s.1 == .comment) =
        commentMarks part comment ∧
      (tokenMarks ts).dropWhile (fun s => s.1 == .whitespace || s.1 == .comment) = ss := by
    rw [hts]
    unfold commentMarks
    cases hline <;> split <;> simp
  refine ⟨?_, ?_⟩
  · have htake := tokenMarks_takeWhile (q := fun k => k == .whitespace || k == .comment) rfl ts
    rw [hsplit.1] at htake
    rw [remarks_eq]
    change ((tokenMarks (ts.takeWhile fun t => t.kind == .whitespace || t.kind == .comment)).filter
      _).flatMap _ = _
    rw [htake]
    unfold commentMarks
    cases comment <;> simp [hpart]
  · refine tokenMarks_skipNewline_dropWhile (q := fun k => k == .whitespace || k == .comment) rfl ?_
    rwa [hsplit.2]

theorem Parsing.ReadsEntries.of_blanks {blanks : List Token}
    (hblanks : ∀ b ∈ blanks, b.kind = .whitespace)
    (h : ReadsEntries ts name ps) : ReadsEntries (blanks ++ ts) name ps := by
  induction blanks with
  | nil => exact h
  | cons b blanks ih =>
    exact .whitespace (hblanks b List.mem_cons_self)
      (ih fun c hc => hblanks c (List.mem_cons_of_mem _ hc))

theorem Parsing.Reads.barred {es : List Expr} (h : Reads .choice (skipTrivia ts) es rest)
    (hready : ∀ u ∈ (skipTrivia ts).head?, StartsAtom u.kind) (hbar : t.kind = .bar)
    (hplain : (triviaAhead ts).withoutSpace = {}) : Reads .choice (t :: ts) es rest := by
  have hskip : skipBar (skipTrivia ts) = skipTrivia ts := by
    cases hts : skipTrivia ts with
    | nil => rfl
    | cons u us => exact StartsAtom.skipBar (hready u (by rw [hts]; rfl)) us
  have hnone : barTrivia (skipTrivia ts) = {} := by
    unfold barTrivia
    split
    · rename_i hts
      obtain h | h | h := hready _ (by rw [hts]; rfl) <;> cases h
    · rfl
  have hnone' : barTrivia (t :: ts) = {} := by
    obtain ⟨kind, value, position⟩ := t
    cases hbar
    change (triviaAhead ts).ifCommented = {}
    rw [Trivia.ifCommented, hplain]
    exact ite_self _
  cases h with
  | choice first more =>
    rw [hnone] at more
    exact .choice (by rwa [skipBar_of_bar hbar, ← hskip]) (by rwa [hnone'])

theorem Production.Printable.reads_body (h : p.Printable) {rule : Rule} (hrule : p.rule = some rule)
    (hts : tokenMarks ts = p.startMarks newline ++ (rule.body.printedMarks newline ++ ss))
    (hends : EndsChoice ss) :
    ∃ e rest, Reads .choice (skipTrivia ts) [e] rest ∧ e.withoutSpace = rule.body.reread [] ∧
      (triviaAhead ts).comment = [] ∧ (triviaAhead ts).newline = p.startsOnNewline ∧
      Ready rest ∧ tokenMarks rest = ss := by
  have hopens := (h.body rule hrule).opens newline
  have hreads := (h.body rule hrule).reads newline
  unfold startMarks at hts
  split at hts
  · rename_i hstart
    have hts' : tokenMarks ts = layoutMarks newline [{ newline := true }] ++
        (.bar, ['|']) :: (rule.body.printedMarks newline ++ ss) := by
      simpa [Trivia.printedMarks] using hts
    -- the line break is skipped before the choice, the bar by the choice itself
    obtain ⟨hlayout, hskip⟩ := skip_layout (by simp [Token.Kind.isTrivia]) hts'
    obtain ⟨bar, us, hus, hbar, hmarks⟩ := (ready_skipTrivia ts).exists_cons hskip
    obtain ⟨hplain, hskip'⟩ := skip_none (hopens.append ss).endsLayout hmarks
    obtain ⟨es, rest, hread, hes, hready, hrest⟩ := hreads _ ss (ready_skipTrivia us) hends hskip'
    obtain ⟨e, rfl, he⟩ := List.map_eq_singleton_iff.1 hes
    have hatom := (hopens.append ss).startsAtom (ready_skipTrivia us) hskip'
    have hfields := Trivia.mk.inj hlayout
    refine ⟨e, rest, ?_, he, hfields.2.1, by rw [hstart]; exact hfields.2.2, hready, hrest⟩
    rw [hus]
    exact hread.barred hatom (congrArg Prod.fst hbar) hplain
  · rename_i hstart
    obtain ⟨hlayout, hskip⟩ := skip_none (hopens.append ss).endsLayout hts
    obtain ⟨es, rest, hread, hes, hready, hrest⟩ := hreads _ ss (ready_skipTrivia ts) hends hskip
    obtain ⟨e, rfl, he⟩ := List.map_eq_singleton_iff.1 hes
    have hfields := Trivia.mk.inj hlayout
    exact ⟨e, rest, hread, he, hfields.2.1, hfields.2.2.trans (by simpa using hstart), hready,
      hrest⟩

theorem Production.Printable.reads (h : p.Printable) {rule : Rule} (hrule : p.rule = some rule)
    (hpart : part [] = []) (hname : t.symbol = (.word, rule.name))
    (hts : tokenMarks ts = (.colon, [':']) :: (p.startMarks newline ++
      (rule.body.printedMarks newline ++
        (.semicolon, [';']) :: (commentMarks part p.comment ++ ss))))
    (hline : EndsLine ss r) :
    ∃ q rest, ReadsProduction (t :: ts) q rest ∧ q.withoutSpace = p.reread part ∧
      ¬ (t.value = "grammar".toList ∧ isHeader (t :: ts)) ∧ tokenMarks rest = r := by
  obtain ⟨breaks, colon, us, rfl, hbreaks, hcolon, hus⟩ := exists_cons_of_tokenMarks hts
  obtain ⟨e, rest, hread, he, hcomment, hstart, hready, hrest⟩ :=
    h.reads_body hrule hus (by simp [EndsChoice])
  obtain ⟨semicolon, after, rfl, hsemicolon, hafter⟩ := hready.exists_cons hrest
  obtain ⟨hremarks, hskip⟩ := read_comment hpart hafter hline
  have hword : t.kind = .word := congrArg Prod.fst hname
  have hcolonKind : colon.kind = .colon := congrArg Prod.fst hcolon
  have hbreak : ∀ b ∈ breaks, isBreak b := by
    intro b hb
    simp [isBreak, hbreaks b hb]
  have hnoBreak : breaks.any (·.kind == .newline) = false := by
    rw [List.any_eq_false]
    intro b hb
    simp [hbreaks b hb]
  have hnoHeader : ¬ OpensHeader (t :: (breaks ++ colon :: us)) :=
    not_opensHeader (fun b hb => .inl (hbreaks b hb)) hcolonKind us
  refine ⟨_, _, .closed hbreak hcolonKind hread (congrArg Prod.fst hsemicolon), ?_, ?_, hskip⟩
  · have hvalue : t.value = rule.name := congrArg Prod.snd hname
    simp [withoutSpace, reread, hrule, hcomment, hremarks, hnoBreak, hstart, hvalue, he]
  · rintro ⟨hvalue, hheader⟩
    exact hnoHeader (opensHeader_cons_iff.2 ⟨hword, hvalue, hheader⟩)

theorem reads_header {n : Text} (hts : tokenMarks ts = (.word, n) :: (.semicolon, [';']) :: ss)
    (hline : EndsLine ss r) : ∃ rest, ReadsHeader (t :: ts) n rest ∧ tokenMarks rest = r := by
  obtain ⟨before, name, us, rfl, hbefore, hname, hus⟩ := exists_cons_of_tokenMarks hts
  obtain ⟨after, semicolon, rest, rfl, hafter, hsemicolon, rfl⟩ := exists_cons_of_tokenMarks hus
  have hvalue : name.value = n := congrArg Prod.snd hname
  subst hvalue
  exact ⟨_, .mk hbefore (congrArg Prod.fst hname) hafter (congrArg Prod.fst hsemicolon),
    tokenMarks_skipLineEnd hline⟩

namespace Grammar

namespace Line

def name? : Line → Option Text
  | .header name => some name
  | .entry _ => none

def reread (part : Text → Text) : Line → List Production
  | .header _ => []
  | .entry p => [p.reread part]

variable {l : Line}

theorem Printable.reads (h : l.Printable) (hpart : part [] = [])
    (hts : tokenMarks ts = l.printedMarks newline part ++ ss) (hline : EndsLine ss r)
    (hblank : l.isBlank → ss ≠ []) :
    ∃ qs rest, qs.map Production.withoutSpace = l.reread part ∧ tokenMarks rest = r ∧
      ∀ name ps, ReadsEntries rest name ps → ReadsEntries ts (name.or l.name?) (qs ++ ps) := by
  cases l with
  | header n =>
    obtain ⟨blanks, t, us, rfl, hblanks, hkeyword, hus⟩ := exists_cons_of_tokenMarks hts
    obtain ⟨rest, hread, hrest⟩ := reads_header (t := t) hus hline
    exact ⟨[], rest, rfl, hrest, fun name ps hmore => .of_blanks hblanks
      (.header (congrArg Prod.fst hkeyword) (congrArg Prod.snd hkeyword) hread hmore)⟩
  | entry p =>
    have hp : p.Printable := h
    have hts' : tokenMarks ts = p.printedMarks newline part ++ ss := hts
    cases hrule : p.rule with
    | some rule =>
      rw [Production.printedMarks, hrule] at hts'
      obtain ⟨blanks, t, us, rfl, hblanks, hname, hus⟩ := exists_cons_of_tokenMarks hts'
      obtain ⟨q, rest, hread, hq, hnoHeader, hrest⟩ :=
        hp.reads hrule hpart hname (by simpa using hus) hline
      exact ⟨[q], rest, by simp [hq, reread], hrest, fun name ps hmore => .of_blanks hblanks
        (by simpa [name?] using .production (congrArg Prod.fst hname) hnoHeader hread hmore)⟩
    | none =>
      rw [Production.printedMarks, hrule] at hts'
      by_cases hempty : p.comment.isEmpty
      · have hcomment : p.comment = [] := List.isEmpty_iff.1 hempty
        have hss : ss ≠ [] := hblank (by simp [isBlank, Production.isBlank, hrule, hempty])
        rw [commentMarks, if_pos hempty, List.nil_append] at hts'
        cases hline with
        | newline value r =>
          obtain ⟨blanks, t, us, rfl, hblanks, hnewline, rfl⟩ := exists_cons_of_tokenMarks hts'
          refine ⟨[{}], us, ?_, rfl, fun name ps hmore => .of_blanks hblanks
            (by simpa [name?] using .newline (congrArg Prod.fst hnewline) hmore)⟩
          simp [reread, Production.reread, Production.withoutSpace, hrule, hcomment, hpart]
        | finish => contradiction
      · rw [commentMarks, if_neg hempty] at hts'
        obtain ⟨blanks, t, us, rfl, hblanks, hcomment, rfl⟩ := exists_cons_of_tokenMarks hts'
        have hvalue : t.value = '/' :: '/' :: part p.comment := congrArg Prod.snd hcomment
        refine ⟨[{ comment := t.value.drop 2 }], _, ?_, tokenMarks_skipLineEnd hline,
          fun name ps hmore => .of_blanks hblanks
            (by simpa [name?] using .comment (congrArg Prod.fst hcomment) hmore)⟩
        simp [reread, Production.reread, Production.withoutSpace, hrule, hvalue]

end Line

theorem readsEntries_of_blanks (hts : tokenMarks ts = []) : ReadsEntries ts none [] := by
  induction ts with
  | nil => exact .nil
  | cons t ts ih =>
    by_cases hkind : t.kind = .whitespace
    · rw [tokenMarks_cons_of_whitespace hkind] at hts
      exact .whitespace hkind (ih hts)
    · rw [tokenMarks_cons hkind] at hts
      cases hts

theorem reads_lines {init : List Line} {last : Line} (hinit : ∀ l ∈ init, l.Printable)
    (hlast : last.Printable) (hblank : last.isBlank = false)
    (hts : tokenMarks ts = closedMarks newline init ++ last.printedMarks newline Text.trimRight) :
    ∃ name ps, ReadsEntries ts name ps ∧
      name = ((init ++ [last]).filterMap Line.name?).getLast? ∧
      ps.map Production.withoutSpace =
        init.flatMap (Line.reread id) ++ last.reread Text.trimRight := by
  induction init generalizing ts with
  | nil =>
    have hts' : tokenMarks ts = last.printedMarks newline Text.trimRight ++ [] := by
      simpa [closedMarks] using hts
    obtain ⟨qs, rest, hqs, hrest, hread⟩ := hlast.reads rfl hts' .finish (by simp [hblank])
    refine ⟨_, _, hread _ _ (readsEntries_of_blanks hrest), ?_, by simpa using hqs⟩
    cases last <;> rfl
  | cons l init ih =>
    have hts' : tokenMarks ts = l.printedMarks newline id ++ ((.newline, newline) ::
        (closedMarks newline init ++ last.printedMarks newline Text.trimRight)) := by
      simpa [closedMarks] using hts
    obtain ⟨qs, rest, hqs, hrest, hread⟩ :=
      (hinit l List.mem_cons_self).reads rfl hts' (.newline _ _) (by simp)
    obtain ⟨name, ps, hmore, hname, hps⟩ :=
      ih (fun d hd => hinit d (List.mem_cons_of_mem _ hd)) hrest
    refine ⟨_, _, hread _ _ hmore, ?_, ?_⟩
    · rw [hname, List.cons_append, List.filterMap_cons]
      cases l.name? with
      | none => rw [Option.or_none]
      | some n => rw [List.getLast?_cons, Option.or_some]
    · rw [List.map_append, hqs, hps, List.flatMap_cons, List.append_assoc]

end Grammar

end GrammarCheck
