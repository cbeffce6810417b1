import GrammarCheck.Proofs.Grammar.Alike
import GrammarCheck.Proofs.Text.Terminators

namespace GrammarCheck

variable {keep : Char → Bool} {newline t u : Text} {ms ms' : List Mark}

namespace Mark

def closed (lines : List (List ColouredWord)) : List Mark :=
  lines.flatMap fun line => line.map .word ++ [.lineBreak]

theorem lines_words (current line : List ColouredWord) (ms : List Mark) :
    lines current (line.map .word ++ .lineBreak :: ms) = (current ++ line) :: lines [] ms := by
  induction line generalizing current with
  | nil => simp [lines]
  | cons w line ih => simp [lines, ih]

theorem lines_closed (ls : List (List ColouredWord)) : lines [] (closed ls) = ls := by
  induction ls with
  | nil => rfl
  | cons line ls ih =>
    rw [closed, List.flatMap_cons, List.append_assoc, List.singleton_append, lines_words,
      List.nil_append, ← closed, ih]

theorem exists_closed (ms : List Mark) : ∃ ls, ms ++ [.lineBreak] = closed ls := by
  induction ms with
  | nil => exact ⟨[[]], rfl⟩
  | cons m ms ih =>
    obtain ⟨ls, hls⟩ := ih
    rw [List.cons_append, hls]
    cases m with
    | lineBreak => exact ⟨[] :: ls, rfl⟩
    | word w =>
      cases ls with
      | nil => simp [closed] at hls
      | cons line ls => exact ⟨(w :: line) :: ls, rfl⟩

end Mark

def lineText (line : List ColouredWord) : Text := line.flatMap (·.text)

theorem text_closed (newline : Text) (ls : List (List ColouredWord)) :
    (Mark.closed ls).flatMap (·.text newline) = ls.flatMap fun line => lineText line ++ newline := by
  simp [Mark.closed, List.flatMap_assoc, lineText, Mark.text, List.flatMap_map]

theorem text_closed_eq_unite (newline : Text) (ls : List (List ColouredWord)) :
    (Mark.closed ls).flatMap (·.text newline) = Line.unite ((ls.map lineText).map (·, newline)) := by
  rw [text_closed, Line.unite, List.map_map, List.flatMap_map]
  rfl

theorem kept_closed (keep : Char → Bool) (ls : List (List ColouredWord)) :
    (Mark.closed ls).flatMap (·.kept keep) =
      ls.flatMap fun line => ((lineText line).filter keep).map some ++ [none] := by
  simp [Mark.closed, List.flatMap_assoc, lineText, Mark.kept, List.flatMap_map, List.filter_flatMap,
    List.map_flatMap]

theorem cut_closed {ls : List (List ColouredWord)} (hnewline : IsNewline newline)
    (hls : ∀ line ∈ ls, ∀ c ∈ lineText line, isLineEnd c = false) :
    Line.cut ((Mark.closed ls).flatMap (·.text newline)) =
      ls.map fun line => (lineText line, newline) := by
  have hcut := (Line.isCut_of_newline hnewline (List.forall_mem_map.2 hls)).cut_unite
  rw [text_closed_eq_unite, hcut, List.map_map]
  rfl

theorem map_some_append_none_inj {s s' : List (Option Char)}
    (h : t.map some ++ none :: s = u.map some ++ none :: s') : t = u ∧ s = s' := by
  induction t generalizing u with
  | nil =>
    cases u with
    | nil => exact ⟨rfl, by simpa using h⟩
    | cons c u => simp at h
  | cons c t ih =>
    cases u with
    | nil => simp at h
    | cons d u =>
      rw [List.map_cons, List.map_cons, List.cons_append, List.cons_append, List.cons.injEq] at h
      obtain ⟨rfl, hs⟩ := ih h.2
      exact ⟨by rw [Option.some.inj h.1], hs⟩

theorem map_filter_eq_of_kept {ls ls' : List (List ColouredWord)}
    (h : (Mark.closed ls).flatMap (·.kept keep) = (Mark.closed ls').flatMap (·.kept keep)) :
    (ls.map fun line => (lineText line).filter keep) =
      ls'.map fun line => (lineText line).filter keep := by
  rw [kept_closed, kept_closed] at h
  induction ls generalizing ls' with
  | nil =>
    cases ls' with
    | nil => rfl
    | cons => simp at h
  | cons line ls ih =>
    cases ls' with
    | nil => simp at h
    | cons line' ls' =>
      simp only [List.flatMap_cons, List.append_assoc, List.singleton_append] at h
      obtain ⟨hline, hls⟩ := map_some_append_none_inj h
      rw [List.map_cons, List.map_cons, hline, ih hls]

theorem Alike.exists_lines (h : Alike keep newline t ms) :
    ∃ ls ls', t ++ newline = (Mark.closed ls).flatMap (·.text newline) ∧
      (∀ line ∈ ls, ∀ c ∈ lineText line, isLineEnd c = false) ∧
      ms ++ [.lineBreak] = Mark.closed ls' ∧
      (ls.map fun line => (lineText line).filter keep) =
        ls'.map fun line => (lineText line).filter keep := by
  obtain ⟨xs, rfl, hline, hkept⟩ := h
  obtain ⟨ls, hls⟩ := Mark.exists_closed xs
  obtain ⟨ls', hls'⟩ := Mark.exists_closed ms
  refine ⟨ls, ls', by simp [← hls, Mark.text], ?_, hls', map_filter_eq_of_kept ?_⟩
  · intro line hline' c hc
    obtain ⟨w, hw, hc⟩ := List.mem_flatMap.1 hc
    have hmem : .word w ∈ xs ++ [Mark.lineBreak] := by
      rw [hls]
      exact List.mem_flatMap.2 ⟨line, hline', by simp [hw]⟩
    exact hline w (by simpa using hmem) c hc
  · rw [← hls, ← hls', List.flatMap_append, List.flatMap_append, hkept]

namespace Grammar

variable {source name text : Text} {g : Grammar} {f : Leaf → Leaf}

def mapLeaves (f : Leaf → Leaf) (g : Grammar) : Grammar :=
  { g with productions := g.productions.map (·.mapLeaves f) }

theorem mapLeaves_id (g : Grammar) : g.mapLeaves id = g := by
  have hproduction : ∀ p : Production, p.mapLeaves id = p := by
    rintro ⟨rule, comment, startsOnNewline, link, linkName⟩
    cases rule <;> simp [Production.mapLeaves, Expr.mapLeaves_id]
  simp [mapLeaves, hproduction]

theorem spaced_of_ofText (h : ofText source name text = .ok g) :
    ∀ p ∈ g.productions, ∀ body ∈ p.body, body.CarriesOnly Trivia.Spaced := by
  obtain ⟨ts, n, ps, htext, hread, rfl⟩ := ofText_eq_ok_iff.1 h
  intro p hp body hbody d hd
  obtain ⟨us, hus, hcompletes⟩ := hread.completes p hp body hbody
  exact (hcompletes.wellFormed ((TokenList.sound_ofText htext).of_suffix hus)
    ((TokenList.spaced_ofText htext).of_suffix hus) d hd).spaced

theorem exists_closed_lines {ps : List Production}
    (h : ∀ p ∈ ps, Alike keep newline ((p.mapLeaves f).line newline id) p.lineMarks) :
    ∃ ls ls', ((ps.map (·.mapLeaves f)).flatMap (·.print newline)) =
        (Mark.closed ls).flatMap (·.text newline) ∧
      (∀ line ∈ ls, ∀ c ∈ lineText line, isLineEnd c = false) ∧
      ps.flatMap (·.marks) = Mark.closed ls' ∧
      (ls.map fun line => (lineText line).filter keep) =
        ls'.map fun line => (lineText line).filter keep := by
  induction ps with
  | nil => exact ⟨[], [], rfl, nofun, rfl, rfl⟩
  | cons p ps ih =>
    obtain ⟨hp, hps⟩ := List.forall_mem_cons.1 h
    obtain ⟨ls, ls', htext, hline, hmarks, hkept⟩ := hp.exists_lines
    obtain ⟨more, more', htext', hline', hmarks', hkept'⟩ := ih hps
    refine ⟨ls ++ more, ls' ++ more', ?_, List.forall_mem_append.2 ⟨hline, hline'⟩, ?_, ?_⟩
    · rw [List.map_cons, List.flatMap_cons, Production.print_eq_line, htext, htext', Mark.closed,
        Mark.closed, Mark.closed, List.flatMap_append, List.flatMap_append]
    · rw [List.flatMap_cons, Production.marks_eq, hmarks, hmarks', Mark.closed, Mark.closed,
        Mark.closed, List.flatMap_append]
    · rw [List.map_append, List.map_append, hkept, hkept']

theorem Tidy.cut_eq (hkeep : ∀ c, isBlank c → keep c = false) (h : g.Tidy)
    (hleaf : ∀ l : Leaf, l.Printable → Alike keep g.newline (f l).print [l.mark])
    (hspaced : ∀ p ∈ g.productions, ∀ body ∈ p.body, body.CarriesOnly Trivia.Spaced) :
    (Line.cut { g.mapLeaves f with name := [] }.print).map
        (fun line => (line.1.filter keep, line.2)) =
      g.colouredLines.map fun line => ((lineText line).filter keep, g.newline) := by
  obtain ⟨ls, ls', htext, hline, hmarks, hkept⟩ := exists_closed_lines fun p hp =>
    (h.productions p hp).alike hkeep hleaf (hspaced p hp)
  have hprint : { g.mapLeaves f with name := [] }.print =
      (g.productions.map (·.mapLeaves f)).flatMap (·.print g.newline) := rfl
  have hlines : g.colouredLines = ls' := by rw [colouredLines, hmarks, Mark.lines_closed]
  have hpairs := congrArg (List.map fun t => (t, g.newline)) hkept
  rw [hprint, htext, cut_closed h.newline hline, hlines]
  simpa [Function.comp_def] using hpairs

/-- The text of a parsed grammar without its header has as many lines as its coloured lines are,
each of them closed by a line end. With special terminals written as their bare text, line by line
the two show the same characters, blanks aside. -/
theorem colouredLines_eq_print (h : ofText source name text = .ok g) :
    (Line.cut { g with name := [] }.print).map (·.2) =
        List.replicate g.colouredLines.length g.newline ∧
      (Line.cut { g.mapLeaves Leaf.bare with name := [] }.print).map
          (fun line => line.1.filter (!isBlank ·)) =
        g.colouredLines.map fun line => (lineText line).filter (!isBlank ·) := by
  have htidy := tidy_of_ofText h
  have hspaced := spaced_of_ofText h
  have hends := htidy.cut_eq (fun _ _ => rfl) (fun _ hl => hl.alike_none) hspaced
  have hinked : ∀ c, isBlank c → (!isBlank c) = false := by simp
  have hshown := htidy.cut_eq hinked (fun _ hl => hl.alike_bare) hspaced
  rw [mapLeaves_id] at hends
  constructor
  · have hmap := congrArg (List.map (·.2)) hends
    simpa [Function.comp_def, List.map_const'] using hmap
  · have hmap := congrArg (List.map (·.1)) hshown
    simpa [Function.comp_def] using hmap

theorem colouredLines_eq_print_special :
    ∃ g, ofText [] [] "r: //c\n('<a b>' |'x')* y; //d\n//e".toList = .ok g ∧
      (Line.cut { g with name := [] }.print).map (·.2) =
          List.replicate g.colouredLines.length g.newline ∧
        (Line.cut { g.mapLeaves Leaf.bare with name := [] }.print).map
            (fun line => line.1.filter (!isBlank ·)) =
          g.colouredLines.map fun line => (lineText line).filter (!isBlank ·) := by
  have hprint : (ofText [] [] "r: //c\n('<a b>' |'x')* y; //d\n//e".toList).toOption.map print =
      some "r:\n\t| ( '<a b>' | 'x' )* y;  //cd\n//e\n".toList := by decide +kernel
  obtain ⟨g, hg, -⟩ := exists_ofText_of_map hprint
  exact ⟨g, hg, colouredLines_eq_print hg⟩

end Grammar

end GrammarCheck
