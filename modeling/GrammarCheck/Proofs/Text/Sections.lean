import GrammarCheck.Proofs.Text.Terminators
import Mathlib.Data.List.TakeWhile

namespace GrammarCheck

open GrammarCheck.Span GrammarCheck.Line

variable {t : Text} {size : Int} {line : Line} {lines before after headings : List Line}

namespace Line

def nextStart (size : Int) (lines : List Line) : Int := (lines.head?.map (·.span.start)).getD size

@[simp] theorem nextStart_nil (size : Int) : nextStart size [] = size := rfl

@[simp] theorem nextStart_cons (size : Int) (line : Line) (lines : List Line) :
    nextStart size (line :: lines) = line.span.start := rfl

theorem nextStart_place {offset : Nat} {lines : List (Text × Text)}
    (h : offset + (unite lines).length = t.length) :
    nextStart t.length (place offset lines) = offset := by
  cases lines with
  | nil =>
    rw [unite_nil, List.length_nil, Nat.add_zero] at h
    rw [h]
    rfl
  | cons line lines => rfl

theorem lines_slice (h : all t = before ++ (line :: lines ++ after)) :
    (all (slice ⟨line.span.start, nextStart t.length after - line.span.start⟩ t)).map (·.text) =
      (line :: lines).map (·.text) := by
  obtain ⟨linesBefore, more, hcut, -, hmore⟩ := exists_of_place_eq_append h
  obtain ⟨middle, linesAfter, rfl, hmiddle, hafter⟩ := exists_of_place_eq_append hmore
  rw [Nat.zero_add] at hmiddle hafter
  have ht : t = unite linesBefore ++ (unite middle ++ unite linesAfter) := by
    rw [← unite_append, ← unite_append, ← hcut, unite_cut]
  have hstop : nextStart t.length after =
      ((unite linesBefore).length + (unite middle).length : Nat) := by
    have hsize := congrArg List.length ht
    rw [List.length_append, List.length_append, ← Nat.add_assoc] at hsize
    rw [← hafter, nextStart_place hsize.symm]
  have hslice := slice_between_append (unite linesBefore) (unite middle) (unite linesAfter)
  rw [← ht] at hslice
  have hcutMiddle : cut (unite middle) = middle := (hcut ▸ isCut_cut t).right.left.cut_unite
  rw [start_of_place_eq_cons hmiddle, hstop]
  change (all (slice (between _ _) t)).map (·.text) = _
  rw [hslice, all, hcutMiddle, map_text_place, ← hmiddle, map_text_place]

end Line

namespace Section

/-- The section that a heading line opens: its number signs, the trimmed text behind them, and a range
that has that line and no other heading. -/
structure Opens (t : Text) (line : Line) (s : Section) : Prop where
  heading : ∃ rest, line.text = s.hashes ++ rest ∧ (∀ c ∈ s.hashes, c = '#') ∧
    rest.head? ≠ some '#' ∧ s.title = rest.trim
  start : s.span.start = line.span.start
  lines : ∃ rest, (Line.all (s.span.slice t)).map (·.text) = line.text :: rest ∧
    ∀ text ∈ rest, text.head? ≠ some '#'

theorem isHeading_eq_false_iff : isHeading line = false ↔ line.text.head? ≠ some '#' := by
  rw [isHeading, beq_eq_false_iff_ne]

theorem ofHeadings_cons (size : Int) (line : Line) (lines : List Line) :
    ofHeadings size (line :: lines) =
      ⟨line.text.takeWhile (· == '#'), Text.trim (line.text.dropWhile (· == '#')),
        ⟨line.span.start, nextStart size lines - line.span.start⟩⟩ :: ofHeadings size lines := by
  cases lines <;> rfl

theorem stop_of_getElem?_ofHeadings {i : Nat} {s : Section}
    (h : (ofHeadings size lines)[i]? = some s) :
    s.span.stop = nextStart size (lines.drop (i + 1)) := by
  induction lines generalizing i with
  | nil => cases h
  | cons line lines ih =>
    rw [ofHeadings_cons] at h
    cases i with
    | zero =>
      obtain rfl := Option.some.inj h
      rw [stop_mk_sub]
      rfl
    | succ i => exact ih h

theorem exists_append_of_filter (h : lines.filter isHeading = headings) :
    ∃ gap after, lines = gap ++ after ∧ (∀ line ∈ gap, isHeading line = false) ∧
      after.head? = headings.head? := by
  refine ⟨lines.takeWhile (! isHeading ·), lines.dropWhile (! isHeading ·),
    List.takeWhile_append_dropWhile.symm, fun line hline => ?_, ?_⟩
  · simpa using List.all_eq_true.1 List.all_takeWhile line hline
  · rw [← h, List.head?_filter, List.find?_eq_head?_dropWhile_not]

theorem opens_ofHeadings (h : Line.all t = before ++ lines) :
    List.Forall₂ (Opens t) (lines.filter isHeading)
      (ofHeadings t.length (lines.filter isHeading)) := by
  generalize hfilter : lines.filter isHeading = headings
  induction headings generalizing before lines with
  | nil => exact .nil
  | cons line headings ih =>
    obtain ⟨gap, more, rfl, -, -, hmore⟩ := List.filter_eq_cons_iff.1 hfilter
    obtain ⟨rest, after, hrest, hplain, hafter⟩ := exists_append_of_filter hmore
    have hwithin : Line.all t = (before ++ gap) ++ (line :: rest ++ after) := by
      rw [h, hrest, List.append_assoc]
      rfl
    have hlines := Line.lines_slice hwithin
    have hbehind : Line.all t = (before ++ gap ++ [line]) ++ more := by simp [h]
    have hnext : nextStart t.length after = nextStart t.length headings := by
      rw [nextStart, hafter, nextStart]
    rw [hnext, List.map_cons] at hlines
    rw [ofHeadings_cons]
    refine .cons ⟨?_, rfl, ?_⟩ (ih hbehind hmore)
    · refine ⟨line.text.dropWhile (· == '#'), List.takeWhile_append_dropWhile.symm, ?_, ?_, rfl⟩
      · simpa using List.all_eq_true.1 (List.all_takeWhile (p := (· == '#')) (l := line.text))
      · intro hhead
        have hnot := List.head?_dropWhile_not (· == '#') line.text
        rw [hhead] at hnot
        cases hnot
    · refine ⟨_, hlines, List.forall_mem_map.2 fun next hnext => ?_⟩
      exact isHeading_eq_false_iff.1 (hplain next hnext)

theorem flatMap_slice_ofHeadings (hrow : Row 0 t.length (lines.map (·.span)))
    (hlines : ∀ line ∈ lines, line.span.start < line.span.stop) :
    ∀ first ∈ lines.head?,
      (ofHeadings t.length lines).flatMap (·.span.slice t) = t.drop first.span.start.toNat := by
  induction lines with
  | nil => exact nofun
  | cons line lines ih =>
    rintro _ ⟨⟩
    have hproper := proper_of_mem_ofHeadings (Int.le_refl 0) hrow hlines
    rw [ofHeadings_cons] at hproper ⊢
    rw [List.flatMap_cons, (hproper _ List.mem_cons_self).slice_eq, stop_mk_sub]
    have hfollow := ih hrow.tail (List.forall_mem_cons.1 hlines).2
    cases lines with
    | nil => simp [ofHeadings]
    | cons next lines =>
      have hle : line.span.start ≤ next.span.start :=
        Int.le_of_lt ((List.pairwise_cons.1 hrow.pairwise_start).1 _ List.mem_cons_self)
      have hstop := (hrow.inside next.span (by simp)).2
      have hsize : line.span.start.toNat ≤ (t.take next.span.start.toNat).length := by
        rw [List.length_take]
        omega
      rw [hfollow next rfl, nextStart_cons, ← List.drop_append_of_le_length hsize,
        List.take_append_drop]

/-- A text has one section for each heading line, in order. It runs from that line to the next heading
line or to the end of the text, and together the sections are the text from its first heading on. -/
theorem all_runs_to_next_heading (t : Text) :
    let headings := (Line.all t).filter isHeading
    List.Forall₂ (Opens t) headings (all t) ∧
    (∀ i s, (all t)[i]? = some s → s.span.stop = nextStart t.length (headings.drop (i + 1))) ∧
    ∀ first ∈ headings.head?,
      (all t).flatMap (·.span.slice t) = t.drop first.span.start.toNat := by
  refine ⟨?_, fun i s => stop_of_getElem?_ofHeadings, ?_⟩
  · exact opens_ofHeadings (List.nil_append _).symm
  · exact flatMap_slice_ofHeadings (row_headings t) lt_of_mem_headings

end Section

end GrammarCheck
