import GrammarCheck.Proofs.Text.Ranges
import GrammarCheck.Text.Search

namespace GrammarCheck

open GrammarCheck.Span

variable {t : Text} {lo hi : Int}

namespace Line

variable {lines : List (Text × Text)} {offset : Nat}

theorem pairwise_cut (t : Text) : (cut t).Pairwise fun line _ => line.2 ≠ [] := by
  fun_induction cut t with
  | case1 => exact .nil
  | case2 rest ih => exact .cons (by simp) ih
  | case3 c rest hno hline ih => exact .cons (by simp) ih
  | case4 c rest hno hline line terminator lines hrest ih =>
    rw [hrest] at ih
    obtain ⟨hterminator, hlines⟩ := List.pairwise_cons.1 ih
    exact .cons hterminator hlines
  | case5 c rest hno hline hrest ih => exact List.pairwise_singleton ..

theorem row_place (h : lines.Pairwise fun line _ => line.2 ≠ []) (offset : Nat) :
    Row offset (offset + (lines.flatMap fun line => line.1 ++ line.2).length)
      ((place offset lines).map (·.span)) := by
  induction lines generalizing offset with
  | nil => exact .nil ..
  | cons line lines ih =>
    obtain ⟨hterminator, hlines⟩ := List.pairwise_cons.1 h
    have hrow := ih hlines (offset + line.1.length + line.2.length)
    rw [place, List.map_cons, Row.cons_iff, stop_between, List.flatMap_cons, List.length_append,
      List.length_append]
    refine ⟨Int.le_refl _, ?_, ?_, ?_⟩
    · simp only [Span.between]
      omega
    · omega
    · cases lines with
      | nil => exact .nil ..
      | cons next lines =>
        have hpos := List.length_pos_iff.2 (hterminator next List.mem_cons_self)
        exact hrow.mono (by omega) (by omega)

theorem row_all (t : Text) : Row 0 t.length ((all t).map (·.span)) := by
  have h := row_place (pairwise_cut t) 0
  rwa [flatten_cut, Int.natCast_zero, Int.zero_add] at h

theorem length_span_of_mem_place {line : Line} (h : line ∈ place offset lines) :
    line.span.length = line.text.length := by
  fun_induction place offset lines with
  | case1 => cases h
  | case2 offset text terminator lines ih =>
    obtain rfl | h := List.mem_cons.1 h
    · simp only [Span.between]
      omega
    · exact ih h

theorem lt_of_mem {line : Line} (h : line ∈ all t) (hne : line.text ≠ []) :
    line.span.start < line.span.stop := by
  have hlength := length_span_of_mem_place h
  have hpos := List.length_pos_iff.2 hne
  rw [Span.stop]
  omega

end Line

namespace Segment

def OpenBlock.span (block : OpenBlock) : Span := ⟨block.start, block.stop - block.start⟩

theorem OpenBlock.span_open (fence : Fence) (s : Span) :
    (⟨fence, s.start, s.stop, []⟩ : OpenBlock).span = s :=
  mk_stop_sub s

theorem row_ofLines {block? : Option OpenBlock} {lines : List Line}
    (h : Row lo hi (block?.toList.map (·.span) ++ lines.map (·.span))) :
    Row lo hi ((ofLines block? lines).map (·.span)) := by
  fun_induction ofLines block? lines generalizing lo with
  | case1 => exact h
  | case2 block => exact h
  | case3 line lines hplain ih =>
    exact Row.cons_of_tail h ih
  | case4 line lines fence hopen ih =>
    apply ih
    rwa [Option.toList_some, List.map_singleton, OpenBlock.span_open]
  | case5 block line lines content hclosed =>
    rename_i ih
    exact Row.cons_of_tail (Row.merge h) ih
  | case6 block line lines content hclosed code =>
    rename_i ih
    exact ih (Row.merge h)

theorem row_all (t : Text) : Row 0 t.length ((all t).map (·.span)) :=
  row_ofLines (Line.row_all t)

theorem ne_nil_of_open? {text : Text} {fence : Fence} (h : Fence.open? text = some fence) :
    text ≠ [] := by
  rintro rfl
  cases h

theorem lt_of_mem_ofLines {block? : Option OpenBlock} {lines : List Line}
    (hrow : Row lo hi (block?.toList.map (·.span) ++ lines.map (·.span)))
    (hblock : ∀ block ∈ block?, block.start < block.stop)
    (hlines : ∀ line ∈ lines, line.text ≠ [] → line.span.start < line.span.stop) :
    ∀ segment ∈ ofLines block? lines, segment.isBlankLine = false →
      segment.span.start < segment.span.stop := by
  fun_induction ofLines block? lines generalizing lo with
  | case1 => exact nofun
  | case2 block =>
    refine List.forall_mem_singleton.2 fun _ => ?_
    rw [OpenBlock.close, span, stop_mk_sub]
    exact hblock block rfl
  | case3 line lines hplain ih =>
    obtain ⟨hline, hlines⟩ := List.forall_mem_cons.1 hlines
    refine List.forall_mem_cons.2 ⟨?_, ih (Row.tail hrow) nofun hlines⟩
    intro hblank
    apply hline
    rintro hnil
    rw [isBlankLine, hnil] at hblank
    cases hblank
  | case4 line lines fence hopen ih =>
    obtain ⟨hline, hlines⟩ := List.forall_mem_cons.1 hlines
    refine @ih lo ?_ ?_ hlines
    · rwa [Option.toList_some, List.map_singleton, OpenBlock.span_open]
    · rintro _ ⟨⟩
      exact hline (ne_nil_of_open? hopen)
  | case5 block line lines content hclosed =>
    rename_i ih
    refine List.forall_mem_cons.2 ⟨?_, ih (Row.tail (Row.merge hrow)) nofun
      (List.forall_mem_cons.1 hlines).2⟩
    have hlt : block.span.start < line.span.stop := Row.start_lt_stop hrow
    rw [OpenBlock.close, span, stop_mk_sub]
    exact fun _ => hlt
  | case6 block line lines content hclosed code =>
    rename_i ih
    have hlt : block.span.start < line.span.stop := Row.start_lt_stop hrow
    apply ih (Row.merge hrow) _ (List.forall_mem_cons.1 hlines).2
    rintro _ ⟨⟩
    exact hlt

theorem lt_of_mem {segment : Segment} (h : segment ∈ all t) (hblank : segment.isBlankLine = false) :
    segment.span.start < segment.span.stop :=
  @lt_of_mem_ofLines 0 t.length none (Line.all t) (Line.row_all t) nofun (fun _ => Line.lt_of_mem)
    segment h hblank

end Segment

namespace Paragraph

variable {pending : Option Paragraph} {segments : List Segment}

theorem row_ofSegments (h : Row lo hi (pending.toList.map (·.span) ++ segments.map (·.span))) :
    Row lo hi ((ofSegments pending segments).map (·.span)) := by
  fun_induction ofSegments pending segments generalizing lo with
  | case1 pending => simpa using h
  | case2 pending code language span segments ih =>
    cases pending with
    | none => exact Row.cons_of_tail h ih
    | some p => exact Row.cons_of_tail h fun h => Row.cons_of_tail h ih
  | case3 pending text span segments hblank ih =>
    cases pending with
    | none => exact ih (Row.tail h)
    | some p => exact Row.cons_of_tail h fun h => ih (Row.tail h)
  | case4 pending text span segments hblank ih =>
    apply ih
    cases pending with
    | none => exact h
    | some p => exact Row.merge h

theorem row_all (t : Text) : Row 0 t.length ((all t).map (·.span)) :=
  row_ofSegments (Segment.row_all t)

theorem pairwise_start (t : Text) : (all t).Pairwise (·.span.start < ·.span.start) := by
  have h := (row_all t).pairwise_start
  rwa [List.pairwise_map] at h

theorem lt_of_mem_ofSegments
    (hrow : Row lo hi (pending.toList.map (·.span) ++ segments.map (·.span)))
    (hpending : ∀ p ∈ pending, p.span.start < p.span.stop)
    (hsegments : ∀ segment ∈ segments, segment.isBlankLine = false →
      segment.span.start < segment.span.stop) :
    ∀ p ∈ ofSegments pending segments, p.span.start < p.span.stop := by
  fun_induction ofSegments pending segments generalizing lo with
  | case1 pending => simpa using hpending
  | case2 pending code language span segments ih =>
    obtain ⟨hsegment, hsegments⟩ := List.forall_mem_cons.1 hsegments
    have hrest : Row lo hi (segments.map (·.span)) :=
      Row.tail (hrow.sublist (List.sublist_append_right ..))
    refine List.forall_mem_append.2 ⟨fun p hp => hpending p (Option.mem_toList.1 hp), ?_⟩
    exact List.forall_mem_cons.2 ⟨hsegment rfl, ih hrest nofun hsegments⟩
  | case3 pending text span segments hblank ih =>
    obtain ⟨-, hsegments⟩ := List.forall_mem_cons.1 hsegments
    have hrest : Row lo hi (segments.map (·.span)) :=
      Row.tail (hrow.sublist (List.sublist_append_right ..))
    refine List.forall_mem_append.2 ⟨fun p hp => hpending p (Option.mem_toList.1 hp), ?_⟩
    exact ih hrest nofun hsegments
  | case4 pending text span segments hblank ih =>
    obtain ⟨hsegment, hsegments⟩ := List.forall_mem_cons.1 hsegments
    cases pending with
    | none =>
      refine ih hrow ?_ hsegments
      rintro _ ⟨⟩
      exact hsegment (Bool.eq_false_iff.2 hblank)
    | some p =>
      have hlt : p.span.start < span.stop := Row.start_lt_stop hrow
      refine ih (Row.merge hrow) ?_ hsegments
      rintro _ ⟨⟩
      rwa [extend, stop_mk_sub]

theorem proper_of_mem {p : Paragraph} (h : p ∈ all t) : p.span.Proper t.length := by
  obtain ⟨hstart, -, hstop⟩ := (row_all t).inside p.span (List.mem_map_of_mem h)
  have hlt := @lt_of_mem_ofSegments 0 t.length none (Segment.all t) (Segment.row_all t) nofun
    (fun _ => Segment.lt_of_mem) p h
  exact ⟨hstart, hlt, hstop⟩

end Paragraph

namespace Section

theorem proper_of_mem_ofHeadings {size : Nat} {lines : List Line} (hlo : 0 ≤ lo)
    (hrow : Row lo size (lines.map (·.span)))
    (hlines : ∀ line ∈ lines, line.span.start < line.span.stop) :
    ∀ s ∈ ofHeadings size lines, s.span.Proper size := by
  induction lines generalizing lo with
  | nil => exact nofun
  | cons line lines ih =>
    obtain ⟨hline, hlines⟩ := List.forall_mem_cons.1 hlines
    obtain ⟨hstart, -, hstop, hrest⟩ := Row.cons_iff.1 hrow
    dsimp only at hstart hstop hrest
    refine List.forall_mem_cons.2 ⟨?_, ih (by omega) hrest hlines⟩
    cases lines with
    | nil =>
      have h : (⟨line.span.start, size - line.span.start⟩ : Span).Proper size :=
        .of_ends (by omega) (by omega) (Int.le_refl _)
      exact h
    | cons next lines =>
      obtain ⟨hnext, hle, hstop', -⟩ := Row.cons_iff.1 hrest
      dsimp only at hnext hle hstop'
      have h : (⟨line.span.start, next.span.start - line.span.start⟩ : Span).Proper size :=
        .of_ends (by omega) (by omega) (by omega)
      exact h

theorem row_headings (t : Text) : Row 0 t.length (((Line.all t).filter isHeading).map (·.span)) :=
  (Line.row_all t).sublist (List.filter_sublist.map _)

theorem lt_of_mem_headings : ∀ line ∈ (Line.all t).filter isHeading,
    line.span.start < line.span.stop := by
  intro line hline
  obtain ⟨hmem, hheading⟩ := List.mem_filter.1 hline
  apply Line.lt_of_mem hmem
  rintro hnil
  rw [isHeading, hnil] at hheading
  cases hheading

theorem map_start_ofHeadings (size : Int) (lines : List Line) :
    (ofHeadings size lines).map (·.span.start) = lines.map (·.span.start) := by
  induction lines with
  | nil => rfl
  | cons line lines ih => exact congrArg (line.span.start :: ·) ih

theorem pairwise_start (t : Text) : (all t).Pairwise (·.span.start < ·.span.start) := by
  have h := (row_headings t).pairwise_start
  rw [List.pairwise_map] at h
  rwa [← List.pairwise_map, all, map_start_ofHeadings, List.pairwise_map]

theorem proper_of_mem {s : Section} (h : s ∈ all t) : s.span.Proper t.length :=
  proper_of_mem_ofHeadings (Int.le_refl 0) (row_headings t) lt_of_mem_headings s h

end Section

namespace Word

variable {pending : Text} {offset : Nat}

theorem row_close (h : pending.length ≤ offset) :
    Row (offset - pending.length) offset ((scan.close offset pending).map (·.span)) ∧
      ∀ word ∈ scan.close offset pending, word.span.start < word.span.stop := by
  cases pending with
  | nil => exact ⟨.nil .., nofun⟩
  | cons c pending =>
    rw [List.length_cons] at h ⊢
    have hstart : (Span.between (offset - (pending.length + 1)) offset).start =
        offset - (pending.length + 1 : Nat) := by
      simp only [Span.between]
      omega
    refine ⟨Row.cons_iff.2 ⟨?_, ?_, ?_, .nil ..⟩, List.forall_mem_singleton.2 ?_⟩
    all_goals simp only [List.length_cons, stop_between, hstart]; omega

theorem row_scan (h : pending.length ≤ offset) :
    Row (offset - pending.length) (offset + t.length) ((scan offset pending t).map (·.span)) ∧
      ∀ word ∈ scan offset pending t, word.span.start < word.span.stop := by
  fun_induction scan offset pending t with
  | case1 offset pending =>
    rw [List.length_nil, Int.natCast_zero, Int.add_zero]
    exact row_close h
  | case2 offset pending c rest hword ih =>
    rw [List.length_cons] at ih ⊢
    obtain ⟨hrow, hlt⟩ := ih (by omega)
    exact ⟨hrow.mono (by omega) (by omega), hlt⟩
  | case3 offset pending c rest hword ih =>
    obtain ⟨hrow, hlt⟩ := row_close h
    obtain ⟨hrow', hlt'⟩ := ih (Nat.zero_le _)
    rw [List.length_nil] at hrow'
    rw [List.map_append, List.length_cons]
    refine ⟨hrow.append (hrow'.mono ?_ ?_) ?_ ?_, List.forall_mem_append.2 ⟨hlt, hlt'⟩⟩
    all_goals omega

theorem row_all (t : Text) : Row 0 t.length ((all t).map (·.span)) := by
  have h := (@row_scan t [] 0 (Nat.zero_le 0)).1
  simpa [all] using h

theorem lt_of_mem {word : Word} (h : word ∈ all t) : word.span.start < word.span.stop :=
  (@row_scan t [] 0 (Nat.zero_le 0)).2 word h

theorem proper_getElem {i : Nat} (hi : i < (all t).length) :
    (all t)[i].span.Proper t.length := by
  have hmem := List.getElem_mem hi
  obtain ⟨hstart, -, hstop⟩ := (row_all t).inside _ (List.mem_map_of_mem hmem)
  exact ⟨hstart, lt_of_mem hmem, hstop⟩

theorem stop_lt_start {i j : Nat} (hij : i < j) (hj : j < (all t).length) :
    (all t)[i].span.stop < (all t)[j].span.start := by
  have h := (row_all t).stop_lt_start hij (by simpa using Nat.lt_trans hij hj) (by simpa using hj)
  simpa using h

theorem start_lt_stop {i j : Nat} (hij : i ≤ j) (hj : j < (all t).length) :
    (all t)[i].span.start < (all t)[j].span.stop := by
  obtain rfl | hlt := Nat.eq_or_lt_of_le hij
  · exact (proper_getElem hj).lt
  · have hbehind := stop_lt_start hlt hj
    have hi := (proper_getElem (t := t) (i := i) (by omega)).lt
    have hj := (proper_getElem hj).lt
    omega

end Word

end GrammarCheck
