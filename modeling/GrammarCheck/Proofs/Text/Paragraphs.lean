import GrammarCheck.Proofs.Text.Fences
import GrammarCheck.Proofs.Text.LineSlices
import Mathlib.Data.List.SplitBy

namespace GrammarCheck

open GrammarCheck.Span

section Related

variable {α β : Type} {R : α → β → Prop} {xs : List α} {ys ys' : List β}

theorem exists_mem_of_forall₂ (h : List.Forall₂ R xs ys) : ∀ x ∈ xs, ∃ y ∈ ys, R x y := by
  induction h with
  | nil => exact nofun
  | @cons x y xs ys hxy _ ih =>
    refine List.forall_mem_cons.2 ⟨⟨y, List.mem_cons_self, hxy⟩, fun z hz => ?_⟩
    obtain ⟨w, hw, hzw⟩ := ih z hz
    exact ⟨w, List.mem_cons_of_mem y hw, hzw⟩

theorem exists_append_of_forall₂ (h : List.Forall₂ R xs (ys ++ ys')) :
    ∃ zs zs', xs = zs ++ zs' ∧ List.Forall₂ R zs ys ∧ List.Forall₂ R zs' ys' :=
  ⟨xs.take ys.length, xs.drop ys.length, (List.take_append_drop ..).symm,
    List.forall₂_take_append xs ys ys' h, List.forall₂_drop_append xs ys ys' h⟩

end Related

def Line.toSegment (line : Line) : Segment := .plain line.text line.span

namespace Segment

variable {t : Text} {segment : Segment}
  {segments segments' run group before after : List Segment}

def isText : Segment → Bool
  | .plain text _ => !text.all isBlank
  | .code .. => false

def joins (segment next : Segment) : Bool := segment.isText && next.isText

def groups (segments : List Segment) : List (List Segment) :=
  (segments.splitBy joins).filter fun group => group.any fun segment => !segment.isBlankLine

theorem groups_append (h : ∀ x ∈ segments.getLast?, ∀ y ∈ segments'.head?, joins x y = false) :
    groups (segments ++ segments') = groups segments ++ groups segments' := by
  rw [groups, List.splitBy_append h, List.filter_append]
  rfl

theorem groups_append_cons (h : segment.isText = false) (run segments : List Segment) :
    groups (run ++ segment :: segments) = groups run ++ (groups [segment] ++ groups segments) := by
  rw [groups_append, ← List.singleton_append, groups_append]
  · simp [joins, h]
  · simp [joins, h]

theorem isBlankLine_of_isText (h : segment.isText) : segment.isBlankLine = false := by
  cases segment with
  | plain text span => simpa [isText, isBlankLine] using h
  | code code language span => rfl

theorem groups_of_isText (hne : run ≠ []) (h : ∀ segment ∈ run, segment.isText) :
    groups run = [run] := by
  have hchain : run.IsChain fun x y => joins x y :=
    (List.pairwise_of_forall_mem_list fun x hx y hy => by simp [joins, h x hx, h y hy]).isChain
  obtain ⟨segment, hsegment⟩ := List.exists_mem_of_ne_nil run hne
  rw [groups, List.splitBy_of_isChain hne hchain, List.filter_cons_of_pos, List.filter_nil]
  exact List.any_eq_true.2 ⟨segment, hsegment, by simp [isBlankLine_of_isText (h segment hsegment)]⟩

theorem isInfix_of_mem_groups (h : group ∈ groups segments) : group <:+: segments := by
  have hwithin := List.infix_of_mem_flatten (List.mem_of_mem_filter h)
  rwa [List.flatten_splitBy] at hwithin

theorem exists_mem_groups (h : segment ∈ segments) (hblank : segment.isBlankLine = false) :
    ∃ group ∈ groups segments, segment ∈ group := by
  rw [← List.flatten_splitBy joins segments] at h
  obtain ⟨group, hgroup, hsegment⟩ := List.mem_flatten.1 h
  refine ⟨group, List.mem_filter.2 ⟨hgroup, ?_⟩, hsegment⟩
  exact List.any_eq_true.2 ⟨segment, hsegment, by simp [hblank]⟩

theorem eq_singleton_of_folds {lines : List Line} {line : Line}
    (h : Folds lines line.toSegment ∨ FoldsOpen lines line.toSegment) : lines = [line] := by
  obtain ⟨text, span⟩ := line
  rw [Line.toSegment] at h
  obtain h | h := h
  · cases h
    rfl
  · cases h

theorem flatten_of_folds {groups : List (List Line)} {lines : List Line}
    (h : List.Forall₂ (fun group segment => Folds group segment ∨ FoldsOpen group segment)
      groups (lines.map Line.toSegment)) : groups.flatten = lines := by
  rw [List.forall₂_map_right_iff] at h
  induction h with
  | nil => rfl
  | cons hline _ ih => rw [eq_singleton_of_folds hline, List.flatten_cons, ih, List.singleton_append]

theorem exists_lines_append {lines : List Line}
    (h : all t = before ++ (lines.map Line.toSegment ++ after)) :
    ∃ linesBefore linesAfter, Line.all t = linesBefore ++ (lines ++ linesAfter) := by
  obtain ⟨groups, hflatten, hall, -⟩ := cover_all t
  rw [h] at hall
  obtain ⟨groupsBefore, groups, rfl, -, hall⟩ := exists_append_of_forall₂ hall
  obtain ⟨middle, groupsAfter, rfl, hlines, -⟩ := exists_append_of_forall₂ hall
  refine ⟨groupsBefore.flatten, groupsAfter.flatten, ?_⟩
  rw [← hflatten, List.flatten_append, List.flatten_append, flatten_of_folds hlines]

end Segment

namespace Paragraph

variable {t : Text} {p : Paragraph} {run : List Line} {group : List Segment} {lo hi : Int}

def ofRun (first : Line) (rest : List Line) : Paragraph :=
  ⟨(first :: rest).flatMap fun line => line.text ++ ['\r', '\n'],
    ⟨first.span.start, (rest.getLastD first).span.stop - first.span.start⟩⟩

/-- A block is a paragraph of its own; any other paragraph is a run of text. -/
inductive Gathers : List Segment → Paragraph → Prop
  | block (code language : Text) (span : Span) : Gathers [.code code language span] ⟨code, span⟩
  | run {first : Line} {rest : List Line}
      (areText : ∀ line ∈ first :: rest, line.toSegment.isText) :
    Gathers ((first :: rest).map Line.toSegment) (ofRun first rest)

inductive Pends : Option Paragraph → List Line → Prop
  | idle : Pends none []
  | going {first : Line} {rest : List Line}
      (areText : ∀ line ∈ first :: rest, line.toSegment.isText) :
    Pends (some (ofRun first rest)) (first :: rest)

theorem Pends.concat {pending : Option Paragraph} {line : Line} (h : Pends pending run)
    (hline : line.toSegment.isText) :
    Pends (some (extend line.text line.span pending)) (run ++ [line]) := by
  cases h with
  | idle =>
    have hrun : extend line.text line.span none = ofRun line [] := by
      simp [extend, ofRun, mk_stop_sub]
    rw [hrun]
    exact .going (List.forall_mem_singleton.2 hline)
  | @going first rest areText =>
    have hrun : extend line.text line.span (some (ofRun first rest)) =
        ofRun first (rest ++ [line]) := by
      simp [extend, ofRun]
    rw [hrun]
    refine .going ?_
    rw [← List.cons_append]
    exact List.forall_mem_append.2 ⟨areText, List.forall_mem_singleton.2 hline⟩

theorem Pends.gathers {pending : Option Paragraph} (h : Pends pending run) :
    List.Forall₂ Gathers (Segment.groups (run.map Line.toSegment)) pending.toList := by
  cases h with
  | idle => exact .nil
  | @going first rest areText =>
    have hne : (first :: rest).map Line.toSegment ≠ [] := List.cons_ne_nil _ _
    rw [Segment.groups_of_isText hne (List.forall_mem_map.2 areText)]
    exact .cons (.run areText) .nil

theorem gathers_ofSegments {pending : Option Paragraph} (h : Pends pending run)
    (segments : List Segment) :
    List.Forall₂ Gathers (Segment.groups (run.map Line.toSegment ++ segments))
      (ofSegments pending segments) := by
  fun_induction ofSegments pending segments generalizing run with
  | case1 pending =>
    rw [List.append_nil]
    exact h.gathers
  | case2 pending code language span segments ih =>
    rw [Segment.groups_append_cons rfl]
    exact List.rel_append h.gathers (.cons (.block code language span) (ih .idle))
  | case3 pending text span segments hblank ih =>
    rw [Segment.groups_append_cons (by simp [Segment.isText, hblank])]
    have hnone : Segment.groups [.plain text span] = [] := by
      simp [Segment.groups, Segment.isBlankLine, hblank, List.splitBy, List.splitBy.loop]
    rw [hnone]
    exact List.rel_append h.gathers (ih .idle)
  | case4 pending text span segments hblank ih =>
    have hline : (Line.toSegment ⟨text, span⟩).isText := by
      simpa [Line.toSegment, Segment.isText] using hblank
    have hgathers := ih (h.concat hline)
    rwa [List.map_append, List.append_assoc] at hgathers

theorem gathers_all (t : Text) : List.Forall₂ Gathers (Segment.groups (Segment.all t)) (all t) :=
  gathers_ofSegments .idle (Segment.all t)

namespace Gathers

theorem isBlankLine (h : Gathers group p) : ∀ segment ∈ group, segment.isBlankLine = false := by
  cases h with
  | block code language span => exact List.forall_mem_singleton.2 rfl
  | run areText =>
    exact List.forall_mem_map.2 fun line hline => Segment.isBlankLine_of_isText (areText line hline)

theorem exists_ends (h : Gathers group p) :
    (∃ segment ∈ group, segment.span.start = p.span.start) ∧
      ∃ segment ∈ group, segment.span.stop = p.span.stop := by
  cases h with
  | block code language span =>
    exact ⟨⟨_, List.mem_singleton_self _, rfl⟩, _, List.mem_singleton_self _, rfl⟩
  | @run first rest areText =>
    refine ⟨⟨_, List.mem_map_of_mem List.mem_cons_self, rfl⟩, ?_⟩
    refine ⟨_, List.mem_map_of_mem List.getLastD_mem_cons, ?_⟩
    rw [ofRun, stop_mk_sub]
    rfl

theorem covers (h : Gathers group p) (hrow : Row lo hi (group.map (·.span))) :
    ∀ segment ∈ group, p.span.Covers segment.span := by
  cases h with
  | block code language span => exact List.forall_mem_singleton.2 (Covers.refl span)
  | @run first rest areText =>
    have hlines : Row lo hi ((first :: rest).map (·.span)) := by
      rwa [List.map_map] at hrow
    refine List.forall_mem_map.2 fun line hline => ?_
    have hcovers := hlines.covers line.span (List.mem_map_of_mem hline)
    rwa [List.getLastD_map] at hcovers

theorem words_eq (h : Gathers group p) (htext : group.all (·.isText))
    (hwithin : group <:+: Segment.all t) : p.text.words = Text.words (p.span.slice t) := by
  cases h with
  | block code language span => cases htext
  | @run first rest areText =>
    obtain ⟨before, after, hall⟩ := hwithin
    rw [List.append_assoc] at hall
    obtain ⟨linesBefore, linesAfter, hlines⟩ := Segment.exists_lines_append hall.symm
    rw [ofRun, Line.words_slice hlines, Line.words_flatMap_append (by simp) (by simp [isLineEnd])]

end Gathers

theorem exists_gathers (h : p ∈ all t) :
    ∃ group before after, Gathers group p ∧ Segment.all t = before ++ (group ++ after) := by
  obtain ⟨group, hgroup, hgathers⟩ := exists_mem_of_forall₂ (gathers_all t).flip p h
  obtain ⟨before, after, hall⟩ := Segment.isInfix_of_mem_groups hgroup
  rw [List.append_assoc] at hall
  exact ⟨group, before, after, hgathers, hall.symm⟩

theorem apart_of_isBlankLine {segment : Segment} (hsegment : segment ∈ Segment.all t)
    (hblank : segment.isBlankLine) (hp : p ∈ all t) :
    segment.span.stop < p.span.start ∨ p.span.stop < segment.span.start := by
  obtain ⟨group, before, after, hgathers, hall⟩ := exists_gathers hp
  obtain ⟨⟨first, hfirst, hstart⟩, last, hlast, hstop⟩ := hgathers.exists_ends
  have hordered := List.pairwise_map.1 (Segment.row_all t).ordered
  rw [hall] at hordered hsegment
  obtain ⟨-, hordered, hbefore⟩ := List.pairwise_append.1 hordered
  obtain ⟨-, -, hafter⟩ := List.pairwise_append.1 hordered
  obtain hsegment | hsegment := List.mem_append.1 hsegment
  · left
    rw [← hstart]
    exact hbefore segment hsegment first (List.mem_append_left after hfirst)
  · obtain hsegment | hsegment := List.mem_append.1 hsegment
    · rw [hgathers.isBlankLine segment hsegment] at hblank
      cases hblank
    · right
      rw [← hstop]
      exact hafter last hlast segment hsegment

theorem pairwise_all (t : Text) : (all t).Pairwise (·.span.stop < ·.span.start) :=
  List.pairwise_map.1 (row_all t).ordered

theorem eq_of_covers {q : Paragraph} {s : Span} (hs : s.start ≤ s.stop) (hp : p ∈ all t)
    (hps : p.span.Covers s) (hq : q ∈ all t) (hqs : q.span.Covers s) : p = q := by
  obtain ⟨i, hi, rfl⟩ := List.getElem_of_mem hp
  obtain ⟨j, hj, rfl⟩ := List.getElem_of_mem hq
  have hordered := List.pairwise_iff_getElem.1 (pairwise_all t)
  obtain ⟨hpstart, hpstop⟩ := hps
  obtain ⟨hqstart, hqstop⟩ := hqs
  obtain hlt | rfl | hlt := Nat.lt_trichotomy i j
  · have hapart := hordered i j hi hj hlt
    omega
  · rfl
  · have hapart := hordered j i hj hi hlt
    omega

theorem existsUnique_covers {segment : Segment} (hsegment : segment ∈ Segment.all t)
    (hblank : segment.isBlankLine = false) : ∃! p, p ∈ all t ∧ p.span.Covers segment.span := by
  obtain ⟨group, hgroup, hmem⟩ := Segment.exists_mem_groups hsegment hblank
  obtain ⟨p, hp, hgathers⟩ := exists_mem_of_forall₂ (gathers_all t) group hgroup
  have hrow : Row 0 t.length (group.map (·.span)) :=
    (Segment.row_all t).sublist ((Segment.isInfix_of_mem_groups hgroup).sublist.map _)
  have hcovers := hgathers.covers hrow segment hmem
  have hle := ((Segment.row_all t).inside segment.span (List.mem_map_of_mem hsegment)).2.1
  refine ⟨p, ⟨hp, hcovers⟩, ?_⟩
  rintro q ⟨hq, hqcovers⟩
  exact eq_of_covers hle hq hqcovers hp hcovers

/-- The paragraphs of a text are its blocks and its maximal runs of text, one behind the other. What
is not blank lies in one of them, and what is blank in none. -/
theorem all_gathers_segments (t : Text) :
    List.Forall₂ (fun group p => Gathers group p ∧
        (group.all (·.isText) → p.text.words = Text.words (p.span.slice t)))
      (Segment.groups (Segment.all t)) (all t) ∧
    (∀ p ∈ all t, p.span.Proper t.length) ∧
    (all t).Pairwise (·.span.stop < ·.span.start) ∧
    (∀ segment ∈ Segment.all t, segment.isBlankLine = false →
      ∃! p, p ∈ all t ∧ p.span.Covers segment.span) ∧
    ∀ segment ∈ Segment.all t, segment.isBlankLine → ∀ p ∈ all t,
      segment.span.stop < p.span.start ∨ p.span.stop < segment.span.start := by
  refine ⟨?_, fun p => proper_of_mem, pairwise_all t, fun _ => existsUnique_covers,
    fun _ hsegment hblank _ => apart_of_isBlankLine hsegment hblank⟩
  have hgroups : List.Forall₂ (fun group p => group <:+: Segment.all t ∧ Gathers group p)
      (Segment.groups (Segment.all t)) (all t) :=
    (List.forall₂_and_left _ _).2 ⟨fun _ => Segment.isInfix_of_mem_groups, gathers_all t⟩
  refine hgroups.imp ?_
  rintro group p ⟨hwithin, hgathers⟩
  exact ⟨hgathers, fun htext => hgathers.words_eq htext hwithin⟩

example : (all "a\n b\n \n~~~\nc".toList).map (·.span) = [⟨0, 4⟩, ⟨7, 5⟩] := by decide

end Paragraph

end GrammarCheck
