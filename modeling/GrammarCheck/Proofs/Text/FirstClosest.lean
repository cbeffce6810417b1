import GrammarCheck.Proofs.EditDistance.Distance
import GrammarCheck.Proofs.Text.Lookup
import GrammarCheck.Proofs.Text.Paragraphs
import GrammarCheck.Proofs.Text.Sections

namespace GrammarCheck

open EditDistance

section EarliestLeast

variable {α : Type} {start : α → Int} {cost : α → Nat} {xs : List α} {x : α}

/-- The candidate that starts first of those that cost the least. -/
structure IsEarliestLeast (start : α → Int) (cost : α → Nat) (xs : List α) (x : α) : Prop where
  mem : x ∈ xs
  least : ∀ y ∈ xs, cost x ≤ cost y
  earliest : ∀ y ∈ xs, cost y = cost x → start x ≤ start y

theorem firstLeast_eq_some_iff_isEarliestLeast (hstart : xs.Pairwise (start · < start ·)) :
    firstLeast cost xs = some x ↔ IsEarliestLeast start cost xs x := by
  constructor
  · intro h
    have hx := mem_of_firstLeast h
    refine ⟨hx, fun y => le_of_firstLeast h, fun y hy heq => ?_⟩
    by_contra! hlt
    exact Nat.ne_of_lt (((firstLeast_eq_some_iff hstart hx).1 h y hy).1 hlt) heq.symm
  · rintro ⟨hx, hleast, hearliest⟩
    refine (firstLeast_eq_some_iff hstart hx).2 fun y hy => ⟨fun hlt => ?_, fun _ => hleast y hy⟩
    refine Nat.lt_of_le_of_ne (hleast y hy) fun heq => ?_
    exact Int.not_le.2 hlt (hearliest y hy heq.symm)

end EarliestLeast

namespace Section

variable {t : Text} {level : Int} {line : Line} {s : Section}

/-- A line that starts with so many number signs, at least one, and no more. -/
def HasLevel (level : Int) (text : Text) : Prop :=
  1 ≤ level ∧ ∃ rest, text = List.replicate level.toNat '#' ++ rest ∧ rest.head? ≠ some '#'

theorem HasLevel.isHeading (h : HasLevel level line.text) : isHeading line := by
  obtain ⟨hlevel, rest, htext, -⟩ := h
  obtain ⟨n, hn⟩ : ∃ n, level.toNat = n + 1 := ⟨level.toNat - 1, by omega⟩
  rw [Section.isHeading, htext, hn]
  rfl

theorem Opens.hasLevel_iff (h : Opens t line s) (hline : isHeading line) :
    HasLevel level line.text ↔ (s.level : Int) = level := by
  obtain ⟨rest, htext, hhashes, hrest, -⟩ := h.heading
  have hreplicate : s.hashes = List.replicate s.level '#' := List.eq_replicate_of_mem hhashes
  rw [hreplicate] at htext
  constructor
  · rintro ⟨hlevel, rest', htext', hrest'⟩
    have htake := congrArg (List.takeWhile (· == '#')) (htext.symm.trans htext')
    rw [takeWhile_replicate_append hrest, takeWhile_replicate_append hrest'] at htake
    have hlength := congrArg List.length htake
    rw [List.length_replicate, List.length_replicate] at hlength
    omega
  · rintro rfl
    refine ⟨?_, rest, htext, hrest⟩
    have hpos : s.level ≠ 0 := by
      intro hzero
      rw [hzero] at htext
      rw [Section.isHeading, beq_iff_eq, htext] at hline
      exact hrest hline
    omega

theorem exists_level_iff (t : Text) (level : Int) :
    (∃ s ∈ all t, (s.level : Int) = level) ↔ ∃ line ∈ Line.all t, HasLevel level line.text := by
  have hopens : List.Forall₂ (Opens t) ((Line.all t).filter isHeading) (all t) :=
    opens_ofHeadings (List.nil_append _).symm
  constructor
  · rintro ⟨s, hs, hlevel⟩
    obtain ⟨line, hline, h⟩ := exists_mem_of_forall₂ hopens.flip s hs
    obtain ⟨hline, hheading⟩ := List.mem_filter.1 hline
    exact ⟨line, hline, (h.hasLevel_iff hheading).2 hlevel⟩
  · rintro ⟨line, hline, hlevel⟩
    have hmem := List.mem_filter.2 ⟨hline, hlevel.isHeading⟩
    obtain ⟨s, hs, h⟩ := exists_mem_of_forall₂ hopens line hmem
    exact ⟨s, hs, (h.hasLevel_iff hlevel.isHeading).1 hlevel⟩

end Section

theorem Fence.Opens.not_blank {fence : Fence} {line info : Text} (h : fence.Opens line info) :
    ¬line.all isBlank := by
  intro hblank
  have hmem : fence.mark ∈ line := by
    rw [h.line_eq]
    simp [h.size_pos.ne']
  have hmark := List.all_eq_true.1 hblank fence.mark hmem
  rcases h.isMark with heq | heq <;> rw [heq] at hmark <;> cases hmark

namespace Segment

variable {group : List Line} {segment : Segment} {segments : List Segment}
  {groups : List (List Line)}

theorem isBlankLine_iff (h : Folds group segment ∨ FoldsOpen group segment) :
    segment.isBlankLine ↔ ∀ line ∈ group, line.text.all isBlank := by
  have hblock : ∀ {fence : Fence} {opening : Line} {inside lines : List Line},
      fence.Holds opening inside →
        (false = true ↔ ∀ line ∈ opening :: lines, line.text.all isBlank) := by
    intro fence opening inside lines holds
    obtain ⟨info, hopens⟩ := holds.opens
    refine ⟨nofun, fun hblank => absurd ?_ hopens.not_blank⟩
    exact hblank opening List.mem_cons_self
  obtain h | h := h
  · cases h with
    | plain => simp [isBlankLine]
    | block holds => exact hblock holds
  · cases h with
    | block holds => exact hblock holds

theorem forall_isBlankLine_iff
    (h : List.Forall₂ (fun group segment => Folds group segment ∨ FoldsOpen group segment)
      groups segments) :
    (∀ segment ∈ segments, segment.isBlankLine) ↔
      ∀ line ∈ groups.flatten, line.text.all isBlank := by
  induction h with
  | nil => simp
  | cons hgroup _ ih =>
    rw [List.forall_mem_cons, List.flatten_cons, List.forall_mem_append, isBlankLine_iff hgroup, ih]

end Segment

namespace Paragraph

theorem all_eq_nil_iff (t : Text) : all t = [] ↔ ∀ line ∈ Line.all t, line.text.all isBlank := by
  obtain ⟨groups, hflatten, hfolds, -⟩ := Segment.cover_all t
  rw [← hflatten, ← Segment.forall_isBlankLine_iff hfolds, List.eq_nil_iff_forall_not_mem]
  constructor
  · intro hnone segment hsegment
    by_contra hblank
    obtain ⟨p, ⟨hp, -⟩, -⟩ := existsUnique_covers hsegment (by simpa using hblank)
    exact hnone p hp
  · intro hblank p hp
    obtain ⟨group, before, after, hgathers, hall⟩ := exists_gathers hp
    obtain ⟨⟨segment, hsegment, -⟩, -⟩ := hgathers.exists_ends
    have hmem : segment ∈ Segment.all t := by simp [hall, hsegment]
    have hsome := hblank segment hmem
    rw [hgathers.isBlankLine segment hsegment] at hsome
    cases hsome

end Paragraph

namespace Text

variable {t : Text}

theorem findSection_eq_none_iff {level : Int} {title : Text} :
    t.findSection level title = none ↔ ∀ line ∈ Line.all t, ¬Section.HasLevel level line.text := by
  have hexists := not_congr (Section.exists_level_iff t level)
  rw [findSection, Option.map_eq_none_iff, firstLeast_eq_none_iff, List.filter_eq_nil_iff]
  simpa using hexists

theorem findSection_eq_some_iff {level : Int} {title : Text} {s : Span} :
    t.findSection level title = some s ↔ ∃ found, found.span = s ∧
      IsEarliestLeast (·.span.start) (fun candidate => editDistance candidate.title title)
        ((Section.all t).filter fun candidate => (candidate.level : Int) = level) found := by
  have hordered := (Section.pairwise_start t).filter fun candidate => (candidate.level : Int) = level
  simp only [findSection, Option.map_eq_some_iff, distance_eq]
  refine exists_congr fun found => ?_
  rw [and_comm, ← firstLeast_eq_some_iff_isEarliestLeast hordered]
  rfl

theorem findParagraph_eq_none_iff {target : List Text} :
    t.findParagraph target = none ↔ ∀ line ∈ Line.all t, line.text.all isBlank := by
  rw [findParagraph, Option.map_eq_none_iff, firstLeast_eq_none_iff, Paragraph.all_eq_nil_iff]

theorem findParagraph_eq_some_iff_isEarliestLeast {target : List Text} {s : Span} :
    t.findParagraph target = some s ↔ ∃ found, found.span = s ∧
      IsEarliestLeast (·.span.start) (fun p => editDistance p.text.words target)
        (Paragraph.all t) found := by
  simp only [findParagraph, Option.map_eq_some_iff, distance_eq]
  refine exists_congr fun found => ?_
  rw [and_comm, ← firstLeast_eq_some_iff_isEarliestLeast (Paragraph.pairwise_start t)]

/-- A section is found if some line has its level, and a paragraph if some line is not blank. Of all
sections of that level, by the characters of their titles, and of all paragraphs, by their words, what
is found is the earliest of the closest. -/
theorem find_earliest_closest (t : Text) :
    (∀ (level : Int) (title : Text),
      (t.findSection level title = none ↔
        ∀ line ∈ Line.all t, ¬Section.HasLevel level line.text) ∧
      ∀ s, t.findSection level title = some s ↔ ∃ found, found.span = s ∧
        IsEarliestLeast (·.span.start) (fun candidate => editDistance candidate.title title)
          ((Section.all t).filter fun candidate => (candidate.level : Int) = level) found) ∧
    ∀ target : List Text,
      (t.findParagraph target = none ↔ ∀ line ∈ Line.all t, line.text.all isBlank) ∧
      ∀ s, t.findParagraph target = some s ↔ ∃ found, found.span = s ∧
        IsEarliestLeast (·.span.start) (fun p => editDistance p.text.words target)
          (Paragraph.all t) found := by
  refine ⟨fun level title => ⟨?_, fun s => ?_⟩, fun target => ⟨?_, fun s => ?_⟩⟩
  · exact findSection_eq_none_iff
  · exact findSection_eq_some_iff
  · exact findParagraph_eq_none_iff
  · exact findParagraph_eq_some_iff_isEarliestLeast

/-- Of two titles at one distance the first is found. -/
example : findSection "# ax\n## a\n# ay\n".toList 1 ['a'] = some ⟨0, 5⟩ := by decide +kernel

end Text

end GrammarCheck
