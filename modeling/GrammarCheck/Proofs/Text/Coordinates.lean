import GrammarCheck.Proofs.Text.LineStarts
import GrammarCheck.Proofs.Text.Units

namespace GrammarCheck

variable {t : Text} {offset offset' : Int} {place place' : Int × Int}

def Text.IsAt (t : Text) (offset : Int) (place : Int × Int) : Prop :=
  ∃ before line after, Line.all t = before ++ line :: after ∧
    place = ((before.length : Int) + 1, offset - line.span.start + 1) ∧
    line.span.start ≤ offset ∧ ∀ next ∈ after, offset < next.span.start

namespace Line

theorem pairwise_start (t : Text) : (all t).Pairwise (·.span.start < ·.span.start) := by
  have h := (row_all t).pairwise_start
  rwa [List.pairwise_map] at h

theorem exists_all (ht : t ≠ []) : ∃ first rest, all t = first :: rest ∧ first.span.start = 0 := by
  obtain ⟨rest, hstarts⟩ := exists_startsFrom ht 0
  obtain ⟨first, lines, hall, hfirst, -⟩ := List.map_eq_cons_iff.1 hstarts
  exact ⟨first, lines, hall, hfirst⟩

theorem lt_of_mem_dropWhile {lines : List Line}
    (h : lines.Pairwise (·.span.start < ·.span.start)) (offset : Int) :
    ∀ line ∈ lines.dropWhile (·.span.start ≤ offset), offset < line.span.start := by
  induction lines with
  | nil => exact nofun
  | cons line lines ih =>
    obtain ⟨hline, hlines⟩ := List.pairwise_cons.1 h
    rw [List.dropWhile_cons]
    split
    · exact ih hlines
    · rename_i hlt
      have hlt : offset < line.span.start := by simpa using hlt
      exact List.forall_mem_cons.2 ⟨hlt, fun next hnext => Int.lt_trans hlt (hline next hnext)⟩

theorem coordinates_cons (first : Line) (rest : List Line) (offset : Int) :
    coordinates ((first :: rest).map (·.span.start)) offset =
      let passed := rest.takeWhile (·.span.start ≤ offset)
      ((passed.length : Int) + 1, offset - (passed.getLastD first).span.start + 1) := by
  have hpassed : (rest.map (·.span.start)).takeWhile (· ≤ offset) =
      (rest.takeWhile (·.span.start ≤ offset)).map (·.span.start) :=
    List.takeWhile_map ..
  rw [List.map_cons, coordinates, hpassed]
  dsimp only
  rw [List.length_map, List.getLastD_map]

end Line

namespace Text

theorem isAt_lineCol (ht : t ≠ []) (h : 0 ≤ offset) : t.IsAt offset (t.lineCol offset) := by
  obtain ⟨first, rest, hall, hfirst⟩ := Line.exists_all ht
  have hpairwise := Line.pairwise_start t
  rw [hall] at hpairwise
  have hafter := Line.lt_of_mem_dropWhile (List.pairwise_cons.1 hpairwise).2 offset
  have hrest := (List.takeWhile_append_dropWhile (p := (·.span.start ≤ offset)) (l := rest)).symm
  rw [lineCol, Line.starts, hall, Line.coordinates_cons]
  obtain hpassed | ⟨passed, line, hpassed⟩ :=
    List.eq_nil_or_concat (rest.takeWhile (·.span.start ≤ offset))
  · rw [hpassed, List.nil_append] at hrest
    rw [hpassed]
    refine ⟨[], first, rest, hall, rfl, by omega, ?_⟩
    rwa [← hrest] at hafter
  · have hline := List.all_takeWhile (p := (·.span.start ≤ offset)) (l := rest)
    rw [List.concat_eq_append] at hpassed
    rw [hpassed, List.all_append, Bool.and_eq_true] at hline
    rw [hpassed] at hrest ⊢
    refine ⟨first :: passed, line, rest.dropWhile (·.span.start ≤ offset), ?_, ?_, ?_, hafter⟩
    · rw [hall, List.cons_append, List.cons_inj_right]
      rwa [List.append_assoc] at hrest
    · simp
    · simpa using hline.2

theorem IsAt.line_lt_or (h : t.IsAt offset place) (h' : t.IsAt offset' place')
    (hle : offset ≤ offset') :
    place.1 < place'.1 ∨ place.1 = place'.1 ∧ place'.2 - place.2 = offset' - offset := by
  obtain ⟨before, line, after, hall, rfl, hstart, hnext⟩ := h
  obtain ⟨before', line', after', hall', rfl, hstart', hnext'⟩ := h'
  rw [hall, List.append_eq_append_iff] at hall'
  obtain ⟨between, rfl, hlines⟩ | ⟨between, rfl, hlines⟩ := hall'
  · cases between with
    | nil =>
      obtain ⟨rfl, -⟩ := List.cons.inj hlines
      refine .inr ⟨by rw [List.append_nil], ?_⟩
      dsimp only
      omega
    | cons next between =>
      left
      rw [List.length_append, List.length_cons]
      dsimp only
      omega
  · cases between with
    | nil =>
      obtain ⟨rfl, -⟩ := List.cons.inj hlines
      refine .inr ⟨by rw [List.append_nil], ?_⟩
      dsimp only
      omega
    | cons next between =>
      obtain ⟨-, rfl⟩ := List.cons.inj hlines
      have hlt := hnext' line (List.mem_append_right between List.mem_cons_self)
      omega

theorem IsAt.le_of_le (h : t.IsAt offset place) (h' : t.IsAt offset' place')
    (hle : offset ≤ offset') :
    place.1 < place'.1 ∨ place.1 = place'.1 ∧ place.2 ≤ place'.2 :=
  (h.line_lt_or h' hle).imp_right fun ⟨hline, hcolumn⟩ => ⟨hline, by omega⟩

theorem IsAt.lt_of_lt (h : t.IsAt offset place) (h' : t.IsAt offset' place')
    (hlt : offset < offset') :
    place.1 < place'.1 ∨ place.1 = place'.1 ∧ place.2 < place'.2 :=
  (h.line_lt_or h' (Int.le_of_lt hlt)).imp_right fun ⟨hline, hcolumn⟩ => ⟨hline, by omega⟩

theorem IsAt.line_bounds (h : t.IsAt offset place) :
    1 ≤ place.1 ∧ place.1 ≤ (Line.all t).length ∧ 1 ≤ place.2 := by
  obtain ⟨before, line, after, hall, rfl, hstart, -⟩ := h
  rw [hall, List.length_append, List.length_cons]
  refine ⟨?_, ?_, ?_⟩
  all_goals dsimp only; omega

end Text

end GrammarCheck
