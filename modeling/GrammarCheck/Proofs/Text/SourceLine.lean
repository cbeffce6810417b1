import GrammarCheck.Proofs.Text.Coordinates
import GrammarCheck.Proofs.Text.Pieces
import GrammarCheck.Proofs.Text.Terminators

namespace GrammarCheck

variable {c : Char} {t text terminator : Text} {lines : List (Text × Text)}

namespace Line

theorem unifyLineEnds_terminator (hnewline : IsNewline terminator)
    (hwhole : terminator = ['\r'] → t.head? ≠ some '\n') :
    (terminator ++ t).unifyLineEnds = '\n' :: t.unifyLineEnds := by
  obtain rfl | rfl | rfl := hnewline
  · exact Text.unifyLineEnds_return_feed t
  · exact Text.unifyLineEnds_return (hwhole rfl)
  · exact Text.unifyLineEnds_feed t

theorem not_mem_of_plain (hplain : ∀ c ∈ text, isLineEnd c = false) (hc : isLineEnd c) :
    c ∉ text := by
  intro hmem
  rw [hplain c hmem] at hc
  cases hc

theorem unifyLineEnds_append_plain (hplain : ∀ c ∈ text, isLineEnd c = false) (t : Text) :
    (text ++ t).unifyLineEnds = text ++ t.unifyLineEnds := by
  have hreturn : '\r' ∉ text := not_mem_of_plain hplain rfl
  rw [Text.unifyLineEnds_append (.inl fun hlast => hreturn (List.mem_of_getLast? hlast)),
    Text.unifyLineEnds_of_not_mem hreturn]

theorem IsCut.map_prefix_pieces (h : IsCut lines) :
    lines.map (·.1) <+: (unite lines).unifyLineEnds.pieces '\n' := by
  induction h with
  | nil => exact List.nil_prefix
  | @unended text hne hplain =>
    rw [unite_cons, unite_nil, List.append_nil, List.append_nil,
      Text.unifyLineEnds_of_not_mem (not_mem_of_plain hplain rfl),
      Text.pieces_of_not_mem (not_mem_of_plain hplain rfl)]
    exact List.prefix_refl _
  | cons hplain hnewline hwhole _ ih =>
    rw [unite_cons, unifyLineEnds_append_plain hplain, unifyLineEnds_terminator hnewline hwhole,
      Text.pieces_append (not_mem_of_plain hplain rfl)]
    exact List.cons_prefix_cons.2 ⟨rfl, ih⟩

theorem map_text_all_prefix (t : Text) :
    (all t).map (·.text) <+: t.unifyLineEnds.pieces '\n' := by
  have hlines := (isCut_cut t).map_prefix_pieces
  rw [unite_cut] at hlines
  rwa [all, map_text_place]

variable {before after : List Line} {line : Line}

theorem sourceLine_eq (h : all t = before ++ line :: after) :
    t.sourceLine (before.length + 1) = line.text := by
  obtain ⟨rest, hrest⟩ := map_text_all_prefix t
  rw [Text.sourceLine, if_pos (by omega), ← hrest, h]
  simp

theorem exists_text_eq (h : all t = before ++ line :: after) :
    ∃ first terminator rest, t = first ++ (line.text ++ (terminator ++ rest)) ∧
      line.span = Span.between first.length (first.length + line.text.length) ∧
      (∀ c ∈ line.text, isLineEnd c = false) ∧ (∀ c ∈ terminator, isLineEnd c) ∧
      (rest ≠ [] → ∃ next ∈ after,
        next.span.start = (first.length + line.text.length + terminator.length : Nat)) := by
  obtain ⟨linesBefore, more, hcut, -, hmore⟩ := exists_of_place_eq_append h
  cases more with
  | nil => cases hmore
  | cons cutLine linesAfter =>
    obtain ⟨rfl, rfl⟩ := List.cons.inj hmore
    have hline := (hcut ▸ isCut_cut t).right.plain cutLine List.mem_cons_self
    have hends := isLineEnd_of_mem_cut t cutLine (by simp [hcut])
    refine ⟨unite linesBefore, cutLine.2, unite linesAfter, ?_, by rw [Nat.zero_add], hline, hends,
      ?_⟩
    · rw [← unite_cons, ← unite_append, ← hcut, unite_cut]
    · intro hrest
      cases linesAfter with
      | nil => exact absurd rfl hrest
      | cons next linesAfter => exact ⟨_, List.mem_cons_self, by rw [Nat.zero_add]; rfl⟩

end Line

namespace Text

open Line

variable {k : Nat} {place : Int × Int}

/-- The line of a text that has a number holds the character at an offset, at an offset of its own. -/
structure IsSnippet (t : Text) (k : Nat) (c : Char) (number : Int) (snippet : Text) (j : Nat) :
    Prop where
  char : t[k]? = some c
  shown : snippet[j]? = some c
  line : ∃ (before after : List Line) (line : Line), all t = before ++ line :: after ∧
    snippet = line.text ∧ number = before.length + 1 ∧ line.span.start + j = k ∧ k < line.span.stop

theorem IsSnippet.not_mem {number : Int} {snippet : Text} {j : Nat}
    (h : t.IsSnippet k c number snippet j) : '\n' ∉ snippet := by
  obtain ⟨before, after, line, hall, rfl, -⟩ := h.line
  obtain ⟨_, _, _, -, -, hplain, -⟩ := exists_text_eq hall
  exact not_mem_of_plain hplain rfl

theorem IsAt.exists_isSnippet (h : t.IsAt k place) (hc : t[k]? = some c)
    (hplain : isLineEnd c = false) :
    ∃ j : Nat, place.2 = j + 1 ∧ t.IsSnippet k c place.1 (t.sourceLine place.1) j := by
  obtain ⟨before, line, after, hall, rfl, hstart, hnext⟩ := h
  obtain ⟨first, terminator, rest, ht, hspan, -, hends, hrest⟩ := exists_text_eq hall
  have hfirst : line.span.start = first.length := by rw [hspan]; rfl
  obtain ⟨j, rfl⟩ := Nat.exists_eq_add_of_le (Int.ofNat_le.1 (hfirst ▸ hstart))
  -- behind the terminator starts the next line, or the text ends
  have hinside : j < line.text.length + terminator.length := by
    by_cases hlast : rest = []
    · have hlt := (List.getElem?_eq_some_iff.1 hc).1
      rw [ht, hlast, List.append_nil, List.length_append, List.length_append] at hlt
      omega
    · obtain ⟨next, hmem, heq⟩ := hrest hlast
      have := hnext next hmem
      omega
  have hj : j < line.text.length := by
    by_contra hge
    rw [ht, List.getElem?_append_right (by omega), List.getElem?_append_right (by omega),
      List.getElem?_append_left (by omega)] at hc
    rw [hends c (List.mem_of_getElem? hc)] at hplain
    cases hplain
  have hchar : line.text[j]? = some c := by
    rw [ht, List.getElem?_append_right (by omega), Nat.add_sub_cancel_left,
      List.getElem?_append_left hj] at hc
    exact hc
  rw [sourceLine_eq hall]
  refine ⟨j, ?_, hc, hchar, before, after, line, hall, rfl, rfl, ?_, ?_⟩
  · dsimp only
    omega
  · omega
  · rw [hspan, Span.stop_between]
    omega

end Text

end GrammarCheck
