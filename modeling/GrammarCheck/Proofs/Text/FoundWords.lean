import GrammarCheck.Proofs.Text.Lookup
import GrammarCheck.Proofs.Text.Words
import Mathlib.Data.Set.Subsingleton

namespace GrammarCheck

open EditDistance

namespace Word

variable {t : Text} {s : Span} {first last : Nat}

/-- The range of some words that follow one another. It goes on to the next word, or to the end of the
last one. -/
structure Spans (t : Text) (first last : Nat) (s : Span) : Prop where
  start : ∃ word, (all t)[first]? = some word ∧ s.start = word.span.start
  stop : (∃ next, (all t)[last]? = some next ∧ s.stop = next.span.start) ∨
    last = (all t).length ∧ ∃ word, (all t).getLast? = some word ∧ s.stop = word.span.stop

namespace Spans

theorem all_take_stop (h : Spans t first last s) : all (t.take s.stop.toNat) = (all t).take last := by
  obtain ⟨next, hnext, hstop⟩ | ⟨rfl, word, hword, hstop⟩ := h.stop
  · rw [hstop, all_take_start hnext]
  · have hpos : 0 < (all t).length := List.length_pos_of_mem (List.mem_of_getLast? hword)
    rw [List.getLast?_eq_getElem?] at hword
    rw [hstop, Word.all_take_stop hword, Nat.sub_add_cancel hpos]

theorem all_slice (h : Spans t first last s) (hproper : s.Proper t.length) (hlt : first < last) :
    (all (s.slice t)).map (·.shift s.start) = between first last (all t) := by
  obtain ⟨word, hword, hstart⟩ := h.start
  have hfirst : (all (t.take s.stop.toNat))[first]? = some word := by
    rw [h.all_take_stop, List.getElem?_take_of_lt hlt, hword]
  rw [hproper.slice_eq, hstart, all_drop_start hfirst, h.all_take_stop, between]

end Spans

end Word

namespace Text

variable {t : Text} {target : List Text}

theorem exists_findWords {first last : Nat} (htarget : target ≠ []) (hwords : t.words ≠ [])
    (h : closestRanges target t.words = {(first, last)}) : ∃ s, t.findWords target = some s := by
  have hlt := lt_of_closestRanges_eq hwords h
  have hmem : (first, last) ∈ closestRanges target t.words := by simp [h]
  have hlast : last ≤ (Word.all t).length := by
    have hlast : last ≤ t.words.length := hmem.2.1
    rwa [words, List.length_map] at hlast
  have hfirst : (Span.between first last).start.toNat < (Word.all t).length := by
    simp only [Span.between]
    omega
  have hlength : (Span.between first last).length ≠ 0 := by
    simp only [Span.between]
    omega
  have hall : Word.all t ≠ [] := List.ne_nil_of_length_pos (Nat.zero_lt_of_lt hfirst)
  have hgiven : ¬(target.isEmpty || (Word.all t).isEmpty) := by simp [htarget, hall]
  have hfound : closestRange target ((Word.all t).map (·.text)) = some (.between first last) :=
    closestRange_of_closestRanges_eq hwords h
  rw [findWords]
  dsimp only
  rw [if_neg hgiven, hfound, Option.bind_eq_bind, Option.bind_some, if_neg hlength,
    List.getElem?_eq_getElem hfirst, List.getLast?_eq_some_getLast hall]
  exact ⟨_, rfl⟩

theorem exists_spans_of_findWords {s : Span} (h : t.findWords target = some s) :
    ∃ first last, first < last ∧ last ≤ t.words.length ∧
      closestRanges target t.words = {(first, last)} ∧ Word.Spans t first last s := by
  obtain ⟨first, last, hlt, hle, hranges, hstart, hstop⟩ := exists_of_findWords h
  refine ⟨first, last, hlt, ?_, hranges, ⟨_, List.getElem?_eq_getElem _, hstart⟩, ?_⟩
  · rwa [words, List.length_map]
  · split at hstop
    · exact .inl ⟨_, List.getElem?_eq_getElem _, hstop⟩
    · obtain rfl : last = (Word.all t).length := by omega
      refine .inr ⟨rfl, _, ?_, hstop⟩
      rw [List.getLast?_eq_getElem?, List.getElem?_eq_getElem]

theorem findWords_eq_none_iff : t.findWords target = none ↔
    target = [] ∨ t.words = [] ∨ (closestRanges target t.words).Nontrivial := by
  constructor
  · intro hnone
    by_contra! h
    obtain ⟨htarget, hwords, hranges⟩ := h
    obtain ⟨⟨first, last⟩, hmem⟩ := closestRanges_nonempty target t.words
    obtain ⟨s, hs⟩ := exists_findWords htarget hwords (hranges.eq_singleton_of_mem hmem)
    rw [hs] at hnone
    cases hnone
  · intro h
    rw [Option.eq_none_iff_forall_ne_some]
    intro s hs
    obtain ⟨first, last, hlt, hle, hranges, -⟩ := exists_spans_of_findWords hs
    obtain rfl | hwords | hmany := h
    · cases hs
    · rw [hwords, List.length_nil] at hle
      omega
    · rw [hranges] at hmany
      exact Set.not_nontrivial_singleton hmany

/-- The words found are those of the closest range, which is the only one, with their places in the
text. Nothing is found if there is nothing to look for or to look in, or if no range is the only
closest one. -/
theorem findWords_finds_unique_closest (t : Text) (target : List Text) :
    (t.findWords target = none ↔
      target = [] ∨ t.words = [] ∨ (closestRanges target t.words).Nontrivial) ∧
    ∀ s, t.findWords target = some s →
      ∃ first last, first < last ∧ last ≤ t.words.length ∧
        closestRanges target t.words = {(first, last)} ∧ s.Proper t.length ∧
        Word.Spans t first last s ∧
        (Word.all (s.slice t)).map (·.shift s.start) = between first last (Word.all t) ∧
        Text.words (s.slice t) = between first last t.words := by
  refine ⟨findWords_eq_none_iff, fun s hs => ?_⟩
  obtain ⟨first, last, hlt, hle, hranges, hspans⟩ := exists_spans_of_findWords hs
  have hproper := proper_of_findWords hs
  have hslice := hspans.all_slice hproper hlt
  refine ⟨first, last, hlt, hle, hranges, hproper, hspans, hslice, ?_⟩
  have htexts := congrArg (List.map (·.text)) hslice
  rw [List.map_map] at htexts
  rw [words, words, between, ← List.map_take, ← List.map_drop]
  exact htexts

/-- The range goes on to the next word. Of two words alike, none is found. -/
theorem findWords_finds_quick_brown :
    findWords "the quick brown fox".toList ["quick".toList, "brown".toList] = some ⟨4, 12⟩ ∧
      (∃ first last,
        closestRanges ["quick".toList, "brown".toList]
          ["the".toList, "quick".toList, "brown".toList, "fox".toList] = {(first, last)} ∧
        between first last ["the".toList, "quick".toList, "brown".toList, "fox".toList] =
          ["quick".toList, "brown".toList]) ∧
      (closestRanges ["a".toList] ["a".toList, "a".toList]).Nontrivial := by
  have hfound : findWords "the quick brown fox".toList ["quick".toList, "brown".toList] =
      some ⟨4, 12⟩ := by decide +kernel
  have hnone : findWords "a a".toList ["a".toList] = none := by decide +kernel
  refine ⟨hfound, ?_, ?_⟩
  · obtain ⟨first, last, -, -, hranges, -, -, -, hwords⟩ :=
      (findWords_finds_unique_closest _ _).2 _ hfound
    exact ⟨first, last, hranges, hwords.symm.trans (by decide +kernel)⟩
  · obtain htarget | hwords | hmany := (findWords_finds_unique_closest _ _).1.1 hnone
    · cases htarget
    · exact absurd hwords (by decide +kernel)
    · exact hmany

end Text

end GrammarCheck
