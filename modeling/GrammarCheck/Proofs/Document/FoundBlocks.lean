import GrammarCheck.Document.Words
import GrammarCheck.Proofs.EditDistance.Distance
import GrammarCheck.Proofs.Text.Lookup

/-!
The search of a text for one of its own fenced blocks. The words of a block begin with those of its
language and the words of a paragraph are those of the code alone, so that a block with a language is
not at distance zero from itself, and another paragraph may be closer.
-/

namespace GrammarCheck

open EditDistance

variable {t code language : Text} {span : Span}

namespace Paragraph

theorem mem_ofSegments {segments : List Segment} (h : .code code language span ∈ segments)
    (pending : Option Paragraph) : ⟨code, span⟩ ∈ ofSegments pending segments := by
  fun_induction ofSegments pending segments with
  | case1 => cases h
  | case2 pending code' language' span' segments ih =>
    rw [List.mem_append, List.mem_cons]
    obtain h | h := List.mem_cons.1 h
    · cases h
      exact .inr (.inl rfl)
    · exact .inr (.inr (ih h))
  | case3 pending text span' segments hblank ih =>
    obtain h | h := List.mem_cons.1 h
    · cases h
    · exact List.mem_append_right _ (ih h)
  | case4 pending text span' segments hblank ih =>
    obtain h | h := List.mem_cons.1 h
    · cases h
    · exact ih h

end Paragraph

namespace Text

theorem findParagraph_eq_some_iff {p : Paragraph} (hp : p ∈ Paragraph.all t) (target : List Text) :
    t.findParagraph target = some p.span ↔ ∀ q ∈ Paragraph.all t,
      (q.span.start < p.span.start → distance p.text.words target < distance q.text.words target) ∧
      (p.span.start < q.span.start → distance p.text.words target ≤ distance q.text.words target) := by
  have hleast : firstLeast (fun p => distance p.text.words target) (Paragraph.all t) = some p ↔ _ :=
    firstLeast_eq_some_iff (Paragraph.pairwise_start t) hp
  rw [findParagraph, Option.map_eq_some_iff, ← hleast]
  constructor
  · rintro ⟨q, hq, hspan⟩
    have hstart : q.span.start = p.span.start := congrArg (·.start) hspan
    obtain rfl := eq_of_pairwise_lt (Paragraph.pairwise_start t) (mem_of_firstLeast hq) hp hstart
    exact hq
  · exact fun h => ⟨p, h, rfl⟩

theorem distance_words_block (code language : Text) :
    distance code.words (language.words ++ code.words) = language.words.length := by
  rw [distance_eq, editDistance_append_left]

/-- A fenced block is found at its own place if and only if all paragraphs before it are farther from
its words than its language is long, and those behind it no closer. With no words in its language it
is, unless another paragraph has the same words. -/
theorem findParagraph_block_iff (h : .code code language span ∈ Segment.all t) :
    ∃ target, (Block.code code (some language)).words = .ok target ∧
      (t.findParagraph target = some span ↔ ∀ p ∈ Paragraph.all t,
        (p.span.start < span.start → language.words.length < distance p.text.words target) ∧
        (span.start < p.span.start → language.words.length ≤ distance p.text.words target)) ∧
      (language.words = [] → (∀ p ∈ Paragraph.all t, p.span ≠ span → p.text.words ≠ code.words) →
        t.findParagraph target = some span) := by
  have hmem : ⟨code, span⟩ ∈ Paragraph.all t := Paragraph.mem_ofSegments h none
  have hfound := findParagraph_eq_some_iff hmem (language.words ++ code.words)
  rw [distance_words_block] at hfound
  refine ⟨language.words ++ code.words, rfl, hfound, ?_⟩
  intro hlanguage hother
  refine hfound.2 fun p hp => ?_
  rw [hlanguage, List.nil_append, List.length_nil]
  refine ⟨fun hlt => ?_, fun _ => Nat.zero_le _⟩
  have hspan : p.span ≠ span := by
    rintro rfl
    exact Int.lt_irrefl _ hlt
  rw [Nat.pos_iff_ne_zero, distance_eq, Ne, editDistance_eq_zero_iff]
  exact hother p hp hspan

theorem findParagraph_block_behind_prose :
    ∃ target, (Block.code "a: b;\r\n".toList (some "antlr".toList)).words = .ok target ∧
      findParagraph "See a.\n\n```antlr\na: b;\n```\n".toList target = some ⟨8, 18⟩ := by
  have hunit : .code "a: b;\r\n".toList "antlr".toList ⟨8, 18⟩ ∈
      Segment.all "See a.\n\n```antlr\na: b;\n```\n".toList := by decide +kernel
  obtain ⟨target, hwords, hfound, -⟩ := findParagraph_block_iff hunit
  cases hwords
  exact ⟨_, rfl, hfound.2 (by decide +kernel)⟩

/-- The rule of the block before differs from the words that are sought in one word, and so does the
rule of the block itself, since its language is not counted. -/
theorem findParagraph_block_elsewhere :
    ∃ (t code language : Text) (span : Span) (target : List Text),
      t = "```antlr\nx: a b;\n```\n\n```antlr\na: b;\n```\n".toList ∧
      .code code language span ∈ Segment.all t ∧
      (∀ p ∈ Paragraph.all t, p.span ≠ span → p.text.words ≠ code.words) ∧
      (Block.code code (some language)).words = .ok target ∧
      span = ⟨22, 18⟩ ∧ t.findParagraph target = some ⟨0, 20⟩ := by
  refine ⟨_, "a: b;\r\n".toList, "antlr".toList, ⟨22, 18⟩,
    ["antlr".toList, "a".toList, "b".toList], rfl, ?_, ?_, ?_, rfl, ?_⟩
  · decide +kernel
  · decide +kernel
  · rfl
  · decide +kernel

end Text

end GrammarCheck
