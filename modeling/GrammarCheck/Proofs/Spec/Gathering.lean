import GrammarCheck.Proofs.Spec.Bookmarks

/-!
What a reading gathers. Its two stores agree: the fragments are the grammar blocks that parse, in
the order of the walk, and the grammar is made of their productions, each with a link to the section
that its block stands in.
-/

namespace GrammarCheck.Spec

variable {settings : Settings} {documents : List Document} {blocks : List (Document × Block)}
  {sections : List Section} {counter counter' : BookmarkCounter} {s : Spec} {d : Document}
  {block : Block}

def sectionTitle? (settings : Settings) : Block → Option Text
  | .heading level content =>
    if level ≤ settings.maxHeadingLevel then content.title?.toOption.join else none
  | _ => none

def headings (settings : Settings) (blocks : List (Document × Block)) : List (Document × Text) :=
  blocks.filterMap fun (d, block) => (sectionTitle? settings block).map (d, ·)

def grammarOf? (settings : Settings) (d : Document) : Block → Option Grammar
  | .code code language =>
    if (language.getD []).trim = settings.language then
      (Grammar.ofText (Grammar.sourceName (some d.filename) []) [] code).toOption
    else none
  | _ => none

/-- The section that the block at a place stands in, which is the last one recorded before it. -/
def sectionAt (settings : Settings) (sections : List Section) (blocks : List (Document × Block))
    (place : Nat) : Option Section :=
  (sections.take (headings settings (blocks.take place)).length).getLast?

structure GrammarBlock where
  document : Document
  block : Block
  grammar : Grammar
  within : Option Section

def grammarBlocks (settings : Settings) (sections : List Section)
    (blocks : List (Document × Block)) : List GrammarBlock :=
  blocks.zipIdx.filterMap fun ((d, block), place) =>
    (grammarOf? settings d block).map (⟨d, block, ·, sectionAt settings sections blocks place⟩)

theorem headings_append (settings : Settings) (blocks blocks' : List (Document × Block)) :
    headings settings (blocks ++ blocks') = headings settings blocks ++ headings settings blocks' :=
  List.filterMap_append ..

theorem headings_concat (settings : Settings) (blocks : List (Document × Block)) (d : Document)
    (block : Block) :
    headings settings (blocks ++ [(d, block)]) =
      headings settings blocks ++ ((sectionTitle? settings block).map (d, ·)).toList := by
  rw [headings_append]
  cases h : sectionTitle? settings block <;> simp [headings, h]

theorem headings_concat_of_none (h : sectionTitle? settings block = none) (d : Document)
    (blocks : List (Document × Block)) :
    headings settings (blocks ++ [(d, block)]) = headings settings blocks := by
  rw [headings_concat, h, Option.map_none, Option.toList_none, List.append_nil]

theorem length_headings_take_le (settings : Settings) (blocks : List (Document × Block))
    (place : Nat) :
    (headings settings (blocks.take place)).length ≤ (headings settings blocks).length :=
  ((List.take_sublist place blocks).filterMap _).length_le

theorem sectionAt_append (h : sections.length = (headings settings blocks).length) {place : Nat}
    (hplace : place ≤ blocks.length) (sections' : List Section)
    (blocks' : List (Document × Block)) :
    sectionAt settings (sections ++ sections') (blocks ++ blocks') place =
      sectionAt settings sections blocks place := by
  have hle := length_headings_take_le settings blocks place
  rw [sectionAt, List.take_append_of_le_length hplace, List.take_append_of_le_length (by omega),
    sectionAt]

theorem sectionAt_length (h : sections.length = (headings settings blocks).length) :
    sectionAt settings sections blocks blocks.length = sections.getLast? := by
  rw [sectionAt, List.take_length, ← h, List.take_length]

theorem grammarBlocks_concat (h : sections.length = (headings settings blocks).length)
    (sections' : List Section) (d : Document) (block : Block) :
    grammarBlocks settings (sections ++ sections') (blocks ++ [(d, block)]) =
      grammarBlocks settings sections blocks ++
        ((grammarOf? settings d block).map (⟨d, block, ·, sections.getLast?⟩)).toList := by
  rw [grammarBlocks, List.zipIdx_append, List.filterMap_append, grammarBlocks]
  congr 1
  · apply List.filterMap_congr
    rintro ⟨⟨d', block'⟩, place⟩ hmem
    have hplace := List.snd_lt_of_mem_zipIdx hmem
    dsimp only at hplace ⊢
    rw [sectionAt_append h (by omega)]
  · have hplace : sectionAt settings (sections ++ sections') (blocks ++ [(d, block)])
        blocks.length = sections.getLast? := by
      rw [sectionAt_append h (Nat.le_refl _), sectionAt_length h]
    cases hgrammar : grammarOf? settings d block <;> simp [hgrammar, hplace]

structure Complete (settings : Settings) (blocks : List (Document × Block)) (s : Spec) : Prop where
  sections : s.sections.map (fun t => (t.filename, t.title, t.url)) =
    (headings settings blocks).map fun (d, title) => (d.filename, title, url d.filename title)
  fragments : s.fragments.map (fun f => (f.filename, f.block, f.names, f.within)) =
    (grammarBlocks settings s.sections blocks).map fun b =>
      (b.document.filename, b.block, b.grammar.ruleNames, b.within)
  grammar : s.grammar = {
    productions := (grammarBlocks settings s.sections blocks).flatMap fun b =>
      b.grammar.productions.map (linkTo b.within) }

namespace Complete

theorem length_sections (h : Complete settings blocks s) :
    s.sections.length = (headings settings blocks).length := by
  simpa using congrArg List.length h.sections

theorem ruleNames (h : Complete settings blocks s) :
    s.grammar.ruleNames = s.fragments.flatMap (·.names) := by
  have hnames : s.fragments.map (·.names) =
      (grammarBlocks settings s.sections blocks).map (·.grammar.ruleNames) := by
    simpa [Function.comp_def] using congrArg (List.map (·.2.2.1)) h.fragments
  rw [List.flatMap_def, hnames, ← List.flatMap_def, h.grammar]
  simp [Grammar.ruleNames, List.filterMap_flatMap, List.filterMap_map, Function.comp_def]

end Complete

namespace Reader

variable {r r' : Reader}

structure Complete (settings : Settings) (blocks : List (Document × Block)) (r : Reader) :
    Prop where
  sameSettings : r.settings = settings
  current : r.current = r.spec.sections.getLast?
  spec : Spec.Complete settings blocks r.spec

theorem Complete.start (settings : Settings) (counter : BookmarkCounter) :
    (start settings counter).Complete settings [] :=
  ⟨rfl, rfl, rfl, rfl, rfl⟩

theorem Complete.unchanged (h : r.Complete settings blocks)
    (hheading : sectionTitle? settings block = none)
    (hgrammar : grammarOf? settings d block = none) :
    r.Complete settings (blocks ++ [(d, block)]) := by
  have hblocks : grammarBlocks settings r.spec.sections (blocks ++ [(d, block)]) =
      grammarBlocks settings r.spec.sections blocks := by
    have hconcat := grammarBlocks_concat h.spec.length_sections [] d block
    rwa [hgrammar, Option.map_none, Option.toList_none, List.append_nil, List.append_nil] at hconcat
  refine ⟨h.sameSettings, h.current, ?_, ?_, ?_⟩
  · rw [headings_concat_of_none hheading, h.spec.sections]
  · rw [hblocks, h.spec.fragments]
  · rw [hblocks, h.spec.grammar]

theorem Complete.report (h : r.Complete settings blocks) (diagnostic : Diagnostic) :
    (r.report diagnostic).Complete settings blocks :=
  ⟨h.sameSettings, h.current, h.spec.sections, h.spec.fragments, h.spec.grammar⟩

theorem sectionTitle?_heading {level : Int} {content : Inline} {title : Option Text}
    (htitle : content.title? = .ok title) (settings : Settings) :
    sectionTitle? settings (.heading level content) =
      if level ≤ settings.maxHeadingLevel then title else none := by
  rw [sectionTitle?, htitle]
  rfl

theorem grammarOf?_code {code : Text} {language : Option Text}
    (hlanguage : (language.getD []).trim = settings.language) (d : Document) :
    grammarOf? settings d (.code code language) =
      (Grammar.ofText (Grammar.sourceName (some d.filename) []) [] code).toOption := by
  rw [grammarOf?, if_pos hlanguage]

theorem Complete.withSection {level : Int} {content : Inline} {title : Text}
    (h : r.Complete settings blocks)
    (hheading : sectionTitle? settings (.heading level content) = some title) (numbers : List Nat)
    (reports : List Diagnostic) :
    (r.withSection numbers (r.recorded d level title numbers) reports).Complete settings
      (blocks ++ [(d, .heading level content)]) := by
  have hnone : grammarOf? settings d (.heading level content) = none := rfl
  have hblocks := grammarBlocks_concat h.spec.length_sections [r.recorded d level title numbers] d
    (.heading level content)
  rw [hnone, Option.map_none, Option.toList_none, List.append_nil] at hblocks
  refine ⟨h.sameSettings, ?_, ?_, ?_, ?_⟩
  · rw [Reader.withSection, List.getLast?_concat]
  · rw [Reader.withSection, headings_concat, hheading, List.map_append, List.map_append,
      h.spec.sections]
    rfl
  · rw [Reader.withSection, hblocks, h.spec.fragments]
  · rw [Reader.withSection, hblocks, h.spec.grammar]

theorem Complete.withFragment {code : Text} {language : Option Text} {g : Grammar}
    (h : r.Complete settings blocks)
    (hgrammar : grammarOf? settings d (.code code language) = some g) (reports : List Diagnostic) :
    (r.withFragment (r.gathered d code language g) g.productions reports).Complete settings
      (blocks ++ [(d, .code code language)]) := by
  have hblocks := grammarBlocks_concat h.spec.length_sections [] d (.code code language)
  rw [hgrammar, List.append_nil, ← h.current] at hblocks
  refine ⟨h.sameSettings, h.current, ?_, ?_, ?_⟩
  · rw [Reader.withFragment, headings_concat_of_none rfl, h.spec.sections]
  · rw [Reader.withFragment, hblocks, List.map_append, List.map_append, h.spec.fragments]
    rfl
  · rw [Reader.withFragment, hblocks, h.spec.grammar]
    simp

theorem Complete.step (h : r.Complete settings blocks) (hstep : Step d r block r') :
    r'.Complete settings (blocks ++ [(d, block)]) := by
  have hsettings := h.sameSettings
  cases hstep with
  | passed isPassed isForeign =>
    apply h.unchanged
    · cases block with
      | heading level content => exact absurd rfl (isPassed level content)
      | paragraph | code | quote | list | table | thematicBreak | other => rfl
    · cases block with
      | code code language =>
        rw [grammarOf?, if_neg (hsettings ▸ isForeign code language rfl)]
      | heading | paragraph | quote | list | table | thematicBreak | other => rfl
  | untitled noTitle =>
    apply (h.report _).unchanged _ rfl
    rw [sectionTitle?_heading noTitle, ite_self]
  | tooDeep hasTitle isDeep =>
    apply (h.report _).unchanged _ rfl
    rw [sectionTitle?_heading hasTitle, if_neg (by rw [← hsettings]; omega)]
  | counted hasTitle isCounted =>
    apply h.withSection
    rw [sectionTitle?_heading hasTitle, if_pos (by rwa [← hsettings])]
  | dropped isGrammar fails =>
    apply (h.report _).unchanged rfl
    rw [grammarOf?_code (hsettings ▸ isGrammar), fails]
    rfl
  | parsed isGrammar parses =>
    apply h.withFragment
    rw [grammarOf?_code (hsettings ▸ isGrammar), parses]
    rfl

end Reader

theorem complete_of_read (h : read documents settings counter = .ok (s, counter')) :
    Complete settings (walk documents) s := by
  obtain ⟨r, rfl, -, hr⟩ := read_keeps (fun blocks r => r.Complete settings blocks)
    (Reader.Complete.start settings counter)
    (fun _ _ _ h => ⟨h.sameSettings, h.current, h.spec.sections, h.spec.fragments, h.spec.grammar⟩)
    (fun _ _ _ _ _ _ _ hstep h => h.step hstep) h
  exact hr.spec

theorem bookmarked_of_read (h : read documents settings counter = .ok (s, counter')) :
    Bookmarked counter counter' s := by
  obtain ⟨r, rfl, rfl, hr⟩ := read_keeps (fun _ r => Bookmarked counter r.counter r.spec)
    (Bookmarked.start settings counter) (fun _ _ _ h => ⟨h.sections, h.fragments, h.count⟩)
    (fun _ _ _ _ _ _ _ hstep h => h.step hstep) h
  exact hr

/-- Nothing that documents define is lost in a reading, and the names that it gives are all new. -/
theorem read_complete (documents : List Document) (settings : Settings)
    (counter : BookmarkCounter) :
    ((∀ d ∈ documents, d.WellFormed) →
      ∃ s counter', read documents settings counter = .ok (s, counter')) ∧
    ∀ s counter', read documents settings counter = .ok (s, counter') →
      Complete settings (walk documents) s ∧
      s.grammar.ruleNames = s.fragments.flatMap (·.names) ∧
      Bookmarked counter counter' s ∧
      (s.sections.map (·.bookmark) ++ s.fragments.map (·.bookmark)).Nodup := by
  refine ⟨fun h => exists_read_eq_ok h settings counter, ?_⟩
  intro s counter' hread
  have hcomplete := complete_of_read hread
  have hbookmarked := bookmarked_of_read hread
  exact ⟨hcomplete, hcomplete.ruleNames, hbookmarked, hbookmarked.nodup⟩

theorem read_complete_across_documents :
    ∃ documents : List Document, documents.map (·.blocks) =
      [[.code "e:f;".toList (some "antlr".toList), .heading 1 (.run [.text ['A']]),
          .quote [.code "a:b;c:'d';".toList (some "antlr".toList)],
          .code "a:(;".toList (some "antlr".toList)],
        [.code "g:a;".toList (some " antlr ".toList), .heading 9 (.run [.text ['C']]),
          .list false [[.heading 2 (.run [.code ['B']])],
            [.code "h:a;".toList (some "antlr".toList)]]]] ∧
      (∀ d ∈ documents, d.WellFormed) ∧
      ∃ s counter', read documents {} ⟨[(sectionSeries, 99998)]⟩ = .ok (s, counter') ∧
        s.sections.map (·.bookmark) = ["_Toc99999".toList, "_Toc100000".toList] ∧
        s.fragments.map (fun f => (f.bookmark, f.names, f.within.map (·.url))) =
          [("_Grm00001".toList, [['e']], none),
            ("_Grm00002".toList, [['a'], ['c']], some "x#a".toList),
            ("_Grm00003".toList, [['g']], some "x#a".toList),
            ("_Grm00004".toList, [['h']], some "y#b".toList)] ∧
        Complete {} (walk documents) s ∧ s.grammar.ruleNames = [['e'], ['a'], ['c'], ['g'], ['h']] ∧
        Bookmarked ⟨[(sectionSeries, 99998)]⟩ counter' s := by
  let documents : List Document :=
    [⟨['x'], [], [.code "e:f;".toList (some "antlr".toList), .heading 1 (.run [.text ['A']]),
        .quote [.code "a:b;c:'d';".toList (some "antlr".toList)],
        .code "a:(;".toList (some "antlr".toList)]⟩,
      ⟨['y'], [], [.code "g:a;".toList (some " antlr ".toList), .heading 9 (.run [.text ['C']]),
        .list false [[.heading 2 (.run [.code ['B']])],
          [.code "h:a;".toList (some "antlr".toList)]]]⟩]
  let counter : BookmarkCounter := ⟨[(sectionSeries, 99998)]⟩
  have hwellFormed : ∀ d ∈ documents, d.WellFormed := by
    simp [documents, Document.WellFormed, Block.WellFormed.heading, Block.WellFormed.quote,
      Block.WellFormed.list, Block.WellFormed.code, Inline.WellFormed.text, Inline.WellFormed.code]
  have hsections : (read documents {} counter).toOption.map (fun result =>
      result.1.sections.map (·.bookmark)) =
        some ["_Toc99999".toList, "_Toc100000".toList] := by
    decide +kernel
  have hfragments : (read documents {} counter).toOption.map (fun result =>
      result.1.fragments.map (fun f => (f.bookmark, f.names, f.within.map (·.url)))) =
        some [("_Grm00001".toList, [['e']], none),
          ("_Grm00002".toList, [['a'], ['c']], some "x#a".toList),
          ("_Grm00003".toList, [['g']], some "x#a".toList),
          ("_Grm00004".toList, [['h']], some "y#b".toList)] := by
    decide +kernel
  obtain ⟨hreturns, hcomplete⟩ := read_complete documents {} counter
  obtain ⟨s, counter', hread⟩ := hreturns hwellFormed
  obtain ⟨hspec, hnames, hbookmarked, -⟩ := hcomplete s counter' hread
  rw [hread] at hsections hfragments
  refine ⟨documents, rfl, hwellFormed, s, counter', hread, Option.some.inj hsections,
    Option.some.inj hfragments, hspec, ?_, hbookmarked⟩
  have hlists := congrArg (List.map (·.2.1)) (Option.some.inj hfragments)
  rw [List.map_map] at hlists
  rw [hnames, List.flatMap_def]
  exact congrArg List.flatten hlists

end GrammarCheck.Spec
