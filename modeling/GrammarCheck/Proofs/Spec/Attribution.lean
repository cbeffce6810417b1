import GrammarCheck.Proofs.Spec.Gathering

/-!
Which file the section of a grammar block belongs to. A reader does not leave its section when a
document ends, so that what comes before the first recorded heading of the next one is attributed to
a section of another file.
-/

namespace GrammarCheck.Spec

variable {settings : Settings} {documents : List Document} {blocks before : List (Document × Block)}
  {sections : List Section} {counter counter' : BookmarkCounter} {s : Spec} {d : Document}
  {block : Block} {b : GrammarBlock}

theorem mem_grammarBlocks : b ∈ grammarBlocks settings sections blocks ↔
    ∃ before after, blocks = before ++ (b.document, b.block) :: after ∧
      grammarOf? settings b.document b.block = some b.grammar ∧
      b.within = sectionAt settings sections blocks before.length := by
  constructor
  · intro h
    obtain ⟨⟨⟨d, block⟩, place⟩, hmem, hb⟩ := List.mem_filterMap.1 h
    obtain ⟨g, hg, rfl⟩ := Option.map_eq_some_iff.1 hb
    obtain ⟨hplace, hget⟩ := List.getElem?_eq_some_iff.1 (List.mem_zipIdx_iff_getElem?.1 hmem)
    dsimp only at hplace hget
    refine ⟨blocks.take place, blocks.drop (place + 1), ?_, hg, ?_⟩
    · rw [← hget, ← List.drop_eq_getElem_cons hplace, List.take_append_drop]
    · rw [List.length_take, Nat.min_eq_left hplace.le]
  · rintro ⟨before, after, rfl, hg, hwithin⟩
    refine List.mem_filterMap.2 ⟨((b.document, b.block), before.length), ?_, ?_⟩
    · exact List.mem_zipIdx_iff_getElem?.2 (by simp)
    · dsimp only
      rw [hg, Option.map_some, ← hwithin]

theorem Complete.filename_sectionAt {after : List (Document × Block)}
    (h : Complete settings (before ++ after) s) :
    (sectionAt settings s.sections (before ++ after) before.length).map (·.filename) =
      (headings settings before).getLast?.map (·.1.filename) := by
  have hfilenames : s.sections.map (·.filename) =
      (headings settings (before ++ after)).map (·.1.filename) := by
    simpa [Function.comp_def] using congrArg (List.map (·.1)) h.sections
  rw [sectionAt, List.take_left, ← List.getLast?_map, ← List.getLast?_map, List.map_take,
    hfilenames, headings_append, List.map_append, List.take_left' (List.length_map _)]

theorem walk_append (documents documents' : List Document) :
    walk (documents ++ documents') = walk documents ++ walk documents' :=
  List.flatMap_append

theorem walk_cons (d : Document) (documents : List Document) :
    walk (d :: documents) = d.walk.map (d, ·) ++ walk documents :=
  List.flatMap_cons

theorem walk_eq_append_cons {after : List (Document × Block)} :
    walk documents = before ++ (d, block) :: after ↔
      ∃ earlier later xs ys, documents = earlier ++ d :: later ∧ d.walk = xs ++ block :: ys ∧
        before = walk earlier ++ xs.map (d, ·) ∧ after = ys.map (d, ·) ++ walk later := by
  constructor
  · induction documents generalizing before with
    | nil => simp [walk]
    | cons d' documents ih =>
      intro h
      rw [walk_cons, List.append_eq_append_iff] at h
      obtain ⟨before', rfl, h⟩ | ⟨rest, hd, hrest⟩ := h
      · obtain ⟨earlier, later, xs, ys, rfl, hd, rfl, hafter⟩ := ih h
        exact ⟨d' :: earlier, later, xs, ys, rfl, hd, by rw [walk_cons, List.append_assoc], hafter⟩
      · obtain ⟨rfl, hrest⟩ | ⟨ys, rfl, rfl⟩ := List.cons_eq_append_iff.1 hrest
        · obtain ⟨earlier, later, xs, ys, rfl, hd', hbefore, hafter⟩ := @ih [] hrest.symm
          refine ⟨d' :: earlier, later, xs, ys, rfl, hd', ?_, hafter⟩
          rw [List.append_nil] at hd
          rw [walk_cons, List.append_assoc, ← hbefore, List.append_nil, hd]
        · obtain ⟨xs, ys', hwalk, rfl, hys⟩ := List.map_eq_append_iff.1 hd
          obtain ⟨block', ys', rfl, hblock, rfl⟩ := List.map_eq_cons_iff.1 hys
          cases hblock
          exact ⟨[], documents, xs, ys', rfl, hwalk, rfl, rfl⟩
  · rintro ⟨earlier, later, xs, ys, rfl, hd, rfl, rfl⟩
    simp [walk_append, walk_cons, hd]

theorem getLast?_headings (settings : Settings) (earlier : List Document) (d : Document)
    (xs : List Block) :
    (headings settings (walk earlier ++ xs.map (d, ·))).getLast? =
      ((xs.filterMap (sectionTitle? settings)).getLast?.map (d, ·)).or
        (headings settings (walk earlier)).getLast? := by
  have hown : headings settings (xs.map (d, ·)) =
      (xs.filterMap (sectionTitle? settings)).map (d, ·) := by
    simp [headings, List.filterMap_map, List.map_filterMap]
  rw [headings_append, List.getLast?_append, hown, List.getLast?_map]

/-- A grammar before the first recorded heading of its document follows no recorded heading of
another file. -/
def Headed (settings : Settings) (documents : List Document) : Prop :=
  ∀ earlier d later before block after, documents = earlier ++ d :: later →
    d.walk = before ++ block :: after → (grammarOf? settings d block).isSome →
    (∀ x ∈ before, sectionTitle? settings x = none) →
    ∀ h ∈ (headings settings (walk earlier)).getLast?, h.1.filename = d.filename

theorem headed_iff : Headed settings documents ↔
    ∀ before d block after, walk documents = before ++ (d, block) :: after →
      (grammarOf? settings d block).isSome →
      ∀ h ∈ (headings settings before).getLast?, h.1.filename = d.filename := by
  constructor
  · intro hheaded before d block after hwalk hgrammar h hh
    obtain ⟨earlier, later, xs, ys, hdocuments, hd, rfl, -⟩ := walk_eq_append_cons.1 hwalk
    rw [getLast?_headings] at hh
    cases hlast : (xs.filterMap (sectionTitle? settings)).getLast? with
    | none =>
      rw [hlast] at hh
      have hxs := List.filterMap_eq_nil_iff.1 (List.getLast?_eq_none_iff.1 hlast)
      exact hheaded earlier d later xs block ys hdocuments hd hgrammar hxs h hh
    | some title =>
      rw [hlast] at hh
      cases hh
      rfl
  · intro hwalk earlier d later before block after hdocuments hd hgrammar hnone h hh
    apply hwalk _ d block _ (walk_eq_append_cons.2 ⟨_, _, _, _, hdocuments, hd, rfl, rfl⟩) hgrammar
    rwa [getLast?_headings, List.filterMap_eq_nil_iff.2 hnone]

theorem Complete.forall_fragments (h : Complete settings blocks s)
    (P : Text × Option Section → Prop) :
    (∀ f ∈ s.fragments, P (f.filename, f.within)) ↔
      ∀ b ∈ grammarBlocks settings s.sections blocks, P (b.document.filename, b.within) := by
  have hfragments : s.fragments.map (fun f => (f.filename, f.within)) =
      (grammarBlocks settings s.sections blocks).map fun b => (b.document.filename, b.within) := by
    simpa [Function.comp_def] using congrArg (List.map fun x => (x.1, x.2.2.2)) h.fragments
  rw [← List.forall_mem_map, hfragments, List.forall_mem_map]

/-- The fragments are all attributed to sections of their own files if and only if no document
begins with a grammar behind one of another file. -/
theorem within_own_file_iff (hread : read documents settings counter = .ok (s, counter')) :
    (∀ f ∈ s.fragments, ∀ t ∈ f.within, t.filename = f.filename) ↔ Headed settings documents := by
  have hcomplete := complete_of_read hread
  have hwithin : ∀ before d block after, walk documents = before ++ (d, block) :: after →
      ((∀ t ∈ sectionAt settings s.sections (walk documents) before.length,
          t.filename = d.filename) ↔
        ∀ h ∈ (headings settings before).getLast?, h.1.filename = d.filename) := by
    intro before d block after hwalk
    rw [hwalk] at hcomplete ⊢
    rw [← Option.forall_mem_map (f := fun t : Section => t.filename) (p := (· = d.filename)),
      hcomplete.filename_sectionAt, Option.forall_mem_map]
  rw [headed_iff, hcomplete.forall_fragments fun x => ∀ t ∈ x.2, t.filename = x.1]
  constructor
  · intro hown before d block after hwalk hgrammar
    obtain ⟨g, hg⟩ := Option.isSome_iff_exists.1 hgrammar
    rw [← hwithin before d block after hwalk]
    exact hown ⟨d, block, g, _⟩ (mem_grammarBlocks.2 ⟨before, after, hwalk, hg, rfl⟩)
  · intro hheaded b hb
    obtain ⟨before, after, hwalk, hg, hb⟩ := mem_grammarBlocks.1 hb
    dsimp only
    rw [hb, hwithin before b.document b.block after hwalk]
    exact hheaded before b.document b.block after hwalk (by rw [hg]; rfl)

theorem within_own_file_iff_headed :
    ∃ (documents : List Document) (s : Spec) (counter' : BookmarkCounter),
      documents.map (·.blocks) =
        [[.heading 1 (.run [.text ['A']]), .code "a:b;".toList (some "antlr".toList)],
          [.heading 9 (.run [.text ['C']]), .code ['c'] none, .heading 2 (.run [.text ['B']]),
            .code "c:d;".toList (some "antlr".toList)]] ∧
      read documents {} {} = .ok (s, counter') ∧
      s.fragments.map (fun f => (f.filename, f.within.map (·.filename))) =
        [(['x'], some ['x']), (['y'], some ['y'])] ∧
      ((∀ f ∈ s.fragments, ∀ t ∈ f.within, t.filename = f.filename) ↔ Headed {} documents) ∧
      Headed {} documents := by
  let documents : List Document :=
    [⟨['x'], [], [.heading 1 (.run [.text ['A']]), .code "a:b;".toList (some "antlr".toList)]⟩,
      ⟨['y'], [], [.heading 9 (.run [.text ['C']]), .code ['c'] none,
        .heading 2 (.run [.text ['B']]), .code "c:d;".toList (some "antlr".toList)]⟩]
  have hfiles : (read documents {} {}).toOption.map (fun result =>
      result.1.fragments.map fun f => (f.filename, f.within.map (·.filename))) =
        some [(['x'], some ['x']), (['y'], some ['y'])] := by
    decide +kernel
  have hown : (read documents {} {}).toOption.map (fun result => result.1.fragments.all fun f =>
      f.within.all (·.filename = f.filename)) = some true := by
    decide +kernel
  obtain ⟨⟨s, counter'⟩, hresult, hfiles⟩ := Option.map_eq_some_iff.1 hfiles
  rw [hresult] at hown
  have hread := eq_ok_of_toOption hresult
  have hiff := within_own_file_iff hread
  refine ⟨documents, s, counter', rfl, hread, hfiles, hiff, hiff.1 ?_⟩
  simpa [Option.all_eq_true] using Option.some.inj hown

/-- A grammar that a document begins with is attributed to the last section of the document before,
and is looked for below the wrong heading. -/
theorem within_other_file :
    ∃ (documents : List Document) (s : Spec) (counter' : BookmarkCounter) (f : Fragment)
      (t : Section),
      documents = [⟨"x.md".toList, "# A\n".toList, [.heading 1 (.run [.text ['A']])]⟩,
        ⟨"y.md".toList, "```antlr\na: b;\n```\n\n# B\n\n```antlr\nc: b;\n```\n".toList,
          [.code "a: b;\n".toList (some "antlr".toList), .heading 1 (.run [.text ['B']]),
            .code "c: b;\n".toList (some "antlr".toList)]⟩] ∧
      (∀ d ∈ documents, d.WellFormed) ∧ read documents {} {} = .ok (s, counter') ∧
      f ∈ s.fragments ∧ f.within = some t ∧ f.names = [['a']] ∧ f.filename = "y.md".toList ∧
      t.filename = "x.md".toList ∧
      s.locate ['a'] = .ok (some ⟨"y.md".toList, some 7, none, some 9, none⟩) := by
  let documents : List Document :=
    [⟨"x.md".toList, "# A\n".toList, [.heading 1 (.run [.text ['A']])]⟩,
      ⟨"y.md".toList, "```antlr\na: b;\n```\n\n# B\n\n```antlr\nc: b;\n```\n".toList,
        [.code "a: b;\n".toList (some "antlr".toList), .heading 1 (.run [.text ['B']]),
          .code "c: b;\n".toList (some "antlr".toList)]⟩]
  have hwellFormed : ∀ d ∈ documents, d.WellFormed := by
    simp [documents, Document.WellFormed, Block.WellFormed.heading, Block.WellFormed.code,
      Inline.WellFormed.text]
  have hfragments : (read documents {} {}).toOption.map (fun result =>
      result.1.fragments.map fun f => (f.names, f.filename, f.within.map (·.filename))) =
        some [([['a']], "y.md".toList, some "x.md".toList),
          ([['c']], "y.md".toList, some "y.md".toList)] := by
    decide +kernel
  have hlocated : (read documents {} {}).toOption.map (fun result =>
      (result.1.locate ['a']).toOption) =
        some (some (some ⟨"y.md".toList, some 7, none, some 9, none⟩)) := by
    decide +kernel
  obtain ⟨r, hread, -⟩ := read_eq_ok hwellFormed {} {}
  rw [hread] at hfragments hlocated
  obtain ⟨f, fs, hf, hfirst, -⟩ := List.map_eq_cons_iff.1 (Option.some.inj hfragments)
  obtain ⟨hnames, hfirst⟩ := Prod.mk.inj hfirst
  obtain ⟨hfilename, hwithin⟩ := Prod.mk.inj hfirst
  obtain ⟨t, ht, hother⟩ := Option.map_eq_some_iff.1 hwithin
  refine ⟨documents, r.spec, r.counter, f, t, rfl, hwellFormed, hread, ?_, ht, hnames, hfilename,
    hother, ?_⟩
  · rw [hf]
    exact List.mem_cons_self
  · exact eq_ok_of_toOption (Option.some.inj hlocated)

end GrammarCheck.Spec
