import GrammarCheck.Proofs.Parsing.Acceptance
import GrammarCheck.Proofs.Spec.Reading

namespace GrammarCheck

/-- Taking a block out of the list of blocks it stands in, at any depth. -/
inductive Block.Removes (b : Block) : List Block → List Block → Prop
  | here {blocks : List Block} : Removes b (b :: blocks) blocks
  | later {c : Block} {blocks blocks' : List Block} (removes : Removes b blocks blocks') :
    Removes b (c :: blocks) (c :: blocks')
  | quote {children children' blocks : List Block} (removes : Removes b children children') :
    Removes b (.quote children :: blocks) (.quote children' :: blocks)
  | list {ordered : Bool} {before after : List (List Block)} {item item' blocks : List Block}
      (removes : Removes b item item') :
    Removes b (.list ordered (before ++ item :: after) :: blocks)
      (.list ordered (before ++ item' :: after) :: blocks)

namespace Block

variable {b : Block} {blocks blocks' : List Block}

theorem walk_allItems_append (items items' : List (List Block)) :
    walk.allItems (items ++ items') = walk.allItems items ++ walk.allItems items' := by
  induction items with
  | nil => rfl
  | cons item items ih => rw [List.cons_append, walk.allItems, ih, walk.allItems, List.append_assoc]

theorem Removes.walk_all (h : Removes b blocks blocks') :
    ∃ before after, walk.all blocks = before ++ b.walk ++ after ∧
      walk.all blocks' = before ++ after := by
  induction h with
  | here => exact ⟨[], _, rfl, rfl⟩
  | @later c _ _ _ ih =>
    obtain ⟨before, after, hwalk, hwalk'⟩ := ih
    refine ⟨c.walk ++ before, after, ?_, ?_⟩
    · simp [walk.all, hwalk]
    · simp [walk.all, hwalk']
  | @quote _ _ blocks _ ih =>
    obtain ⟨before, after, hwalk, hwalk'⟩ := ih
    refine ⟨before, after ++ walk.all blocks, ?_, ?_⟩
    · simp [walk.all, walk, hwalk]
    · simp [walk.all, walk, hwalk']
  | @list _ items items' _ _ blocks _ ih =>
    obtain ⟨before, after, hwalk, hwalk'⟩ := ih
    refine ⟨walk.allItems items ++ before,
      after ++ walk.allItems items' ++ walk.all blocks, ?_, ?_⟩
    · simp [walk.all, walk, walk_allItems_append, walk.allItems, hwalk]
    · simp [walk.all, walk, walk_allItems_append, walk.allItems, hwalk']

end Block

theorem Grammar.accepts_source {source name text : Text} {g : Grammar}
    (h : ofText source name text = .ok g) (source' : Text) :
    ∃ g, ofText source' name text = .ok g := by
  obtain ⟨ts, n, ps, htokens, hread, -⟩ := ofText_eq_ok_iff.1 h
  have htokens' : TokenList.ofText source' text = .ok ts :=
    TokenList.ofText_eq_ok_iff.2 (TokenList.ofText_eq_ok_iff.1 htokens)
  exact ⟨_, ofText_eq_ok_iff.2 ⟨ts, n, ps, htokens', hread, rfl⟩⟩

namespace Spec

/-- A grammar block that does not parse, a heading that is no single text or code span, or one that
is too deep. -/
inductive Rejected (settings : Settings) : Block → Prop
  | code {code source : Text} {language : Option Text} {e : SyntaxError}
      (isGrammar : (language.getD []).trim = settings.language)
      (fails : Grammar.ofText source [] code = .error e) : Rejected settings (.code code language)
  | untitled {level : Int} {content : List Inline}
      (noTitle : ∀ t, content ≠ [.text t] ∧ content ≠ [.code t]) :
    Rejected settings (.heading level (.run content))
  | tooDeep {level : Int} {content : Inline} (isDeep : settings.maxHeadingLevel < level) :
    Rejected settings (.heading level content)

variable {settings : Settings} {documents : List Document} {d : Document}

theorem Rejected.walk {b : Block} (h : Rejected settings b) : b.walk = [b] := by
  cases h <;> rw [Block.walk]

theorem Rejected.exists_words {b : Block} (h : Rejected settings b) (hb : b.WellFormed) :
    ∃ ws, b.words = .ok ws := by
  cases hb with
  | heading _ areWellFormed =>
    rw [Block.words, Inline.words]
    exact Inline.words_all_eq_ok fun item hitem => (areWellFormed item hitem).words_eq_ok
  | code => exact ⟨_, by rw [Block.words]⟩
  | paragraph | quote | list | table | thematicBreak => cases h

theorem title?_run_of_ne {content : List Inline}
    (h : ∀ t, content ≠ [.text t] ∧ content ≠ [.code t]) :
    (Inline.run content).title? = .ok none := by
  unfold Inline.title?
  split
  · rename_i heq
    exact absurd (Inline.run.inj heq) (h _).1
  · rename_i heq
    exact absurd (Inline.run.inj heq) (h _).2
  · rfl

namespace Reader

variable {r : Reader}

def withEarlier (ds : List Diagnostic) (r : Reader) : Reader :=
  { r with spec := { r.spec with diagnostics := ds ++ r.spec.diagnostics } }

@[simp] theorem report_withEarlier (ds : List Diagnostic) (r : Reader) (d : Diagnostic) :
    (r.withEarlier ds).report d = (r.report d).withEarlier ds := by
  simp [report, withEarlier]

theorem eq_withEarlier (r : Reader) :
    r = { r with spec := { r.spec with diagnostics := [] } }.withEarlier r.spec.diagnostics := by
  simp [withEarlier]

def Framed (read : Reader → Except Stopped Reader) : Prop :=
  ∀ ds r, read (r.withEarlier ds) = (read r).map (withEarlier ds)

theorem Framed.bind {f g : Reader → Except Stopped Reader} (hf : Framed f) (hg : Framed g) :
    Framed fun r => f r >>= g := by
  intro ds r
  dsimp only
  rw [hf]
  cases f r with
  | error stopped => rfl
  | ok r' => exact hg ds r'

theorem Framed.foldlM {α : Type} {f : Reader → α → Except Stopped Reader}
    (h : ∀ x, Framed (f · x)) (xs : List α) : Framed (xs.foldlM f ·) := by
  induction xs with
  | nil =>
    intro ds r
    rfl
  | cons x xs ih =>
    have hcons : (fun r => (x :: xs).foldlM f r) = fun r => f r x >>= (xs.foldlM f ·) := by
      funext r
      rw [List.foldlM_cons]
    rw [hcons]
    exact (h x).bind ih

theorem framed_reject (d : Document) (block : Block) (code : Diagnostic.Code) (message : Text) :
    Framed (·.reject d block code message) := by
  intro ds r
  have hlocate : (r.withEarlier ds).locate d none (some block) = r.locate d none (some block) := rfl
  simp only [reject, hlocate]
  cases r.locate d none (some block) with
  | error stopped => rfl
  | ok location => exact congrArg Except.ok (report_withEarlier ..)

theorem framed_addSection (d : Document) (level : Int) (title : Text) :
    Framed (·.addSection d level title) := by
  intro ds r
  unfold addSection
  dsimp only [withEarlier]
  split
  · simp only [locate]
    cases (Location.find d.filename d.text (some (Section.target ⟨numberText level r.numbers, title,
        level, url d.filename title, (r.counter.next sectionSeries).1, d.filename⟩)) none none) with
    | error node => rfl
    | ok location =>
      simp only [Except.mapError, bind, Except.bind, pure, Except.pure, report, List.append_assoc]
      rfl
  · rfl

theorem framed_readHeading (d : Document) (level : Int) (content : Inline) :
    Framed (·.readHeading d level content) := by
  intro ds r
  unfold readHeading
  cases content.title? with
  | error node => rfl
  | ok title =>
    cases title with
    | none => exact framed_reject d _ _ _ ds r
    | some title =>
      dsimp only [withEarlier]
      split
      · exact framed_reject d _ _ _ ds r
      · cases bump? level r.numbers with
        | none => rfl
        | some numbers => exact framed_addSection d level title ds { r with numbers }

theorem addProduction_withEarlier (location : Location) (ds : List Diagnostic) (r : Reader)
    (p : Production) :
    addProduction location (r.withEarlier ds) p = (addProduction location r p).withEarlier ds := by
  unfold addProduction
  dsimp only [withEarlier]
  split <;> split <;> simp [report]

theorem foldl_addProduction_withEarlier (location : Location) (ds : List Diagnostic)
    (ps : List Production) (r : Reader) :
    ps.foldl (addProduction location) (r.withEarlier ds) =
      (ps.foldl (addProduction location) r).withEarlier ds := by
  induction ps generalizing r with
  | nil => rfl
  | cons p ps ih => rw [List.foldl_cons, addProduction_withEarlier, ih, List.foldl_cons]

theorem addFragment_withEarlier (d : Document) (code : Text) (language : Option Text)
    (location : Location) (g : Grammar) (ds : List Diagnostic) (r : Reader) :
    (r.withEarlier ds).addFragment d code language location g =
      (r.addFragment d code language location g).withEarlier ds :=
  foldl_addProduction_withEarlier location ds g.productions
    { r with
      counter := (r.counter.next grammarSeries).2
      spec := { r.spec with fragments := r.spec.fragments ++
        [⟨code, language, g.ruleNames, (r.counter.next grammarSeries).1, d.filename, r.current⟩] } }

theorem framed_readCode (d : Document) (code : Text) (language : Option Text) :
    Framed (·.readCode d code language) := by
  intro ds r
  have hlocate : (r.withEarlier ds).locate d ((r.withEarlier ds).current.map (·.target))
      (some (.code code language)) = r.locate d (r.current.map (·.target))
        (some (.code code language)) := rfl
  have hsettings : (r.withEarlier ds).settings = r.settings := rfl
  dsimp only
  rw [readCode, readCode, hsettings]
  split
  · rfl
  · rw [hlocate]
    cases r.locate d (r.current.map (·.target)) (some (.code code language)) with
    | error stopped => rfl
    | ok location =>
      simp only [bind, Except.bind]
      split
      · exact congrArg Except.ok (report_withEarlier ..)
      · exact congrArg Except.ok (addFragment_withEarlier ..)

theorem framed_readBlock (d : Document) (block : Block) : Framed (readBlock d · block) := by
  cases block with
  | heading level content => exact framed_readHeading d level content
  | code code language => exact framed_readCode d code language
  | paragraph | quote | list | table | thematicBreak | other =>
    intro ds r
    rfl

theorem framed_readDocument (d : Document) : Framed (·.readDocument d) := by
  intro ds r
  exact Framed.foldlM (framed_readBlock d) d.walk ds
    { r with spec := { r.spec with texts := putText d.filename d.text r.spec.texts } }

theorem Sound.readBlock_of_rejected (h : r.Sound settings documents) (hdoc : d.WellFormed)
    {b : Block} (hb : b ∈ d.walk) (hrejected : Rejected settings b) :
    ∃ report : Diagnostic, Reader.readBlock d r b = .ok (r.report report) := by
  have hwords := hrejected.exists_words (hdoc.of_mem_walk hb)
  have hreject : ∀ code message, ∃ report : Diagnostic,
      r.reject d b code message = .ok (r.report report) := by
    intro code message
    obtain ⟨location, hreject⟩ := r.reject_eq_ok d hwords code message
    exact ⟨_, hreject⟩
  cases hrejected with
  | @code code source language e isGrammar fails =>
    obtain ⟨location, hlocate⟩ := r.locate_eq_ok d (r.current.map (·.target))
      (some (.code code language)) (by simpa using hwords)
    have hlanguage : ((language.getD []).trim != r.settings.language) = false := by
      rw [h.sameSettings]
      simpa using isGrammar
    rw [Reader.readBlock, Reader.readCode, hlanguage, hlocate]
    simp only [bind, Except.bind]
    split
    · contradiction
    split
    · exact ⟨_, rfl⟩
    · rename_i g hg
      obtain ⟨g', hg'⟩ := Grammar.accepts_source hg source
      rw [fails] at hg'
      cases hg'
  | @untitled level content noTitle =>
    rw [Reader.readBlock, Reader.readHeading, title?_run_of_ne noTitle]
    exact hreject _ _
  | @tooDeep level content isDeep =>
    obtain ⟨title, htitle⟩ : ∃ title, content.title? = .ok title := by
      cases hdoc.of_mem_walk hb with
      | heading => exact title?_run _
    rw [Reader.readBlock, Reader.readHeading, htitle]
    cases title with
    | none => exact hreject _ _
    | some title =>
      dsimp only
      rw [if_pos (by rw [h.sameSettings]; exact isDeep)]
      exact hreject _ _

theorem Framed.of_report {read : Reader → Except Stopped Reader} (h : Framed read) (r : Reader)
    (d : Diagnostic) {r' : Reader} (hread : read (r.report d) = .ok r') :
    ∃ r'', read r = .ok r'' ∧ r''.counter = r'.counter ∧
      { r''.spec with diagnostics := [] } = { r'.spec with diagnostics := [] } ∧
      ∃ later, r'.spec.diagnostics = r.spec.diagnostics ++ d :: later ∧
        r''.spec.diagnostics = r.spec.diagnostics ++ later := by
  let silent : Reader := { r with spec := { r.spec with diagnostics := [] } }
  have hr : r = silent.withEarlier r.spec.diagnostics := r.eq_withEarlier
  have hreport : r.report d = silent.withEarlier (r.spec.diagnostics ++ [d]) := by
    simp [report, silent, withEarlier]
  rw [hreport, h] at hread
  cases hsilent : read silent with
  | error stopped =>
    rw [hsilent] at hread
    cases hread
  | ok end' =>
    rw [hsilent] at hread
    cases hread
    refine ⟨end'.withEarlier r.spec.diagnostics, ?_, rfl, rfl, end'.spec.diagnostics, ?_, rfl⟩
    · have hread := h r.spec.diagnostics silent
      rwa [← hr, hsilent] at hread
    · simp [withEarlier]

end Reader

variable {before after : List Document} {b : Block} {blocks : List Block}

/-- A rejected block is isolated: without it, wherever it stands, the documents are read as the same
but for one report. -/
theorem read_of_removes (h : ∀ x ∈ before ++ d :: after, x.WellFormed)
    (hremoves : b.Removes d.blocks blocks) (hrejected : Rejected settings b)
    (counter : BookmarkCounter) :
    ∃ s s' counter', read (before ++ d :: after) settings counter = .ok (s, counter') ∧
      read (before ++ { d with blocks } :: after) settings counter = .ok (s', counter') ∧
      s'.sections = s.sections ∧ s'.fragments = s.fragments ∧ s'.grammar = s.grammar ∧
      s'.texts = s.texts ∧
      ∃ earlier report later, s.diagnostics = earlier ++ report :: later ∧
        s'.diagnostics = earlier ++ later := by
  obtain ⟨blocksBefore, blocksAfter, hwalk, hwalk'⟩ := hremoves.walk_all
  rw [hrejected.walk, List.append_assoc, List.singleton_append] at hwalk
  have hd : d ∈ before ++ d :: after := by simp
  have hb : b ∈ d.walk := by
    rw [Document.walk, hwalk]
    simp
  -- the reading comes to the block in the same state in both cases
  have hstart := Reader.Sound.start settings (before ++ d :: after) counter
  obtain ⟨r, hr, hsound⟩ := hstart.readDocuments
    fun x (hx : x ∈ before) => ⟨List.mem_append_left _ hx, h x (List.mem_append_left _ hx)⟩
  have hstep : ∀ r : Reader, r.Sound settings (before ++ d :: after) → ∀ x ∈ blocksBefore,
      ∃ r', Reader.readBlock d r x = .ok r' ∧ r'.Sound settings (before ++ d :: after) :=
    fun _ hr x hx => hr.readBlock hd (h d hd) (by rw [Document.walk, hwalk]; simp [hx])
  obtain ⟨r', hr', hsound'⟩ := Reader.foldlM_eq_ok
    (a := { r with spec := { r.spec with texts := putText d.filename d.text r.spec.texts } })
    hstep (hsound.of_eq rfl rfl rfl rfl)
  obtain ⟨report, hreport⟩ := hsound'.readBlock_of_rejected (h d hd) hb hrejected
  have hsplit : ∀ bs tail, Block.walk.all bs = blocksBefore ++ tail →
      (before ++ { d with blocks := bs } :: after).foldlM Reader.readDocument
        (Reader.start settings counter) =
      tail.foldlM (Reader.readBlock d) r' >>= fun r => after.foldlM Reader.readDocument r := by
    intro bs tail hbs
    have hdocument : r.readDocument { d with blocks := bs } =
        tail.foldlM (Reader.readBlock d) r' := by
      rw [Reader.readDocument, Document.walk, hbs, List.foldlM_append]
      exact congrArg (· >>= fun r => tail.foldlM (Reader.readBlock d) r) hr'
    rw [List.foldlM_append, hr]
    exact (List.foldlM_cons ..).trans (congrArg (· >>= _) hdocument)
  have hrest : Reader.Framed fun r => blocksAfter.foldlM (Reader.readBlock d) r >>= fun r =>
      after.foldlM Reader.readDocument r :=
    (Reader.Framed.foldlM (Reader.framed_readBlock d) blocksAfter).bind
      (Reader.Framed.foldlM Reader.framed_readDocument after)
  have hwith := hsplit d.blocks (b :: blocksAfter) hwalk
  have hwithout := hsplit blocks blocksAfter hwalk'
  rw [List.foldlM_cons, hreport] at hwith
  obtain ⟨s, hs, -⟩ := (Reader.Sound.start settings (before ++ d :: after) counter).readDocuments
    fun x hx => ⟨hx, h x hx⟩
  obtain ⟨s', hs', hcounter, hspec, later, hlater, hlater'⟩ :=
    hrest.of_report r' report (hwith.symm.trans hs)
  refine ⟨s.spec, s'.spec, s.counter, ?_, ?_, ?_⟩
  · rw [read, hs]
    rfl
  · rw [read, hwithout, hs', ← hcounter]
    rfl
  · simp only [Spec.mk.injEq] at hspec
    exact ⟨hspec.2.1, hspec.2.2.1, hspec.1, hspec.2.2.2.2, _, _, _, hlater, hlater'⟩

theorem read_of_removes_in_list :
    ∃ (d : Document) (b : Block) (blocks : List Block),
      d.blocks = [.heading 1 (.run [.text ['A']]),
        .list false [[.thematicBreak], [.code "a:".toList (some "antlr".toList), .quote []]],
        .code "b:c;".toList (some "antlr".toList)] ∧
      blocks = [.heading 1 (.run [.text ['A']]), .list false [[.thematicBreak], [.quote []]],
        .code "b:c;".toList (some "antlr".toList)] ∧
      (∀ x ∈ [] ++ d :: [], x.WellFormed) ∧ b.Removes d.blocks blocks ∧ Rejected {} b ∧
      ∃ s s' counter', read ([] ++ d :: []) {} {} = .ok (s, counter') ∧
        read ([] ++ { d with blocks } :: []) {} {} = .ok (s', counter') ∧
        s'.sections = s.sections ∧ s'.fragments = s.fragments ∧ s'.grammar = s.grammar ∧
        s'.texts = s.texts ∧
        ∃ earlier report later, s.diagnostics = earlier ++ report :: later ∧
          s'.diagnostics = earlier ++ later := by
  let code : Block := .code "a:".toList (some "antlr".toList)
  let first : Block := .heading 1 (.run [.text ['A']])
  let last : Block := .code "b:c;".toList (some "antlr".toList)
  have hrejected : Rejected {} code := by
    have hfails : Grammar.ofText [] [] "a:".toList =
        .error ⟨[], ⟨1, 3⟩, none, .expectedAtom none⟩ := by with_unfolding_all rfl
    exact .code rfl hfails
  have hfirst : first.WellFormed := .heading (by decide) (by simp [Inline.WellFormed.text])
  have hitems : ∀ item ∈ [[Block.thematicBreak], [code, .quote []]], ∀ block ∈ item,
      block.WellFormed := by
    simp [code, Block.WellFormed.thematicBreak, Block.WellFormed.code, Block.WellFormed.quote]
  have hwellFormed : ∀ x ∈ [] ++ (⟨[], [],
      [first, .list false [[.thematicBreak], [code, .quote []]], last]⟩ : Document) :: [],
      x.WellFormed := by
    simpa [Document.WellFormed, last, hfirst, Block.WellFormed.code] using
      Block.WellFormed.list hitems
  have hremoves : code.Removes [first, .list false [[.thematicBreak], [code, .quote []]], last]
      [first, .list false [[.thematicBreak], [.quote []]], last] :=
    .later (@Block.Removes.list _ _ [[.thematicBreak]] _ _ _ _ .here)
  exact ⟨_, code, _, rfl, rfl, hwellFormed, hremoves, hrejected,
    read_of_removes hwellFormed hremoves hrejected {}⟩

end Spec

end GrammarCheck
