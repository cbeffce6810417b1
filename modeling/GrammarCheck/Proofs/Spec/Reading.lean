import GrammarCheck.Proofs.Document.WellFormed
import GrammarCheck.Spec.Reader

namespace GrammarCheck

theorem Location.find_eq_ok (filename t : Text) (target : Option SectionTarget)
    (paragraph : Option Block) (h : ∀ block ∈ paragraph, ∃ ws, block.words = .ok ws) :
    ∃ location, find filename t target paragraph none = .ok location ∧
      location.filename = filename := by
  have hscope : ∀ scope : Scope, (scope.location filename t).filename = filename := by
    intro scope
    unfold Scope.location
    split
    · rfl
    · dsimp only
      split <;> rfl
  cases paragraph with
  | none => exact ⟨_, rfl, hscope _⟩
  | some block =>
    obtain ⟨ws, hws⟩ := h block rfl
    refine ⟨_, ?_, hscope (((Scope.whole t).narrowHeading target).narrow .paragraph
      (((Scope.whole t).narrowHeading target).buffer.findParagraph ws))⟩
    simp only [find, Scope.narrowParagraph, hws]
    rfl

namespace Spec

variable {settings : Settings} {documents : List Document} {d : Document} {r : Reader}

theorem eq_ok_of_toOption {α ε : Type} {x : Except ε α} {a : α} (h : x.toOption = some a) :
    x = .ok a := by
  cases x with
  | error e => cases h
  | ok b => exact congrArg Except.ok (Option.some.inj h)

def Defines (settings : Settings) (d : Document) (name : Text) : Prop :=
  ∃ code language source g, .code code language ∈ d.walk ∧
    (language.getD []).trim = settings.language ∧ Grammar.ofText source [] code = .ok g ∧
    name ∈ g.ruleNames

def linkTo (within : Option Section) (p : Production) : Production :=
  { p with
    link := some ((within.map (·.url)).getD [])
    linkName := some ((within.map (·.title)).getD []) }

@[simp] theorem name_linkTo (within : Option Section) (p : Production) :
    (linkTo within p).name = p.name := rfl

@[simp] theorem print_linkTo (within : Option Section) (p : Production) (newline : Text) :
    (linkTo within p).print newline = p.print newline := rfl

/-- How many of these names are known before they come. -/
def repeats (known : List Text) : List Text → Nat
  | [] => 0
  | name :: names => (if known.contains name then 1 else 0) + repeats (known ++ [name]) names

theorem repeats_append (known names names' : List Text) :
    repeats known (names ++ names') = repeats known names + repeats (known ++ names) names' := by
  induction names generalizing known with
  | nil => simp [repeats]
  | cons name names ih => simp [repeats, ih, Nat.add_assoc]

namespace Reader

def recorded (r : Reader) (d : Document) (level : Int) (title : Text) (numbers : List Nat) :
    Section :=
  ⟨numberText level numbers, title, level, url d.filename title,
    (r.counter.next sectionSeries).1, d.filename⟩

def withSection (r : Reader) (numbers : List Nat) (recorded : Section)
    (reports : List Diagnostic) : Reader :=
  { r with
    counter := (r.counter.next sectionSeries).2
    numbers
    current := some recorded
    spec := { r.spec with
      sections := r.spec.sections ++ [recorded]
      diagnostics := r.spec.diagnostics ++ reports } }

def gathered (r : Reader) (d : Document) (code : Text) (language : Option Text) (g : Grammar) :
    Fragment :=
  ⟨code, language, g.ruleNames, (r.counter.next grammarSeries).1, d.filename, r.current⟩

def withFragment (r : Reader) (gathered : Fragment) (ps : List Production)
    (reports : List Diagnostic) : Reader :=
  { r with
    counter := (r.counter.next grammarSeries).2
    spec := { r.spec with
      grammar := { r.spec.grammar with
        productions := r.spec.grammar.productions ++ ps.map (linkTo r.current) }
      fragments := r.spec.fragments ++ [gathered]
      diagnostics := r.spec.diagnostics ++ reports } }

@[simp] theorem ruleNames_withFragment (r : Reader) (gathered : Fragment) (g : Grammar)
    (reports : List Diagnostic) :
    (r.withFragment gathered g.productions reports).spec.grammar.ruleNames =
      r.spec.grammar.ruleNames ++ g.ruleNames := by
  simp [withFragment, Grammar.ruleNames, List.filterMap_map, Function.comp_def]

structure Sound (settings : Settings) (documents : List Document) (r : Reader) : Prop where
  sameSettings : r.settings = settings
  counters : r.numbers.length = settings.maxHeadingLevel.toNat
  fragments : ∀ f ∈ r.spec.fragments, ∃ d ∈ documents, d.filename = f.filename ∧
    ∀ name ∈ f.names, Defines settings d name
  rules : ∀ name ∈ r.spec.grammar.ruleNames, ∃ f ∈ r.spec.fragments, name ∈ f.names

theorem Sound.start (settings : Settings) (documents : List Document) (counter : BookmarkCounter) :
    (start settings counter).Sound settings documents where
  sameSettings := rfl
  counters := by simp [Reader.start]
  fragments := by simp [Reader.start]
  rules := by simp [Reader.start, Grammar.ruleNames]

theorem Sound.of_eq {r' : Reader} (h : r.Sound settings documents)
    (hsettings : r'.settings = r.settings) (hnumbers : r'.numbers.length = r.numbers.length)
    (hfragments : r'.spec.fragments = r.spec.fragments)
    (hgrammar : r'.spec.grammar = r.spec.grammar) : r'.Sound settings documents where
  sameSettings := hsettings.trans h.sameSettings
  counters := hnumbers.trans h.counters
  fragments := by
    rw [hfragments]
    exact h.fragments
  rules := by
    rw [hfragments, hgrammar]
    exact h.rules

theorem locate_eq_ok (r : Reader) (d : Document) (target : Option SectionTarget)
    (paragraph : Option Block) (h : ∀ block ∈ paragraph, ∃ ws, block.words = .ok ws) :
    ∃ location, r.locate d target paragraph = .ok location := by
  obtain ⟨location, hfind, -⟩ := Location.find_eq_ok d.filename d.text target paragraph h
  refine ⟨location, ?_⟩
  rw [locate, hfind]
  rfl

theorem reject_eq_ok (r : Reader) (d : Document) {block : Block} (h : ∃ ws, block.words = .ok ws)
    (code : Diagnostic.Code) (message : Text) :
    ∃ location, r.reject d block code message =
      .ok (r.report ⟨code, .error, message, some location, []⟩) := by
  obtain ⟨location, hlocate⟩ := r.locate_eq_ok d none (some block) (by simpa using h)
  refine ⟨location, ?_⟩
  rw [reject, hlocate]
  rfl

theorem bump?_eq_some {level : Int} {numbers : List Nat} (hlevel : 1 ≤ level)
    (hdepth : level ≤ numbers.length) :
    ∃ numbers', bump? level numbers = some numbers' ∧ numbers'.length = numbers.length := by
  have hlen : (numbers.drop (level.toNat - 1)).length = numbers.length - (level.toNat - 1) :=
    List.length_drop
  cases hdrop : numbers.drop (level.toNat - 1) with
  | nil =>
    rw [hdrop, List.length_nil] at hlen
    omega
  | cons n deeper =>
    refine ⟨numbers.take (level.toNat - 1) ++ (n + 1) :: deeper.map fun _ => 0, ?_, ?_⟩
    · rw [bump?, if_pos hlevel, hdrop]
    · rw [hdrop, List.length_cons] at hlen
      simp only [List.length_append, List.length_take, List.length_cons, List.length_map]
      omega

theorem addSection_eq_ok (r : Reader) (d : Document) (level : Int) (title : Text)
    (numbers : List Nat) :
    ∃ reports : List Diagnostic, reports.map (·.code) =
        (if r.spec.sections.any (·.url == url d.filename title) then [.duplicateSection] else []) ∧
      addSection { r with numbers } d level title =
        .ok (r.withSection numbers (r.recorded d level title numbers) reports) := by
  unfold addSection
  dsimp only
  split
  · obtain ⟨location, hlocate⟩ :=
      locate_eq_ok { r with numbers, counter := (r.counter.next sectionSeries).2 } d
        (some (r.recorded d level title numbers).target) none (by simp)
    rw [recorded] at hlocate
    rw [hlocate]
    exact ⟨[_], rfl, rfl⟩
  · exact ⟨[], rfl, by simp [withSection, recorded, pure, Except.pure, bind, Except.bind]⟩

theorem title?_run (content : List Inline) : ∃ title, (Inline.run content).title? = .ok title := by
  unfold Inline.title?
  split
  · exact ⟨_, rfl⟩
  · exact ⟨_, rfl⟩
  · exact ⟨none, rfl⟩

theorem Sound.readHeading (h : r.Sound settings documents) {level : Int} {content : List Inline}
    (hlevel : 1 ≤ level) (hcontent : ∀ item ∈ content, item.WellFormed) (d : Document) :
    ∃ r', r.readHeading d level (.run content) = .ok r' ∧ r'.Sound settings documents := by
  have hwords : ∃ ws, (Block.heading level (.run content)).words = .ok ws := by
    rw [Block.words, Inline.words]
    exact Inline.words_all_eq_ok fun item hitem => (hcontent item hitem).words_eq_ok
  have hreject : ∀ code message, ∃ r', r.reject d (.heading level (.run content)) code message =
      .ok r' ∧ r'.Sound settings documents := by
    intro code message
    obtain ⟨location, hreject⟩ := r.reject_eq_ok d hwords code message
    exact ⟨_, hreject, h.of_eq rfl rfl rfl rfl⟩
  obtain ⟨title, htitle⟩ := title?_run content
  rw [Reader.readHeading, htitle]
  cases title with
  | none => exact hreject _ _
  | some title =>
    dsimp only
    split
    · exact hreject _ _
    · rename_i hdepth
      have hnumbers : level ≤ r.numbers.length := by
        rw [h.counters, ← h.sameSettings]
        omega
      obtain ⟨numbers, hbump, hlen⟩ := bump?_eq_some hlevel hnumbers
      rw [hbump]
      obtain ⟨reports, -, hadd⟩ := r.addSection_eq_ok d level title numbers
      exact ⟨_, hadd, h.of_eq rfl hlen rfl rfl⟩

theorem addProduction_eq (location : Location) (r : Reader) (p : Production) :
    ∃ reports : List Diagnostic, reports.map (·.code) =
        List.replicate (repeats r.spec.grammar.ruleNames p.name.toList) .duplicateProduction ∧
      addProduction location r p = { r with spec := { r.spec with
        grammar := { r.spec.grammar with
          productions := r.spec.grammar.productions ++ [linkTo r.current p] }
        diagnostics := r.spec.diagnostics ++ reports } } := by
  unfold addProduction
  cases hname : p.name with
  | none => exact ⟨[], rfl, by rw [List.append_nil]; rfl⟩
  | some name =>
    by_cases hknown : name ∈ r.spec.grammar.ruleNames
    · refine ⟨[_], ?_, by simp only [List.contains_iff_mem.2 hknown, if_true]; rfl⟩
      simp [repeats, hknown]
    · refine ⟨[], by simp [repeats, hknown], ?_⟩
      rw [List.append_nil]
      simp only [List.contains_eq_mem, hknown, decide_false, Bool.false_eq_true, if_false]
      rfl

theorem foldl_addProduction_eq (location : Location) (ps : List Production) (r : Reader) :
    ∃ reports : List Diagnostic, reports.map (·.code) =
        List.replicate (repeats r.spec.grammar.ruleNames (ps.filterMap (·.name)))
          .duplicateProduction ∧
      ps.foldl (addProduction location) r = { r with spec := { r.spec with
        grammar := { r.spec.grammar with
          productions := r.spec.grammar.productions ++ ps.map (linkTo r.current) }
        diagnostics := r.spec.diagnostics ++ reports } } := by
  induction ps generalizing r with
  | nil => exact ⟨[], rfl, by simp⟩
  | cons p ps ih =>
    obtain ⟨reports, hreports, hadd⟩ := addProduction_eq location r p
    obtain ⟨reports', hreports', hfold⟩ := ih (addProduction location r p)
    have hnames : (addProduction location r p).spec.grammar.ruleNames =
        r.spec.grammar.ruleNames ++ p.name.toList := by
      rw [hadd]
      cases hname : p.name <;> simp [Grammar.ruleNames, hname]
    have hcons : (p :: ps).filterMap (·.name) = p.name.toList ++ ps.filterMap (·.name) := by
      cases hname : p.name <;> simp [hname]
    refine ⟨reports ++ reports', ?_, ?_⟩
    · rw [List.map_append, hreports, hreports', hnames, List.replicate_append_replicate,
        ← repeats_append, hcons]
    · rw [List.foldl_cons, hfold, hadd]
      simp

theorem addFragment_eq (r : Reader) (d : Document) (code : Text) (language : Option Text)
    (location : Location) (g : Grammar) :
    ∃ reports : List Diagnostic, reports.map (·.code) =
        List.replicate (repeats r.spec.grammar.ruleNames g.ruleNames) .duplicateProduction ∧
      r.addFragment d code language location g =
        r.withFragment (r.gathered d code language g) g.productions reports :=
  foldl_addProduction_eq location g.productions { r with
    counter := (r.counter.next grammarSeries).2
    spec := { r.spec with fragments := r.spec.fragments ++ [r.gathered d code language g] } }

theorem Sound.addFragment (h : r.Sound settings documents) (hd : d ∈ documents) {code : Text}
    {language : Option Text} {g : Grammar}
    (hdefines : ∀ name ∈ g.ruleNames, Defines settings d name) (location : Location) :
    (r.addFragment d code language location g).Sound settings documents := by
  obtain ⟨reports, -, hadd⟩ := r.addFragment_eq d code language location g
  rw [hadd]
  refine ⟨h.sameSettings, h.counters, ?_, ?_⟩
  · intro f hf
    obtain hf | hf := List.mem_append.1 hf
    · exact h.fragments f hf
    · obtain rfl := List.mem_singleton.1 hf
      exact ⟨d, hd, rfl, hdefines⟩
  · intro name hname
    rw [ruleNames_withFragment] at hname
    obtain hname | hname := List.mem_append.1 hname
    · obtain ⟨f, hf, hmem⟩ := h.rules name hname
      exact ⟨f, List.mem_append_left _ hf, hmem⟩
    · exact ⟨_, List.mem_append_right _ (List.mem_singleton_self _), hname⟩

theorem Sound.readCode (h : r.Sound settings documents) (hd : d ∈ documents) {code : Text}
    {language : Option Text} (hmem : .code code language ∈ d.walk) :
    ∃ r', r.readCode d code language = .ok r' ∧ r'.Sound settings documents := by
  unfold Reader.readCode
  split
  · exact ⟨r, rfl, h⟩
  · rename_i hlanguage
    have hlanguage : (language.getD []).trim = settings.language := by
      rw [← h.sameSettings]
      simpa using hlanguage
    obtain ⟨location, hlocate⟩ := r.locate_eq_ok d (r.current.map (·.target))
      (some (.code code language)) (by simp [Block.words])
    simp only [hlocate, bind, Except.bind]
    split
    · exact ⟨_, rfl, h.of_eq rfl rfl rfl rfl⟩
    · rename_i g hg
      exact ⟨_, rfl, h.addFragment hd (fun name hname =>
        ⟨code, language, _, g, hmem, hlanguage, hg, hname⟩) location⟩

theorem Sound.readBlock (h : r.Sound settings documents) (hd : d ∈ documents)
    (hdoc : d.WellFormed) {block : Block} (hblock : block ∈ d.walk) :
    ∃ r', readBlock d r block = .ok r' ∧ r'.Sound settings documents := by
  cases hdoc.of_mem_walk hblock with
  | heading isLevel areWellFormed => exact h.readHeading isLevel areWellFormed d
  | code => exact h.readCode hd hblock
  | paragraph | quote | list | table | thematicBreak => exact ⟨r, rfl, h⟩

theorem foldlM_eq_ok {α β ε : Type} {f : α → β → Except ε α} {xs : List β} {Inv : α → Prop}
    (hstep : ∀ a, Inv a → ∀ x ∈ xs, ∃ a', f a x = .ok a' ∧ Inv a') {a : α} (h : Inv a) :
    ∃ a', xs.foldlM f a = .ok a' ∧ Inv a' := by
  induction xs generalizing a with
  | nil => exact ⟨a, rfl, h⟩
  | cons x xs ih =>
    obtain ⟨a', hx, h'⟩ := hstep a h x List.mem_cons_self
    rw [List.foldlM_cons, hx]
    exact ih (fun a ha y hy => hstep a ha y (List.mem_cons_of_mem x hy)) h'

theorem Sound.readDocument (h : r.Sound settings documents) (hd : d ∈ documents)
    (hdoc : d.WellFormed) : ∃ r', r.readDocument d = .ok r' ∧ r'.Sound settings documents :=
  foldlM_eq_ok (fun _ hr _ hblock => hr.readBlock hd hdoc hblock) (h.of_eq rfl rfl rfl rfl)

theorem Sound.readDocuments (h : r.Sound settings documents) {ds : List Document}
    (hds : ∀ d ∈ ds, d ∈ documents ∧ d.WellFormed) :
    ∃ r', ds.foldlM Reader.readDocument r = .ok r' ∧ r'.Sound settings documents :=
  foldlM_eq_ok (fun _ hr d hd => hr.readDocument (hds d hd).1 (hds d hd).2) h

end Reader

theorem read_eq_ok (h : ∀ d ∈ documents, d.WellFormed) (settings : Settings)
    (counter : BookmarkCounter) :
    ∃ r : Reader, read documents settings counter = .ok (r.spec, r.counter) ∧
      r.Sound settings documents := by
  obtain ⟨r, hread, hr⟩ := (Reader.Sound.start settings documents counter).readDocuments
    fun d hd => ⟨hd, h d hd⟩
  refine ⟨r, ?_, hr⟩
  rw [read, hread]
  rfl

theorem exists_read_eq_ok (h : ∀ d ∈ documents, d.WellFormed) (settings : Settings)
    (counter : BookmarkCounter) :
    ∃ s counter', read documents settings counter = .ok (s, counter') := by
  obtain ⟨r, hread, -⟩ := read_eq_ok h settings counter
  exact ⟨r.spec, r.counter, hread⟩

end Spec

end GrammarCheck
