import GrammarCheck.Proofs.Spec.Reading

namespace GrammarCheck.Spec

variable {settings : Settings} {documents : List Document} {counter counter' : BookmarkCounter}
  {s : Spec}

namespace Reader

/-- What becomes of a reader that reads a block. Only a heading that is counted touches the counters
and the sections, and only a grammar block that parses touches the fragments and the grammar. -/
inductive Step (d : Document) (r : Reader) : Block → Reader → Prop
  | passed {block : Block} (isPassed : ∀ level content, block ≠ .heading level content)
      (isForeign : ∀ code language, block = .code code language →
        (language.getD []).trim ≠ r.settings.language) : Step d r block r
  | untitled {level : Int} {content : Inline} {message : Text} {location : Location}
      (noTitle : content.title? = .ok none) :
    Step d r (.heading level content)
      (r.report ⟨.unsupportedHeading, .error, message, some location, []⟩)
  | tooDeep {level : Int} {content : Inline} {title message : Text} {location : Location}
      (hasTitle : content.title? = .ok (some title)) (isDeep : r.settings.maxHeadingLevel < level) :
    Step d r (.heading level content)
      (r.report ⟨.headingTooDeep, .error, message, some location, []⟩)
  | counted {level : Int} {content : Inline} {title : Text} {numbers : List Nat}
      {reports : List Diagnostic} (hasTitle : content.title? = .ok (some title))
      (isCounted : level ≤ r.settings.maxHeadingLevel) (counts : bump? level r.numbers = some numbers)
      (reported : reports.map (·.code) =
        if r.spec.sections.any (·.url == url d.filename title) then [.duplicateSection] else []) :
    Step d r (.heading level content)
      (r.withSection numbers (r.recorded d level title numbers) reports)
  | dropped {code : Text} {language : Option Text} {e : SyntaxError} {message : Text}
      {location : Location} (isGrammar : (language.getD []).trim = r.settings.language)
      (fails : Grammar.ofText (Grammar.sourceName (some d.filename) []) [] code = .error e) :
    Step d r (.code code language)
      (r.report ⟨.grammarSyntax, .error, message, some location, []⟩)
  | parsed {code : Text} {language : Option Text} {g : Grammar} {reports : List Diagnostic}
      (isGrammar : (language.getD []).trim = r.settings.language)
      (parses : Grammar.ofText (Grammar.sourceName (some d.filename) []) [] code = .ok g)
      (reported : reports.map (·.code) =
        List.replicate (repeats r.spec.grammar.ruleNames g.ruleNames) .duplicateProduction) :
    Step d r (.code code language)
      (r.withFragment (r.gathered d code language g) g.productions reports)

variable {d : Document} {r r' : Reader}

theorem reject_eq {block : Block} {code : Diagnostic.Code} {message : Text}
    (h : r.reject d block code message = .ok r') :
    ∃ location, r' = r.report ⟨code, .error, message, some location, []⟩ := by
  rw [reject] at h
  cases hlocate : r.locate d none (some block) with
  | error stopped => simp [hlocate, bind, Except.bind] at h
  | ok location =>
    rw [hlocate] at h
    cases h
    exact ⟨location, rfl⟩

theorem step_readHeading {level : Int} {content : Inline}
    (h : r.readHeading d level content = .ok r') : Step d r (.heading level content) r' := by
  unfold readHeading at h
  split at h
  · cases h
  · rename_i htitle
    obtain ⟨location, rfl⟩ := reject_eq h
    exact .untitled htitle
  · rename_i title htitle
    split at h
    · rename_i hdeep
      obtain ⟨location, rfl⟩ := reject_eq h
      exact .tooDeep htitle hdeep
    · rename_i hcounted
      split at h
      · cases h
      · rename_i numbers hbump
        obtain ⟨reports, hreports, hadd⟩ := r.addSection_eq_ok d level title numbers
        obtain rfl := Except.ok.inj (hadd.symm.trans h)
        exact .counted htitle (Int.not_lt.1 hcounted) hbump hreports

theorem step_readCode {code : Text} {language : Option Text}
    (h : r.readCode d code language = .ok r') : Step d r (.code code language) r' := by
  unfold readCode at h
  split at h
  · rename_i hforeign
    cases h
    refine .passed nofun ?_
    rintro _ _ ⟨⟩
    simpa using hforeign
  · rename_i hgrammar
    have hlanguage : (language.getD []).trim = r.settings.language := by simpa using hgrammar
    cases hlocate : r.locate d (r.current.map (·.target)) (some (.code code language)) with
    | error stopped => simp [hlocate, bind, Except.bind] at h
    | ok location =>
      simp only [hlocate, bind, Except.bind] at h
      split at h
      · rename_i e hfails
        cases h
        exact .dropped hlanguage hfails
      · rename_i g hparses
        cases h
        obtain ⟨reports, hreports, hadd⟩ := r.addFragment_eq d code language location g
        rw [hadd]
        exact .parsed hlanguage hparses hreports

theorem step_readBlock {block : Block} (h : readBlock d r block = .ok r') : Step d r block r' := by
  cases block with
  | heading level content => exact step_readHeading h
  | code code language => exact step_readCode h
  | paragraph | quote | list | table | thematicBreak | other =>
    cases h
    exact .passed nofun nofun

end Reader

def walk (documents : List Document) : List (Document × Block) :=
  documents.flatMap fun d => d.walk.map (d, ·)

theorem foldlM_keeps {α β ε : Type} {f : α → β → Except ε α} {xs : List β} {a a' : α}
    (Inv : List β → α → Prop)
    (hstep : ∀ before a x a', x ∈ xs → f a x = .ok a' → Inv before a → Inv (before ++ [x]) a')
    (h : Inv [] a) (hfold : xs.foldlM f a = .ok a') : Inv xs a' := by
  induction xs generalizing a Inv with
  | nil =>
    cases hfold
    exact h
  | cons x xs ih =>
    rw [List.foldlM_cons] at hfold
    cases hx : f a x with
    | error e => simp [hx, bind, Except.bind] at hfold
    | ok b =>
      rw [hx] at hfold
      exact ih (fun ys => Inv (x :: ys))
        (fun before a y a' hy => hstep (x :: before) a y a' (List.mem_cons_of_mem x hy))
        (hstep [] a x b List.mem_cons_self hx h) hfold

theorem Reader.readDocument_keeps {d : Document} {before : List (Document × Block)} {r r' : Reader}
    (Inv : List (Document × Block) → Reader → Prop)
    (htexts : ∀ before r texts, Inv before r → Inv before { r with spec := { r.spec with texts } })
    (hstep : ∀ block ∈ d.walk, ∀ before r r', Step d r block r' → Inv before r →
      Inv (before ++ [(d, block)]) r')
    (hread : r.readDocument d = .ok r') (h : Inv before r) :
    Inv (before ++ d.walk.map (d, ·)) r' := by
  rw [← List.append_nil before] at h
  apply foldlM_keeps (fun blocks r => Inv (before ++ blocks.map (d, ·)) r) _ (htexts _ _ _ h) hread
  intro blocks r block r' hblock hreadBlock hr
  have hnext := hstep block hblock _ r r' (step_readBlock hreadBlock) hr
  rwa [List.append_assoc, ← List.map_singleton, ← List.map_append] at hnext

/-- Carries a property of the blocks read so far and of the reader through a whole reading. -/
theorem read_keeps (Inv : List (Document × Block) → Reader → Prop)
    (hstart : Inv [] (Reader.start settings counter))
    (htexts : ∀ before r texts, Inv before r → Inv before { r with spec := { r.spec with texts } })
    (hstep : ∀ d ∈ documents, ∀ block ∈ d.walk, ∀ before r r', Reader.Step d r block r' →
      Inv before r → Inv (before ++ [(d, block)]) r')
    (hread : read documents settings counter = .ok (s, counter')) :
    ∃ r : Reader, r.spec = s ∧ r.counter = counter' ∧ Inv (walk documents) r := by
  unfold read at hread
  cases hfold : documents.foldlM Reader.readDocument (Reader.start settings counter) with
  | error stopped => simp [hfold, bind, Except.bind] at hread
  | ok r =>
    rw [hfold] at hread
    cases hread
    refine ⟨r, rfl, rfl, ?_⟩
    apply foldlM_keeps (fun ds r => Inv (walk ds) r) _ hstart hfold
    intro before r d r' hd hdocument hr
    rw [walk, List.flatMap_append, List.flatMap_singleton]
    exact Reader.readDocument_keeps Inv htexts (hstep d hd) hdocument hr

end GrammarCheck.Spec
