import GrammarCheck.Proofs.Grammar.Differences
import GrammarCheck.Proofs.Spec.Gathering

namespace GrammarCheck.Spec

variable {settings : Settings} {blocks : List (Document × Block)} {s : Spec} {d : Document}
  {block : Block}

def isHeading : Block → Bool
  | .heading _ _ => true
  | _ => false

def isBadGrammar (settings : Settings) (d : Document) : Block → Bool
  | .code code language =>
    (language.getD []).trim = settings.language &&
      (grammarOf? settings d (.code code language)).isNone
  | _ => false

def reported (s : Spec) (code : Diagnostic.Code) : Nat :=
  (s.diagnostics.map (·.code)).count code

def readerCodes : List Diagnostic.Code :=
  [.grammarSyntax, .duplicateProduction, .duplicateSection, .unsupportedHeading, .headingTooDeep]

structure Reported (settings : Settings) (blocks : List (Document × Block)) (s : Spec) : Prop where
  grammars : s.reported .grammarSyntax =
    blocks.countP fun x => isBadGrammar settings x.1 x.2
  names : s.reported .duplicateProduction + s.grammar.distinctNames.length =
    s.grammar.ruleNames.length
  links : s.reported .duplicateSection + (s.sections.map (·.url)).eraseDups.length =
    s.sections.length
  headings : s.reported .unsupportedHeading + s.reported .headingTooDeep + s.sections.length =
    blocks.countP fun x => isHeading x.2
  codes : ∀ report ∈ s.diagnostics, report.code ∈ readerCodes

theorem repeats_add_length_eraseDups (known names : List Text) :
    repeats known names + (known ++ names).eraseDups.length =
      known.eraseDups.length + names.length := by
  induction names generalizing known with
  | nil => simp [repeats]
  | cons name names ih =>
    have hnext := ih (known ++ [name])
    rw [List.append_assoc, List.singleton_append, eraseDups_concat] at hnext
    by_cases h : name ∈ known
    · rw [if_pos h] at hnext
      rw [repeats, if_pos (List.contains_iff_mem.2 h), List.length_cons]
      omega
    · rw [if_neg h, List.length_append, List.length_singleton] at hnext
      rw [repeats, if_neg (mt List.contains_iff_mem.1 h), List.length_cons]
      omega

theorem Reported.concat {s' : Spec} {codes : List Diagnostic.Code} (h : Reported settings blocks s)
    (hreports : s'.diagnostics.map (·.code) = s.diagnostics.map (·.code) ++ codes)
    (hgrammars : codes.count .grammarSyntax = if isBadGrammar settings d block then 1 else 0)
    (hnames : codes.count .duplicateProduction + s'.grammar.distinctNames.length +
      s.grammar.ruleNames.length = s.grammar.distinctNames.length + s'.grammar.ruleNames.length)
    (hlinks : codes.count .duplicateSection + (s'.sections.map (·.url)).eraseDups.length +
      s.sections.length = (s.sections.map (·.url)).eraseDups.length + s'.sections.length)
    (hheadings : codes.count .unsupportedHeading + codes.count .headingTooDeep +
      s'.sections.length = s.sections.length + if isHeading block then 1 else 0)
    (hcodes : ∀ code ∈ codes, code ∈ readerCodes) :
    Reported settings (blocks ++ [(d, block)]) s' := by
  have hreported : ∀ code, s'.reported code = s.reported code + codes.count code := by
    intro code
    rw [reported, hreports, List.count_append, reported]
  have hnames' := h.names
  have hlinks' := h.links
  refine ⟨?_, ?_, ?_, ?_, ?_⟩
  · rw [hreported, h.grammars, hgrammars, List.countP_append, List.countP_singleton]
  · rw [hreported]
    omega
  · rw [hreported]
    omega
  · rw [hreported, hreported, List.countP_append, List.countP_singleton, ← h.headings]
    dsimp only
    omega
  · intro report hreport
    have hmem := List.mem_map_of_mem (f := (·.code)) hreport
    rw [hreports] at hmem
    obtain hmem | hmem := List.mem_append.1 hmem
    · obtain ⟨report', hreport', heq⟩ := List.mem_map.1 hmem
      exact heq ▸ h.codes report' hreport'
    · exact hcodes _ hmem

namespace Reader

variable {r r' : Reader}

structure Accounted (settings : Settings) (blocks : List (Document × Block)) (r : Reader) :
    Prop where
  sameSettings : r.settings = settings
  spec : Reported settings blocks r.spec

theorem Accounted.start (settings : Settings) (counter : BookmarkCounter) :
    (start settings counter).Accounted settings [] :=
  ⟨rfl, rfl, rfl, rfl, rfl, fun _ h => absurd h List.not_mem_nil⟩

theorem any_url_eq_iff (sections : List Section) (link : Text) :
    sections.any (·.url == link) = true ↔ link ∈ sections.map (·.url) := by
  rw [List.any_eq_true, List.mem_map]
  simp

theorem isBadGrammar_code {code : Text} {language : Option Text}
    (hlanguage : (language.getD []).trim = settings.language) (d : Document) :
    isBadGrammar settings d (.code code language) =
      (grammarOf? settings d (.code code language)).isNone := by
  rw [isBadGrammar, decide_eq_true hlanguage, Bool.true_and]

theorem Accounted.step (h : r.Accounted settings blocks) (hstep : Step d r block r') :
    r'.Accounted settings (blocks ++ [(d, block)]) := by
  have hsettings := h.sameSettings
  cases hstep with
  | passed isPassed isForeign =>
    have hheading : isHeading block = false := by
      cases block with
      | heading level content => exact absurd rfl (isPassed level content)
      | paragraph | code | quote | list | table | thematicBreak | other => rfl
    have hgrammar : isBadGrammar settings d block = false := by
      cases block with
      | code code language => simp [isBadGrammar, hsettings ▸ isForeign code language rfl]
      | heading | paragraph | quote | list | table | thematicBreak | other => rfl
    refine ⟨hsettings, h.spec.concat (List.append_nil _).symm ?_ ?_ ?_ ?_ nofun⟩
    · simp [hgrammar]
    · simp
    · simp
    · simp [hheading]
  | untitled | tooDeep =>
    refine ⟨hsettings, h.spec.concat List.map_append ?_ ?_ ?_ ?_ ?_⟩
    all_goals simp [isBadGrammar, isHeading, readerCodes, report, Nat.add_comm]
  | @counted level content title numbers reports _ _ _ hreported =>
    simp only [any_url_eq_iff] at hreported
    refine ⟨hsettings, h.spec.concat (List.map_append.trans (congrArg _ hreported)) ?_ ?_ ?_ ?_ ?_⟩
    · split <;> rfl
    · split <;> simp [withSection]
    · have hrepeats := repeats_add_length_eraseDups (r.spec.sections.map (·.url))
        [url d.filename title]
      have hurl : (r.recorded d level title numbers).url = url d.filename title := rfl
      simp only [repeats, List.contains_iff_mem, List.length_singleton] at hrepeats
      rw [withSection, List.map_append, List.map_singleton, hurl, List.length_append,
        List.length_singleton]
      split at hrepeats
      · rename_i hknown
        rw [if_pos hknown, List.count_singleton_self]
        omega
      · rename_i hnew
        rw [if_neg hnew, List.count_nil]
        omega
    · split <;> simp [withSection, isHeading]
    · split <;> simp [readerCodes]
  | dropped isGrammar fails =>
    refine ⟨hsettings, h.spec.concat List.map_append ?_ ?_ ?_ ?_ ?_⟩
    · rw [isBadGrammar_code (hsettings ▸ isGrammar), grammarOf?_code (hsettings ▸ isGrammar), fails]
      rfl
    all_goals simp [isHeading, readerCodes, report]
  | @parsed code language g reports isGrammar parses hreported =>
    refine ⟨hsettings, h.spec.concat (List.map_append.trans (congrArg _ hreported)) ?_ ?_ ?_ ?_ ?_⟩
    · rw [isBadGrammar_code (hsettings ▸ isGrammar), grammarOf?_code (hsettings ▸ isGrammar),
        parses, List.count_replicate]
      rfl
    · have hrepeats := repeats_add_length_eraseDups r.spec.grammar.ruleNames g.ruleNames
      rw [List.count_replicate_self, Grammar.distinctNames, Grammar.distinctNames,
        ruleNames_withFragment, List.length_append]
      omega
    · simp [withFragment, List.count_replicate]
    · simp [withFragment, List.count_replicate, isHeading]
    · simp [readerCodes, List.mem_replicate]

end Reader

theorem read_reported (documents : List Document) (settings : Settings)
    (counter : BookmarkCounter) :
    ((∀ d ∈ documents, d.WellFormed) →
      ∃ s counter', read documents settings counter = .ok (s, counter')) ∧
    ∀ s counter', read documents settings counter = .ok (s, counter') →
      Reported settings (walk documents) s := by
  refine ⟨fun h => exists_read_eq_ok h settings counter, ?_⟩
  intro s counter' hread
  obtain ⟨r, rfl, -, hr⟩ := read_keeps (fun blocks r => r.Accounted settings blocks)
    (Reader.Accounted.start settings counter)
    (fun _ _ _ h => ⟨h.sameSettings, h.spec.grammars, h.spec.names, h.spec.links, h.spec.headings,
      h.spec.codes⟩)
    (fun _ _ _ _ _ _ _ hstep h => h.step hstep) hread
  exact hr.spec

theorem read_reported_every_code :
    ∃ documents : List Document, documents.map (·.blocks) =
      [[.heading 1 (.run [.text ['A']]), .heading 1 (.run [.text ['A'], .code ['B']]),
          .heading 9 (.run [.text ['C']]),
          .quote [.code "a:b;a:c;".toList (some "antlr".toList)],
          .code "a:(;".toList (some "antlr".toList)],
        [.heading 2 (.run [.text ['A']]), .code "b:c;a:d;".toList (some "antlr".toList)]] ∧
      (∀ d ∈ documents, d.WellFormed) ∧
      ∃ s counter', read documents {} {} = .ok (s, counter') ∧
        s.diagnostics.map (·.code) = [.unsupportedHeading, .headingTooDeep, .duplicateProduction,
          .grammarSyntax, .duplicateSection, .duplicateProduction] ∧
        Reported {} (walk documents) s := by
  let documents : List Document :=
    [⟨['x'], [], [.heading 1 (.run [.text ['A']]), .heading 1 (.run [.text ['A'], .code ['B']]),
        .heading 9 (.run [.text ['C']]), .quote [.code "a:b;a:c;".toList (some "antlr".toList)],
        .code "a:(;".toList (some "antlr".toList)]⟩,
      ⟨['x'], [], [.heading 2 (.run [.text ['A']]),
        .code "b:c;a:d;".toList (some "antlr".toList)]⟩]
  have hwellFormed : ∀ d ∈ documents, d.WellFormed := by
    simp [documents, Document.WellFormed, Block.WellFormed.heading, Block.WellFormed.quote,
      Block.WellFormed.code, Inline.WellFormed.text, Inline.WellFormed.code]
  have hrun : (read documents {} {}).toOption.map (fun result =>
      result.1.diagnostics.map (·.code)) = some [.unsupportedHeading, .headingTooDeep,
        .duplicateProduction, .grammarSyntax, .duplicateSection, .duplicateProduction] := by
    decide +kernel
  obtain ⟨hreturns, hreported⟩ := read_reported documents {} {}
  obtain ⟨s, counter', hread⟩ := hreturns hwellFormed
  rw [hread] at hrun
  exact ⟨documents, rfl, hwellFormed, s, counter', hread, Option.some.inj hrun,
    hreported s counter' hread⟩

end GrammarCheck.Spec
