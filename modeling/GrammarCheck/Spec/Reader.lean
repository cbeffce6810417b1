import GrammarCheck.Grammar.File
import GrammarCheck.Settings.File
import GrammarCheck.Spec.Basic

namespace GrammarCheck

namespace Spec

structure Reader where
  settings : Settings
  counter : BookmarkCounter
  numbers : List Nat
  current : Option Section
  spec : Spec
  deriving Repr

inductive StopReason
  | badNode (node : UnsupportedNode)
  | noCounter
  deriving DecidableEq, Repr

def StopReason.message : StopReason → Text
  | .badNode node => node.message
  | .noCounter => OutOfRange.list.message

structure Stopped where
  reason : StopReason
  counter : BookmarkCounter
  deriving DecidableEq, Repr

namespace Reader

def start (settings : Settings) (counter : BookmarkCounter) : Reader :=
  ⟨settings, counter, List.replicate settings.maxHeadingLevel.toNat 0, none, {}⟩

def report (r : Reader) (d : Diagnostic) : Reader :=
  { r with spec := { r.spec with diagnostics := r.spec.diagnostics ++ [d] } }

/-- Counts a heading: its own counter goes up and all deeper ones start again. A level above the
first starts all of them again. Levels below the deepest counter, or as far above the first, have
none. -/
def bump? (level : Int) (numbers : List Nat) : Option (List Nat) :=
  if 1 ≤ level then
    match numbers.drop (level.toNat - 1) with
    | [] => none
    | n :: deeper => some (numbers.take (level.toNat - 1) ++ (n + 1) :: deeper.map fun _ => 0)
  else if 1 - level ≤ numbers.length then some (numbers.map fun _ => 0)
  else none

def numberText (level : Int) (numbers : List Nat) : Text :=
  Text.join ['.'] (((⟨0, level⟩ : Span).slice numbers).map Text.ofNat)

def locate (r : Reader) (d : Document) (target : Option SectionTarget) (paragraph : Option Block) :
    Except Stopped Location :=
  (Location.find d.filename d.text target paragraph none).mapError (⟨.badNode ·, r.counter⟩)

def reject (r : Reader) (d : Document) (block : Block) (code : Diagnostic.Code) (message : Text) :
    Except Stopped Reader := do
  return r.report ⟨code, .error, message, some (← r.locate d none (some block)), []⟩

/-- Records a section that has been counted. One whose link is taken already is reported and still
recorded. -/
def addSection (r : Reader) (d : Document) (level : Int) (title : Text) :
    Except Stopped Reader := do
  let (bookmark, counter) := r.counter.next sectionSeries
  let recorded : Section :=
    ⟨numberText level r.numbers, title, level, url d.filename title, bookmark, d.filename⟩
  let r := { r with counter }
  let isTaken := r.spec.sections.any (·.url == recorded.url)
  let r ← if isTaken then do
      let location ← r.locate d (some recorded.target) none
      pure (r.report ⟨.duplicateSection, .error, "duplicate section title ".toList ++ recorded.url,
        some location, []⟩)
    else pure r
  return { r with
    current := some recorded
    spec := { r.spec with sections := r.spec.sections ++ [recorded] } }

def readHeading (r : Reader) (d : Document) (level : Int) (content : Inline) :
    Except Stopped Reader :=
  match content.title? with
  | .error node => .error ⟨.badNode node, r.counter⟩
  | .ok none =>
    r.reject d (.heading level content) .unsupportedHeading
      "heading must be a single literal or inline code span".toList
  | .ok (some title) =>
    if r.settings.maxHeadingLevel < level then
      r.reject d (.heading level content) .headingTooDeep
        ("only heading depths up to ".toList ++
          List.replicate r.settings.maxHeadingLevel.toNat '#' ++ " are supported".toList)
    else match bump? level r.numbers with
      | none => .error ⟨.noCounter, r.counter⟩
      | some numbers => { r with numbers }.addSection d level title

def addProduction (location : Location) (r : Reader) (p : Production) : Reader :=
  let known := match p.name with
    | none => false
    | some name => r.spec.grammar.ruleNames.contains name
  let r := if known then
      r.report ⟨.duplicateProduction, .warning,
        "duplicate grammar for ".toList ++ p.name.getD [], some location, []⟩
    else r
  let p := { p with
    link := some ((r.current.map (·.url)).getD [])
    linkName := some ((r.current.map (·.title)).getD []) }
  { r with spec := { r.spec with
      grammar := { r.spec.grammar with productions := r.spec.grammar.productions ++ [p] } } }

def addFragment (r : Reader) (d : Document) (code : Text) (language : Option Text)
    (location : Location) (g : Grammar) : Reader :=
  let (bookmark, counter) := r.counter.next grammarSeries
  let fragment : Fragment := ⟨code, language, g.ruleNames, bookmark, d.filename, r.current⟩
  let r := { r with
    counter
    spec := { r.spec with fragments := r.spec.fragments ++ [fragment] } }
  g.productions.foldl (addProduction location) r

def readCode (r : Reader) (d : Document) (code : Text) (language : Option Text) :
    Except Stopped Reader :=
  if (language.getD []).trim != r.settings.language then .ok r
  else do
    let location ← r.locate d (r.current.map (·.target)) (some (.code code language))
    match Grammar.ofText (Grammar.sourceName (some d.filename) []) [] code with
    | .error e =>
      return r.report ⟨.grammarSyntax, .error,
        "grammar syntax error: ".toList ++ e.fault.message ++ " (fragment line ".toList ++
          Text.ofNat e.position.line ++ ", column ".toList ++ Text.ofNat e.position.column ++ [')'],
        some location, []⟩
    | .ok g => return r.addFragment d code language location g

def readBlock (d : Document) (r : Reader) : Block → Except Stopped Reader
  | .heading level content => r.readHeading d level content
  | .code code language => r.readCode d code language
  | _ => .ok r

def readDocument (r : Reader) (d : Document) : Except Stopped Reader :=
  d.walk.foldlM (readBlock d)
    { r with spec := { r.spec with texts := putText d.filename d.text r.spec.texts } }

end Reader

def read (documents : List Document) (settings : Settings) (counter : BookmarkCounter) :
    Except Stopped (Spec × BookmarkCounter) := do
  let r ← documents.foldlM Reader.readDocument (Reader.start settings counter)
  return (r.spec, r.counter)

end Spec

end GrammarCheck
