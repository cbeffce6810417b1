import GrammarCheck.Grammar.Printer

namespace GrammarCheck

structure RuleTable where
  entries : List (Text × Production)

namespace RuleTable

def find? (table : RuleTable) (name : Text) : Option Production := table.entries.lookup name

def names (table : RuleTable) : List Text := table.entries.map (·.1)

def put (name : Text) (p : Production) : List (Text × Production) → List (Text × Production)
  | [] => [(name, p)]
  | (other, q) :: entries =>
    if other = name then (name, p) :: entries else (other, q) :: put name p entries

theorem lookup_put (name other : Text) (p : Production) (entries : List (Text × Production)) :
    (put name p entries).lookup other = if other = name then some p else entries.lookup other := by
  induction entries with
  | nil => by_cases h : other = name <;> simp [put, lookup_cons_ite, h]
  | cons entry entries ih =>
    obtain ⟨key, q⟩ := entry
    by_cases hk : key = name
    · subst hk
      by_cases h : other = key <;> simp [put, lookup_cons_ite, h]
    · simp only [put, hk, if_false, lookup_cons_ite, ih]
      by_cases h : other = key
      · simp [h, hk]
      · simp [h]

def insert (table : RuleTable) (p : Production) : RuleTable :=
  match p.name with
  | none => table
  | some name => ⟨put name p table.entries⟩

def ofGrammar (g : Grammar) : RuleTable := g.productions.foldl insert ⟨[]⟩

end RuleTable

namespace Difference

inductive Kind
  | mismatch
  | missingInCopy
  | extraInCopy
  deriving DecidableEq, Repr

def Kind.name : Kind → Text
  | .mismatch => "mismatch".toList
  | .missingInCopy => "missing_in_copy".toList
  | .extraInCopy => "extra_in_copy".toList

def Kind.all : List Kind := [.mismatch, .missingInCopy, .extraInCopy]

def Kind.ofName? (name : Text) : Option Kind := Kind.all.find? (·.name == name)

end Difference

structure Difference where
  kind : Difference.Kind
  name : Text
  authorityText : Option Text := none
  copyText : Option Text := none
  deriving DecidableEq, Repr

namespace RuleTable

def mismatches (authority copy : RuleTable) : List Difference :=
  authority.entries.filterMap fun (name, p) =>
    match copy.find? name with
    | none => none
    | some q =>
      let authorityText := p.print defaultNewline
      let copyText := q.print defaultNewline
      if authorityText = copyText then none
      else some ⟨.mismatch, name, some authorityText, some copyText⟩

def lacking (start : Text) (table other : RuleTable) : List Text :=
  table.names.filter fun name => name != start && (other.find? name).isNone

end RuleTable

namespace Grammar

/-- Mismatches first, then what the copy lacks, then what only the copy has, each in the order of
its grammar. The start rule is never missing or extra. -/
def compare (authority copy : Grammar) (start : Text) : List Difference :=
  let authorityRules := RuleTable.ofGrammar authority
  let copyRules := RuleTable.ofGrammar copy
  authorityRules.mismatches copyRules ++
    (authorityRules.lacking start copyRules).map (fun name => { kind := .missingInCopy, name }) ++
    (copyRules.lacking start authorityRules).map (fun name => { kind := .extraInCopy, name })

def link (authority copy : Grammar) : Grammar :=
  { authority with
    productions := authority.productions.map fun p =>
      match p.name with
      | none => p
      | some name =>
        let source := copy.find? name
        { p with link := source.bind (·.link), linkName := source.bind (·.linkName) } }

def defaultStart : Text := "start".toList

end Grammar

end GrammarCheck
