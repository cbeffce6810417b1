import GrammarCheck.Spec.Reader

namespace GrammarCheck

structure Check where
  spec : Spec
  authority : Option Grammar := none
  differences : List Difference := []
  diagnostics : List Diagnostic
  deriving Repr

namespace Check

def hasErrors (c : Check) : Bool := c.diagnostics.any (·.isError)

/-- A missing rule is reported against the authority, if that has a name, any other difference
where the documents define the rule. -/
def locationOf (spec : Spec) (authorityName : Text) (d : Difference) :
    Except UnsupportedNode (Option Location) :=
  match d.kind with
  | .missingInCopy =>
    .ok (if authorityName.isEmpty then none else some { filename := authorityName })
  | _ => spec.locate d.name

def report (spec : Spec) (authority : Grammar) :
    List Difference → Except UnsupportedNode (List Diagnostic)
  | [] => .ok []
  | d :: ds => do
    let shownName := if authority.name.isEmpty then "grammar".toList else authority.name
    let location ← locationOf spec authority.name d
    return .ofDifference d shownName location :: (← report spec authority ds)

def ofSpec (spec : Spec) (authority : Option Grammar) (settings : Settings) :
    Except UnsupportedNode Check :=
  match authority with
  | none => .ok { spec, diagnostics := spec.diagnostics }
  | some authority => do
    let differences := authority.compare spec.grammar settings.startProduction
    return {
      spec
      authority := some (authority.link spec.grammar)
      differences
      diagnostics := spec.diagnostics ++ (← report spec authority differences) }

def run (documents : List Document) (authority : Option Grammar) (settings : Settings)
    (counter : BookmarkCounter) : Except Spec.Stopped (Check × BookmarkCounter) := do
  let (spec, counter) ← Spec.read documents settings counter
  match ofSpec spec authority settings with
  | .error node => .error ⟨.badNode node, counter⟩
  | .ok check => return (check, counter)

end Check

end GrammarCheck
