import GrammarCheck.Grammar.Comparison
import GrammarCheck.Report.Location

namespace GrammarCheck

inductive Severity
  | error
  | warning
  deriving DecidableEq, Repr

namespace Severity

def name : Severity → Text
  | .error => "error".toList
  | .warning => "warning".toList

def all : List Severity := [.error, .warning]

def ofName? (name : Text) : Option Severity := all.find? (·.name == name)

end Severity

namespace Diagnostic

inductive Code
  | grammarSyntax
  | duplicateProduction
  | duplicateSection
  | unsupportedHeading
  | headingTooDeep
  | superfluousProduction
  | missingProduction
  | productionMismatch
  deriving DecidableEq, Repr

namespace Code

def name : Code → Text
  | .grammarSyntax => "MD001".toList
  | .duplicateProduction => "MD002".toList
  | .duplicateSection => "MD003".toList
  | .unsupportedHeading => "MD004".toList
  | .headingTooDeep => "MD005".toList
  | .superfluousProduction => "MD021".toList
  | .missingProduction => "MD022".toList
  | .productionMismatch => "MD023".toList

def all : List Code :=
  [.grammarSyntax, .duplicateProduction, .duplicateSection, .unsupportedHeading, .headingTooDeep,
    .superfluousProduction, .missingProduction, .productionMismatch]

def ofName? (name : Text) : Option Code := all.find? (·.name == name)

end Code

end Diagnostic

structure Diagnostic where
  code : Diagnostic.Code
  severity : Severity
  message : Text
  location : Option Location := none
  details : List Text := []
  deriving DecidableEq, Repr

namespace Diagnostic

def ofNames (code severity message : Text) (location : Option Location) (details : List Text) :
    Except UnknownName Diagnostic :=
  match Code.ofName? code, Severity.ofName? severity with
  | some code, some severity => .ok ⟨code, severity, message, location, details⟩
  | none, _ => .error ⟨.diagnosticCode, code⟩
  | _, none => .error ⟨.severity, severity⟩

def isError (d : Diagnostic) : Bool := d.severity == .error

def toolName : Text := "mdspec".toList

def whereabouts (d : Diagnostic) : Text :=
  match d.location with
  | none => toolName
  | some location => location.format

def format (d : Diagnostic) : Text :=
  Text.join ['\n'] ((d.whereabouts ++ ": ".toList ++ d.severity.name ++ ' ' :: d.code.name ++
    ": ".toList ++ d.message) :: d.details.map fun line => ' ' :: ' ' :: line)

def escapeNewlines (t : Text) : Text :=
  t.flatMap fun c => if c == '\r' then ['\\', 'r'] else if c == '\n' then ['\\', 'n'] else [c]

def ofDifference (d : Difference) (authorityName : Text) (location : Option Location) :
    Diagnostic :=
  match d.kind with
  | .extraInCopy =>
    { code := .superfluousProduction
      severity := .error
      message := "markdown has superfluous production '".toList ++ d.name ++ ['\'']
      location }
  | .missingInCopy =>
    { code := .missingProduction
      severity := .error
      message := "markdown lacks production '".toList ++ d.name ++ ['\'']
      location }
  | .mismatch =>
    { code := .productionMismatch
      severity := .error
      message := "production '".toList ++ d.name ++ "' differs between markdown and ".toList ++
        authorityName
      location
      details := [authorityName ++ " says ".toList ++ escapeNewlines (d.authorityText.getD []),
        "markdown says ".toList ++ escapeNewlines (d.copyText.getD [])] }

def count (ds : List Diagnostic) : Nat × Nat :=
  ((ds.filter (·.isError)).length, (ds.filter (!·.isError)).length)

end Diagnostic

end GrammarCheck
