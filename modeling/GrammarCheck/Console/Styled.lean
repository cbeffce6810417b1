import GrammarCheck.Grammar.Colour
import GrammarCheck.Report.Diagnostic
import GrammarCheck.Text.Column

namespace GrammarCheck

inductive Style
  | error
  | warning
  | muted
  | production
  | terminal
  | special
  | comment
  deriving DecidableEq, Repr

namespace Style

def name : Style → Text
  | .error => "bold red".toList
  | .warning => "yellow".toList
  | .muted => "bright_black".toList
  | .production => "bright_cyan".toList
  | .terminal => "green".toList
  | .special => "magenta".toList
  | .comment => "italic bright_black".toList

def ofCategory : Category → Option Style
  | .plain => none
  | .production => some .production
  | .terminal => some .terminal
  | .special => some .special
  | .comment => some .comment

def ofSeverity : Severity → Style
  | .error => .error
  | .warning => .warning

end Style

structure StyledRange where
  start : Nat
  stop : Nat
  style : Style
  deriving DecidableEq, Repr

structure StyledText where
  plain : Text := []
  ranges : List StyledRange := []
  deriving DecidableEq, Repr

namespace StyledText

def isCursorControl (c : Char) : Bool :=
  c == '\x07' || c == '\x08' || c == '\x0b' || c == '\x0c' || c == '\r'

/-- Adds a text without its cursor controls. A text that is not empty has a range if it has a
style, even if nothing is left of it. -/
def add (s : StyledText) (t : Text) (style : Option Style) : StyledText where
  plain := s.plain ++ t.filter (!isCursorControl ·)
  ranges :=
    match t, style with
    | [], _ => s.ranges
    | _, none => s.ranges
    | _, some style =>
      s.ranges ++ [⟨s.plain.length, s.plain.length + (t.filter (!isCursorControl ·)).length, style⟩]

def shown (s : StyledText) : Text := s.plain.expandTabs ++ ['\n']

def ofDiagnostic (d : Diagnostic) : StyledText :=
  let head := ((({} : StyledText).add (d.whereabouts ++ ": ".toList) (some .muted)).add
    (d.severity.name ++ ' ' :: d.code.name) (some (.ofSeverity d.severity))).add
    (": ".toList ++ d.message) none
  d.details.foldl (fun s line => s.add ('\n' :: ' ' :: ' ' :: line) (some .muted)) head

def amount (n : Nat) (noun : Text) : Text :=
  Text.ofNat n ++ ' ' :: noun ++ if n = 1 then [] else ['s']

def summary (errors warnings : Nat) : StyledText :=
  if errors = 0 && warnings = 0 then ({} : StyledText).add "✓ No problems found".toList none
  else
    ((({} : StyledText).add (amount errors Severity.error.name)
      (if errors = 0 then none else some .error)).add ", ".toList none).add
      (amount warnings Severity.warning.name) (if warnings = 0 then none else some .warning)

def report (ds : List Diagnostic) : Text :=
  let (errors, warnings) := Diagnostic.count ds
  ds.flatMap (fun d => (ofDiagnostic d).shown) ++ (summary errors warnings).shown

def addWord (s : StyledText) (w : ColouredWord) : StyledText :=
  s.add w.text (Style.ofCategory w.category)

def ofLines : List (List ColouredWord) → StyledText
  | [] => {}
  | line :: lines =>
    lines.foldl (fun s line => line.foldl addWord (s.add ['\n'] none)) (line.foldl addWord {})

end StyledText

end GrammarCheck
