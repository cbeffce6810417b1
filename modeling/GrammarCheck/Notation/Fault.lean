import GrammarCheck.Notation.Token
import GrammarCheck.Report.Problem

namespace GrammarCheck

inductive Fault
  | commentClosesGroup
  | unterminatedTerminal
  | multilineTerminal
  | illegalEscape
  | unexpectedCharacter (c : Char)
  | expectedKind (kind : Token.Kind) (got : Option Token)
  | expectedName (got : Option Token)
  | expectedColon (name : Text) (got : Option Token)
  | expectedSemicolon (name : Text) (got : Option Token)
  | expectedAtom (got : Option Token)
  | unexpectedClose
  | unclosedGroup (got : Option Token)
  | emptySpecial
  | questionInSpecial
  | mixedQuotes
  | noted (message : Text)
  deriving DecidableEq, Repr

namespace Fault

def describeGot : Option Token → Text
  | none => "end of grammar".toList
  | some token =>
    match token.kind with
    | .finish => "end of grammar".toList
    | .newline => "end of line".toList
    | _ => token.value.quoted

def message : Fault → Text
  | .commentClosesGroup => "Comments may not include '*)'".toList
  | .unterminatedTerminal => "Unterminated terminal".toList
  | .multilineTerminal => "Terminals must be single-line".toList
  | .illegalEscape => "Terminals may not include \\ except in \\\\ or \\' or \\\"".toList
  | .unexpectedCharacter c => "Unexpected character: ".toList ++ Text.quoted [c]
  | .expectedKind kind got =>
    "Expected ".toList ++ kind.name.quoted ++ ", got ".toList ++ describeGot got
  | .expectedName got => "Expected a production name, got ".toList ++ describeGot got
  | .expectedColon name got =>
    "After '".toList ++ name ++ "' expected ':', got ".toList ++ describeGot got
  | .expectedSemicolon name got =>
    "Expected ';' after production '".toList ++ name ++ "', got ".toList ++ describeGot got
  | .expectedAtom got => "Expected a terminal, reference or '(', got ".toList ++ describeGot got
  | .unexpectedClose => "Mismatched parentheses: unexpected ')'".toList
  | .unclosedGroup got =>
    "Mismatched parentheses: expected ')', got ".toList ++ describeGot got
  | .emptySpecial => "A terminal may not be '<>'".toList
  | .questionInSpecial => "A special-terminal may not contain a question-mark '?'".toList
  | .mixedQuotes => "A terminal must either contain no ' or no \"".toList
  | .noted message => message

end Fault

structure SyntaxError where
  source : Text
  position : Position
  snippet : Option Text
  fault : Fault
  deriving DecidableEq, Repr

def SyntaxError.problem (e : SyntaxError) : Problem :=
  .inNotation e.fault.message e.source e.position.line e.position.column e.snippet

end GrammarCheck
