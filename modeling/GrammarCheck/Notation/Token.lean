import GrammarCheck.Text.Printable

namespace GrammarCheck

structure Position where
  line : Nat
  column : Nat
  deriving DecidableEq, Repr

/-- Where reading goes on after `c`. A line ends after a line feed, and after a carriage return
that no line feed follows. -/
def Position.past (p : Position) (c : Char) (next : Option Char) : Position :=
  if c == '\n' || (c == '\r' && next != some '\n') then ⟨p.line + 1, 1⟩ else ⟨p.line, p.column + 1⟩

namespace Token

inductive Kind
  | word
  | terminal
  | comment
  | whitespace
  | newline
  | colon
  | semicolon
  | bar
  | star
  | plus
  | question
  | openParen
  | closeParen
  | finish
  deriving DecidableEq, Repr

namespace Kind

def name : Kind → Text
  | .word => "WORD".toList
  | .terminal => "TERMINAL".toList
  | .comment => "COMMENT".toList
  | .whitespace => "WHITESPACE".toList
  | .newline => "NEWLINE".toList
  | .colon => [':']
  | .semicolon => [';']
  | .bar => ['|']
  | .star => ['*']
  | .plus => ['+']
  | .question => ['?']
  | .openParen => ['(']
  | .closeParen => [')']
  | .finish => "EOF".toList

def all : List Kind :=
  [.word, .terminal, .comment, .whitespace, .newline, .colon, .semicolon, .bar, .star, .plus,
    .question, .openParen, .closeParen, .finish]

def ofName? (name : Text) : Option Kind := all.find? (·.name == name)

def operator? : Char → Option Kind
  | ':' => some .colon
  | ';' => some .semicolon
  | '|' => some .bar
  | '*' => some .star
  | '+' => some .plus
  | '?' => some .question
  | '(' => some .openParen
  | ')' => some .closeParen
  | _ => none

def isTrivia : Kind → Bool
  | .comment | .whitespace | .newline => true
  | _ => false

end Kind

end Token

structure Token where
  kind : Token.Kind
  value : Text
  position : Position
  deriving DecidableEq, Repr

namespace Token

def isTrivia (token : Token) : Bool := token.kind.isTrivia

def describe (token : Token) : Text :=
  "Token(".toList ++ token.kind.name ++ ", ".toList ++ token.value.quoted ++ ", ".toList ++
    Text.ofNat token.position.line ++ ':' :: Text.ofNat token.position.column ++ [')']

def finish (position : Position) : Token := ⟨.finish, [], position⟩

end Token

end GrammarCheck
