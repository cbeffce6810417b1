import GrammarCheck.Notation.Reading

namespace GrammarCheck

structure Lexer where
  text : Text
  source : Text
  cursor : Cursor
  tokens : List Token
  deriving DecidableEq, Repr

namespace Lexer

def start (source t : Text) : Lexer := ⟨t, source, .start t, []⟩

def size (l : Lexer) : Nat := l.text.trimRight.length

def offset (l : Lexer) : Nat := l.size - l.cursor.unread.length

def error (l : Lexer) (m : Misstep) : SyntaxError := m.error l.source l.text

def moved (l : Lexer) (n : Nat) : Lexer := { l with cursor := l.cursor.skip n }

inductive Call
  | currentChar
  | peekChar (ahead : Int)
  | advance
  | atComment
  | readComment
  | readTerminal
  | readWord
  | readWhitespace
  | sourceLine (number : Int)
  | tokenize
  deriving DecidableEq, Repr

inductive Answer
  | done
  | char (c : Option Char)
  | flag (b : Bool)
  | text (t : Text)
  | tokens (ts : List Token)
  | error (e : SyntaxError)
  | outOfRange (e : OutOfRange)
  deriving DecidableEq, Repr

/-- The character `ahead` of the cursor, `none` from the trailing blanks on. Offsets before the
start of the text count from its end, trailing blanks included, as far as it reaches. -/
def peek (l : Lexer) (ahead : Int) : Answer :=
  let offset := l.offset + ahead
  if l.size ≤ offset then .char none
  else match Text.at? l.text offset with
    | some c => .char (some c)
    | none => .outOfRange .text

def answer (l : Lexer) : Lexeme → Answer × Lexer
  | .fault reason n => (.error (l.error (l.cursor.misstep reason n)), l.moved n)
  | .token _ value extra => (.text value, l.moved (extra + 1))

def readComment (l : Lexer) : Answer × Lexer :=
  match l.cursor.unread.leadingLine with
  | [] => (.text [], l)
  | _ => l.answer (Lexeme.comment l.cursor.unread)

def readTerminal (l : Lexer) : Answer × Lexer := l.answer (Lexeme.terminal (l.cursor.unread.drop 1))

def readRun (l : Lexer) (run : Text) : Answer × Lexer := (.text run, l.moved run.length)

def tokenize (l : Lexer) : Answer × Lexer :=
  let reading := l.cursor.readAll
  let tokens := l.tokens ++ reading.tokens
  match reading.misstep with
  | some m => (.error (l.error m), { l with cursor := reading.stop, tokens := tokens })
  | none =>
    let tokens := tokens ++ [.finish reading.stop.position]
    (.tokens tokens, { l with cursor := reading.stop, tokens := tokens })

def step (l : Lexer) : Call → Answer × Lexer
  | .currentChar => (.char l.cursor.unread.head?, l)
  | .peekChar ahead => (l.peek ahead, l)
  | .advance => (.done, l.moved 1)
  | .atComment => (.flag (Text.opensComment l.cursor.unread), l)
  | .readComment => l.readComment
  | .readTerminal => l.readTerminal
  | .readWord => l.readRun l.cursor.unread.leadingWord
  | .readWhitespace => l.readRun l.cursor.unread.leadingSpace
  | .sourceLine number => (.text (l.text.sourceLine number), l)
  | .tokenize => l.tokenize

def run (l : Lexer) : List Call → List (Answer × Lexer)
  | [] => []
  | call :: calls => l.step call :: (l.step call).2.run calls

end Lexer

end GrammarCheck
