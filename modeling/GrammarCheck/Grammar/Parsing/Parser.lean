import GrammarCheck.Grammar.Parsing.Entries

namespace GrammarCheck

structure Parser where
  source : Text
  tokens : TokenList
  rest : List Token
  grammarName : Option Text
  deriving Repr

namespace Parser

def start (source : Text) (tokens : TokenList) : Parser := ⟨source, tokens, tokens.tokens, none⟩

def offset (p : Parser) : Nat := p.tokens.tokens.length - p.rest.length

def finish (p : Parser) : Token := .finish p.tokens.finish

def current (p : Parser) : Token := p.rest.head?.getD p.finish

inductive Call
  | currentToken
  | peekToken (ahead : Int)
  | advance
  | matchKinds (kinds : List Token.Kind)
  | expect (kind : Token.Kind)
  | note (message : Text)
  | skipTrivia
  | skipWhitespace
  | isHeader
  | header
  | production
  | choice
  | sequence
  | unary
  | atom
  | parse
  deriving DecidableEq, Repr

inductive Answer
  | done
  | token (t : Token)
  | flag (b : Bool)
  | trivia (t : Trivia)
  | expr (e : Expr)
  | production (p : Production)
  | productions (ps : List Production)
  | error (e : SyntaxError)
  | outOfRange (e : OutOfRange)
  deriving Repr

/-- The token `ahead` of the one ahead, or the last token beyond the end. Offsets before the first
token count from the last, as far as there are tokens. -/
def peek (p : Parser) (ahead : Int) : Answer :=
  let offset := p.offset + ahead
  match Text.at? p.tokens.toList offset with
  | some t => .token t
  | none => if offset < 0 then .outOfRange .list else .token p.finish

def refuse (p : Parser) (f : Failure) : Answer × Parser :=
  (.error (f.error p.source p.tokens.finish), { p with rest := f.rest })

def take {α : Type} {n : Nat} (p : Parser) (answer : α → Answer) : Parsed α n → Answer × Parser
  | .done value rest _ => (answer value, { p with rest := rest })
  | .failed failure => p.refuse failure

def expect (p : Parser) (kind : Token.Kind) : Answer × Parser :=
  if p.rest.isEmpty && kind == .finish then (.token p.finish, p)
  else match GrammarCheck.expect kind p.rest with
    | .error failure => p.refuse failure
    | .ok (t, rest) => (.token t, { p with rest := rest })

def header (p : Parser) : Answer × Parser :=
  let (name, result) := Parsing.header p.rest
  let p := { p with grammarName := name.or p.grammarName }
  match result with
  | .error failure => p.refuse failure
  | .ok rest => (.done, { p with rest := rest })

def parse (p : Parser) : Answer × Parser :=
  let entries := Parsing.entries p.rest
  let p := { p with grammarName := entries.name.or p.grammarName }
  match entries.result with
  | .error failure => p.refuse failure
  | .ok productions => (.productions productions, { p with rest := [] })

def step (p : Parser) : Call → Answer × Parser
  | .currentToken => (.token p.current, p)
  | .peekToken ahead => (p.peek ahead, p)
  | .advance => (.token p.current, { p with rest := p.rest.drop 1 })
  | .matchKinds kinds => (.flag (kinds.contains p.current.kind), p)
  | .expect kind => p.expect kind
  | .note message =>
    (.error ((Failure.ahead (.noted message) p.rest).error p.source p.tokens.finish), p)
  | .skipTrivia => (.trivia (triviaAhead p.rest), { p with rest := GrammarCheck.skipTrivia p.rest })
  | .skipWhitespace => (.done, { p with rest := GrammarCheck.skipWhitespace p.rest })
  | .isHeader => (.flag (Parsing.isHeader p.rest), p)
  | .header => p.header
  | .production => p.take .production (Parsing.production p.rest)
  | .choice => p.take .expr (Parsing.choice p.rest)
  | .sequence => p.take .expr (Parsing.sequence p.rest)
  | .unary => p.take .expr (Parsing.unary p.rest)
  | .atom => p.take .expr (Parsing.atom p.rest)
  | .parse => p.parse

def run (p : Parser) : List Call → List (Answer × Parser)
  | [] => []
  | call :: calls => p.step call :: (p.step call).2.run calls

end Parser

end GrammarCheck
