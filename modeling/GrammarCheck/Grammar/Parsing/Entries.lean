import GrammarCheck.Grammar.Parsing.Expr
import GrammarCheck.Notation.Reading

/-!
Parsing of whole grammars:

    grammar     ::= (header | comment | blank | production)*
    header      ::= 'grammar' WORD ';'
    production  ::= WORD ':' choice ';' comment*

The last semicolon may be missing.
-/

namespace GrammarCheck

namespace Parsing

/-- A header starts with the word that is its keyword; a colon behind that word makes it the name
of a production. -/
def isHeader (ts : List Token) : Bool :=
  ((skipWhitespace (ts.drop 1)).head?.map (·.kind)) == some .word

def header (ts : List Token) : Option Text × Except Failure (List Token) :=
  match expect .word (skipWhitespace (ts.drop 1)) with
  | .error failure => (none, .error failure)
  | .ok (name, rest) =>
    match expect .semicolon (skipWhitespace rest) with
    | .error failure => (some name.value, .error failure)
    | .ok (_, rest) => (some name.value, .ok (skipNewline (skipWhitespace rest)))

theorem length_skipWhitespace_le (ts : List Token) : (skipWhitespace ts).length ≤ ts.length :=
  (List.dropWhile_suffix _).length_le

theorem length_skipNewline_le (ts : List Token) : (skipNewline ts).length ≤ ts.length := by
  unfold skipNewline
  split
  · exact Nat.le_refl _
  · split <;> simp

theorem length_of_expect {kind : Token.Kind} {ts rest : List Token} {t : Token}
    (h : expect kind ts = .ok (t, rest)) : rest.length < ts.length := by
  unfold expect at h
  split at h
  · cases h
  · split at h
    · cases h
      simp
    · cases h

theorem length_of_header {ts rest : List Token} (h : (header ts).2 = .ok rest) :
    rest.length < ts.length := by
  unfold header at h
  split at h
  · cases h
  · rename_i name after hname
    split at h
    · cases h
    · rename_i t after' hsemicolon
      cases h
      have h₁ := length_of_expect hname
      have h₂ := length_of_expect hsemicolon
      have h₃ := length_skipWhitespace_le (ts.drop 1)
      have h₄ := length_skipWhitespace_le after
      have h₅ := length_skipWhitespace_le after'
      have h₆ := length_skipNewline_le (skipWhitespace after')
      have h₇ : (ts.drop 1).length ≤ ts.length := by simp
      omega

def isBreak (t : Token) : Bool := t.kind == .whitespace || t.kind == .newline

def isRemark (t : Token) : Bool := t.kind == .whitespace || t.kind == .comment

def remarks (ts : List Token) : Text :=
  ((ts.takeWhile isRemark).filter (·.kind == .comment)).flatMap (·.value.drop 2)

def skipRemarks (ts : List Token) : List Token := skipNewline (ts.dropWhile isRemark)

theorem length_skipRemarks_le (ts : List Token) : (skipRemarks ts).length ≤ ts.length :=
  Nat.le_trans (length_skipNewline_le _) (List.dropWhile_suffix _).length_le

def close (p : Production) (name : Text) (ts : List Token) (bound : Nat) (h : ts.length < bound) :
    Parsed Production bound :=
  match ts with
  | [] => .done p [] h
  | ⟨.semicolon, _, _⟩ :: rest =>
    .done { p with comment := p.comment ++ remarks rest } (skipRemarks rest)
      (by have := length_skipRemarks_le rest; simp only [List.length_cons] at h; omega)
  | ⟨.closeParen, _, _⟩ :: _ => .failed (.ahead .unexpectedClose ts)
  | _ => .failed (.unexpected (.expectedSemicolon name) ts)

def production (ts : List Token) : Parsed Production ts.length :=
  let name := (ts.head?.map (·.value)).getD []
  let breaks := (ts.drop 1).takeWhile isBreak
  match _colon : (ts.drop 1).dropWhile isBreak with
  | ⟨.colon, _, _⟩ :: rest =>
    let leading := triviaAhead rest
    match choice (skipTrivia rest) with
    | .failed failure => .failed failure
    | .done body after h =>
      close
        { rule := some ⟨name, body⟩
          comment := leading.comment
          startsOnNewline := breaks.any (·.kind == .newline) || leading.newline }
        name after ts.length (by
          have h₁ := length_skipTrivia_le rest
          have h₂ := (List.dropWhile_suffix isBreak (l := ts.drop 1)).length_le
          rw [_colon] at h₂
          simp only [List.length_cons, List.length_drop] at h₂
          omega)
  | rest => .failed (.unexpected (.expectedColon name) rest)

/-- The entries of a grammar and the name of its last header. The name stands even if a fault
follows. -/
structure Entries where
  name : Option Text
  result : Except Failure (List Production)

namespace Entries

def cons (p : Production) (e : Entries) : Entries := { e with result := e.result.map (p :: ·) }

def orName (name : Option Text) (e : Entries) : Entries := { e with name := e.name.or name }

end Entries

def entries (ts : List Token) : Entries :=
  match ts with
  | [] => ⟨none, .ok []⟩
  | t :: rest =>
    match t.kind with
    | .comment =>
      (entries (skipNewline (skipWhitespace rest))).cons { comment := t.value.drop 2 }
    | .newline => (entries rest).cons {}
    | .whitespace => entries rest
    | .word =>
      if t.value == "grammar".toList && isHeader (t :: rest) then
        match _h : header (t :: rest) with
        | (name, .error failure) => ⟨name, .error failure⟩
        | (name, .ok after) => (entries after).orName name
      else match production (t :: rest) with
        | .failed failure => ⟨none, .error failure⟩
        | .done p after _ => (entries after).cons p
    | .closeParen => ⟨none, .error (.ahead .unexpectedClose (t :: rest))⟩
    | _ => ⟨none, .error (.unexpected .expectedName (t :: rest))⟩
termination_by ts.length
decreasing_by
  · have h₁ := length_skipWhitespace_le rest
    have h₂ := length_skipNewline_le (skipWhitespace rest)
    simp only [List.length_cons]
    omega
  · exact Nat.lt_succ_self _
  · exact Nat.lt_succ_self _
  · exact length_of_header (by rw [_h])
  · assumption

end Parsing

end GrammarCheck
