import GrammarCheck.Grammar.Parsing.Entries
import GrammarCheck.Proofs.Grammar.NormalForm

/-!
The grammar of the notation, as a relation between tokens and what they stand for:

    choice    ::= '|'? sequence ('|' sequence)*
    sequence  ::= unary unary*
    unary     ::= atom ('+' | '*' | '?')*
    atom      ::= '(' choice ')' | TERMINAL | WORD

Layout plays no part in it, nor do positions. Around the expressions stand headers and rules; every
rule but the last is closed by a semicolon.
-/

namespace GrammarCheck

abbrev Symbol := Token.Kind × Text

def Token.symbol (t : Token) : Symbol := (t.kind, t.value)

def meaning (ts : List Token) : List Symbol := (ts.filter (!·.isTrivia)).map Token.symbol

def Angled (text : Text) : Prop := ∃ inner, text = '<' :: inner ++ ['>']

inductive LegalTerminal : Text → Leaf → Prop
  | special {text : Text} (nonempty : text ≠ []) (noQuestion : '?' ∉ text) :
    LegalTerminal ('<' :: text ++ ['>']) (.special text)
  | plain {text : Text} (notAngled : ¬ Angled text) (oneQuote : ¬ ('\'' ∈ text ∧ '"' ∈ text)) :
    LegalTerminal text (.terminal text)

def Repetition.kind : Repetition → Token.Kind
  | .oneOrMore => .plus
  | .zeroOrMore => .star
  | .zeroOrOne => .question

inductive Nonterminal
  | choice
  | alternatives
  | sequence
  | items
  | unary
  | atom
  deriving DecidableEq

/-- `Derives part ss es`: the symbols are derived from the part and stand for the expressions. -/
inductive Derives : Nonterminal → List Symbol → List Expr → Prop
  | choice {ss : List Symbol} {es : List Expr} :
    Derives .alternatives ss es → Derives .choice ss [.join .choice es]
  | barredChoice {v : Text} {ss : List Symbol} {es : List Expr} :
    Derives .alternatives ss es → Derives .choice ((.bar, v) :: ss) [.join .choice es]
  | lastAlternative {ss : List Symbol} {e : Expr} :
    Derives .sequence ss [e] → Derives .alternatives ss [e]
  | alternative {v : Text} {ss ss' : List Symbol} {e : Expr} {es : List Expr} :
    Derives .sequence ss [e] → Derives .alternatives ss' es →
      Derives .alternatives (ss ++ (.bar, v) :: ss') (e :: es)
  | sequence {ss : List Symbol} {es : List Expr} :
    Derives .items ss es → Derives .sequence ss [.join .sequence es]
  | lastItem {ss : List Symbol} {e : Expr} : Derives .unary ss [e] → Derives .items ss [e]
  | item {ss ss' : List Symbol} {e : Expr} {es : List Expr} :
    Derives .unary ss [e] → Derives .items ss' es → Derives .items (ss ++ ss') (e :: es)
  | atom {ss : List Symbol} {e : Expr} : Derives .atom ss [e] → Derives .unary ss [e]
  | repeated {v : Text} {ss : List Symbol} {e : Expr} {r : Repetition} :
    Derives .unary ss [e] → Derives .unary (ss ++ [(r.kind, v)]) [.repeated r e [] {}]
  | group {v v' : Text} {ss : List Symbol} {e : Expr} :
    Derives .choice ss [e] → Derives .atom ((.openParen, v) :: ss ++ [(.closeParen, v')]) [e]
  | terminal {text : Text} {l : Leaf} :
    LegalTerminal text l → Derives .atom [(.terminal, text)] [.leaf l {}]
  | reference {name : Text} : Derives .atom [(.word, name)] [.leaf (.reference name) {}]

def OpensHeader : List Token → Prop
  | [] => False
  | t :: ts =>
    t.kind = .word ∧ t.value = "grammar".toList ∧
      ∃ t' ∈ (ts.dropWhile (·.kind == .whitespace)).head?, t'.kind = .word

inductive DerivesRule : List Token → Text × Expr → Prop
  | mk {name colon : Token} {breaks body : List Token} {e : Expr} (isName : name.kind = .word)
      (areBreaks : ∀ t ∈ breaks, t.kind = .whitespace ∨ t.kind = .newline)
      (isColon : colon.kind = .colon) (noHeader : ¬ OpensHeader (name :: (breaks ++ colon :: body)))
      (derived : Derives .choice (meaning body) [e]) :
    DerivesRule (name :: (breaks ++ colon :: body)) (name.value, e)

inductive DerivesEntry : List Token → List (Text × Expr) → Prop
  | layout {t : Token} (isTrivia : t.isTrivia) : DerivesEntry [t] []
  | header {keyword name semicolon : Token} {before after : List Token}
      (isWord : keyword.kind = .word) (isKeyword : keyword.value = "grammar".toList)
      (blankBefore : ∀ t ∈ before, t.kind = .whitespace) (isName : name.kind = .word)
      (blankAfter : ∀ t ∈ after, t.kind = .whitespace)
      (isSemicolon : semicolon.kind = .semicolon) :
    DerivesEntry (keyword :: (before ++ name :: (after ++ [semicolon]))) []
  | rule {ts : List Token} {rule : Text × Expr} {semicolon : Token} (isRule : DerivesRule ts rule)
      (isSemicolon : semicolon.kind = .semicolon) : DerivesEntry (ts ++ [semicolon]) [rule]

/-- The entries of a whole text, with its rules in order. Only the last rule may be open. -/
inductive DerivesGrammar : List Token → List (Text × Expr) → Prop
  | nil : DerivesGrammar [] []
  | cons {ts ts' : List Token} {rules rules' : List (Text × Expr)} :
    DerivesEntry ts rules → DerivesGrammar ts' rules' → DerivesGrammar (ts ++ ts') (rules ++ rules')
  | openRule {ts : List Token} {rule : Text × Expr} : DerivesRule ts rule → DerivesGrammar ts [rule]

@[simp] theorem meaning_append (ts us : List Token) :
    meaning (ts ++ us) = meaning ts ++ meaning us := by
  simp [meaning]

theorem meaning_cons_of_trivia {t : Token} (h : t.isTrivia) (ts : List Token) :
    meaning (t :: ts) = meaning ts := by
  simp [meaning, h]

theorem meaning_cons {t : Token} (h : t.isTrivia = false) (ts : List Token) :
    meaning (t :: ts) = t.symbol :: meaning ts := by
  simp [meaning, h]

@[simp] theorem meaning_skipTrivia (ts : List Token) : meaning (skipTrivia ts) = meaning ts := by
  induction ts with
  | nil => rfl
  | cons t ts ih =>
    by_cases h : t.isTrivia
    · rw [meaning_cons_of_trivia h, ← ih]
      simp [skipTrivia, h]
    · simp [skipTrivia, h]

theorem isTrivia_of_meaning_eq_nil {ts : List Token} (h : meaning ts = []) : ∀ t ∈ ts, t.isTrivia := by
  intro t ht
  have hfilter : ts.filter (!·.isTrivia) = [] := List.map_eq_nil_iff.1 h
  simpa using List.filter_eq_nil_iff.1 hfilter t ht

theorem exists_token_of_meaning {ts : List Token} {ss ss' : List Symbol} {s : Symbol}
    (h : meaning ts = ss ++ s :: ss') :
    ∃ before t after, ts = before ++ t :: after ∧ meaning before = ss ∧ t.symbol = s ∧
      meaning after = ss' := by
  induction ts generalizing ss with
  | nil => cases ss <;> cases h
  | cons t ts ih =>
    by_cases ht : t.isTrivia
    · rw [meaning_cons_of_trivia ht] at h
      obtain ⟨before, t', after, rfl, rfl, hsymbol, hafter⟩ := ih h
      exact ⟨t :: before, t', after, rfl, meaning_cons_of_trivia ht before, hsymbol, hafter⟩
    · rw [Bool.not_eq_true] at ht
      rw [meaning_cons ht] at h
      cases ss with
      | nil =>
        obtain ⟨hsymbol, hafter⟩ := List.cons.inj h
        exact ⟨[], t, ts, rfl, rfl, hsymbol, hafter⟩
      | cons s' ss =>
        obtain ⟨rfl, hts⟩ := List.cons.inj h
        obtain ⟨before, t', after, rfl, rfl, hsymbol, hafter⟩ := ih hts
        exact ⟨t :: before, t', after, rfl, meaning_cons ht before, hsymbol, hafter⟩

theorem Repetition.ofKind?_eq_some_iff {kind : Token.Kind} {r : Repetition} :
    Repetition.ofKind? kind = some r ↔ kind = r.kind := by
  cases kind <;> cases r <;> simp [Repetition.ofKind?, Repetition.kind]

theorem angled_iff {text : Text} :
    Angled text ↔ 2 ≤ text.length ∧ text.head? = some '<' ∧ text.getLast? = some '>' := by
  constructor
  · rintro ⟨inner, rfl⟩
    exact ⟨by simp, rfl, List.getLast?_concat ..⟩
  · rintro ⟨hlen, hhead, hlast⟩
    obtain ⟨rest, rfl⟩ := List.head?_eq_some_iff.1 hhead
    have hne : rest ≠ [] := by
      rintro rfl
      simp at hlen
    refine ⟨rest.dropLast, ?_⟩
    have hlast' : rest.getLast hne = '>' := by
      rw [List.getLast?_cons_of_ne_nil hne, List.getLast?_eq_some_getLast hne] at hlast
      exact Option.some.inj hlast
    rw [List.cons_append, ← hlast', List.dropLast_concat_getLast]

namespace Leaf

theorem ofTerminal_angled (inner : Text) :
    ofTerminal ('<' :: inner ++ ['>']) =
      if inner = [] then .error .emptySpecial
      else if '?' ∈ inner then .error .questionInSpecial
      else .ok (.special inner) := by
  have h := angled_iff.1 ⟨inner, rfl⟩
  rw [ofTerminal, if_pos (by simpa using h)]
  simp

theorem ofTerminal_plain {text : Text} (h : ¬ Angled text) :
    ofTerminal text =
      if '\'' ∈ text ∧ '"' ∈ text then .error .mixedQuotes else .ok (.terminal text) := by
  rw [angled_iff] at h
  rw [ofTerminal, if_neg (by simpa using h)]
  simp

theorem ofTerminal_eq_ok_iff {text : Text} {l : Leaf} :
    ofTerminal text = .ok l ↔ LegalTerminal text l := by
  constructor
  · intro hl
    by_cases h : Angled text
    · obtain ⟨inner, rfl⟩ := h
      rw [ofTerminal_angled] at hl
      split at hl
      · cases hl
      · split at hl
        · cases hl
        · rename_i hnonempty hquestion
          cases hl
          exact .special hnonempty hquestion
    · rw [ofTerminal_plain h] at hl
      split at hl
      · cases hl
      · rename_i hquotes
        cases hl
        exact .plain h hquotes
  · intro hl
    cases hl with
    | special hnonempty hquestion =>
      rw [ofTerminal_angled, if_neg hnonempty, if_neg hquestion]
    | plain h hquotes => rw [ofTerminal_plain h, if_neg hquotes]

end Leaf

end GrammarCheck
