import GrammarCheck.Proofs.Grammar.Printed
import GrammarCheck.Proofs.Parsing.Acceptance

namespace GrammarCheck

variable {ss : List Symbol} {t : Text}

theorem exists_tokens_of_rule (h : Lexed t ss [])
    (hlast : Text.trimRight ('r' :: ':' :: t) = 'r' :: ':' :: t) (source : Text) :
    ∃ ts name colon more, TokenList.ofText source ('r' :: ':' :: t) = .ok ts ∧
      ts.tokens = name :: colon :: more ∧ name.kind = .word ∧ name.value = ['r'] ∧
      colon.kind = .colon ∧ meaning more = ss := by
  have hunread : (Cursor.start ('r' :: ':' :: t)).unread = 'r' :: ':' :: t := hlast
  have hname : Lexeme.first 'r' (':' :: t) = .token .word ['r'] 0 := rfl
  have hcolon : Lexeme.first ':' t = .token .colon [':'] 0 := rfl
  obtain ⟨after, next, hafter, hnext, hmisstep, hread⟩ := Cursor.readOn_of_first hunread hname
  obtain ⟨after', next', -, hnext', hmisstep', hread'⟩ := Cursor.readOn_of_first hnext hcolon
  obtain ⟨hnone, hmeaning⟩ := h.readOn hnext'
  have hspace : after.spaceToken = [] := by
    rw [Cursor.spaceToken, hafter]
    rfl
  have hall := Cursor.readAll_start (by decide : isBlank 'r' = false) hlast
  have htokens : (Cursor.start ('r' :: ':' :: t)).readAll.tokens =
      ⟨.word, ['r'], ⟨1, 1⟩⟩ :: ⟨.colon, [':'], next.position⟩ ::
        (after'.spaceToken ++ next'.readOn.tokens) := by
    rw [hall, hread, hspace, hread']
    rfl
  refine ⟨⟨_, _⟩, _, _, _, TokenList.ofText_eq_ok_iff.2 ⟨?_, rfl, rfl⟩, htokens, rfl, rfl, rfl, ?_⟩
  · rw [hall, hmisstep, hmisstep', hnone]
  · rw [meaning_append, Cursor.meaning_spaceToken, hmeaning, List.nil_append]

theorem exists_rule_of_plainRules {g : Grammar} {name : Text} {d : Expr}
    (h : plainRules g.productions = [(name, d)]) :
    ∃ body, g.rules = [⟨name, body⟩] ∧ body.erase = d := by
  obtain ⟨rule, hrules, hrule⟩ := List.map_eq_singleton_iff.1 h
  cases hrule
  exact ⟨rule.body, hrules, rfl⟩

/-- However an expression is laid out, its text as a rule is accepted and gives back an expression
of the same normal form. -/
theorem Expr.Printable.ofText_print {e : Expr} (h : e.Printable) {newline : Text}
    (hnewline : IsNewline newline) (source name : Text) :
    ∃ g body, Grammar.ofText source name ('r' :: ':' :: '\t' :: (e.print newline ++ [';'])) = .ok g ∧
      g.rules = [⟨['r'], body⟩] ∧ body.normal = e.normal := by
  obtain ⟨d, hd, hnormal⟩ := h.derives
  have hprinted : Lexed (e.print newline ++ [';']) e.symbols [';'] :=
    (h.spells hnewline).lexed [';'] fun _ => by simp [EndsWord, Text.stopsWord]
  have hlexed : Lexed ('\t' :: (e.print newline ++ [';'])) (e.symbols ++ [(.semicolon, [';'])]) [] :=
    .space (by decide) (hprinted.append ((spells_operator rfl).lexed [] fun _ => by simp [EndsWord]))
  have hlast : Text.trimRight ('r' :: ':' :: '\t' :: (e.print newline ++ [';'])) =
      'r' :: ':' :: '\t' :: (e.print newline ++ [';']) :=
    Text.trimRight_concat (by decide) ('r' :: ':' :: '\t' :: e.print newline)
  obtain ⟨ts, n, colon, more, htext, htokens, hkind, hvalue, hcolon, hmore⟩ :=
    exists_tokens_of_rule hlexed hlast source
  obtain ⟨body, semicolon, after, rfl, hbody, hsemicolon, hafter⟩ := exists_token_of_meaning hmore
  have hgrammar : DerivesGrammar ts.tokens [(['r'], d)] := by
    have hnone : ∀ t ∈ ([] : List Token), t.kind = .whitespace ∨ t.kind = .newline := by simp
    have hrule : DerivesRule (n :: ([] ++ colon :: body)) (n.value, d) :=
      .mk hkind hnone hcolon (not_opensHeader hnone hcolon body) (by rwa [hbody])
    have hend : DerivesGrammar after [] :=
      .of_skips ⟨after, by simp, isTrivia_of_meaning_eq_nil hafter⟩ .nil
    have hall := DerivesGrammar.cons (.rule hrule (congrArg Prod.fst hsemicolon)) hend
    rw [htokens, ← hvalue]
    simpa using hall
  obtain ⟨n', ps, hread, hps⟩ := hgrammar.readsEntries
  obtain ⟨body', hrules, herase⟩ :=
    exists_rule_of_plainRules (g := ⟨n'.getD name, ps, Grammar.newlineOf ts.tokens⟩) hps
  refine ⟨_, body', Grammar.ofText_eq_ok_iff.2 ⟨ts, n', ps, htext, hread, rfl⟩, hrules, ?_⟩
  rw [← normal_erase, herase, hnormal]

theorem Expr.Printable.ofText_print_comment :
    ∃ e : Expr, e = .group .sequence
        [.group .choice [.leaf (.reference ['a']) { comment := ['o', 'r'] },
          .leaf (.terminal ['\'']) {}] [] {},
        .repeated .zeroOrMore (.leaf (.special ['\'', '"']) {}) [] {}] [] {} ∧
      e.Printable ∧ IsNewline ['\n'] ∧
      ∃ g body, Grammar.ofText [] [] ('r' :: ':' :: '\t' :: (e.print ['\n'] ++ [';'])) = .ok g ∧
        g.rules = [⟨['r'], body⟩] ∧ body.normal = e.normal := by
  have hplain : OneLine [] := ⟨by simp, rfl⟩
  have hcomment : OneLine ['o', 'r'] := ⟨by simp [isLineEnd], rfl⟩
  have hname : Printable (.leaf (.reference ['a']) { comment := ['o', 'r'] }) :=
    .leaf (.reference ⟨by simp, List.forall_mem_singleton.2 ⟨rfl, rfl⟩, rfl⟩) hcomment
  have hquote : Printable (.leaf (.terminal ['\'']) {}) :=
    .leaf (.terminal (List.forall_mem_singleton.2 rfl) (by rintro ⟨_, h⟩; cases h) (by simp)) hplain
  have hspecial : Printable (.leaf (.special ['\'', '"']) {}) :=
    .leaf (.special (by simp [isLineEnd]) (by simp) (by simp)) hplain
  have hchoice : Printable (.group .choice [.leaf (.reference ['a']) { comment := ['o', 'r'] },
      .leaf (.terminal ['\'']) {}] [] {}) :=
    .group (by simp) (by simp [hname, hquote]) hplain
  have hrepeated : Printable (.repeated .zeroOrMore (.leaf (.special ['\'', '"']) {}) [] {}) :=
    .repeated hspecial hplain
  have he : Printable (.group .sequence
        [.group .choice [.leaf (.reference ['a']) { comment := ['o', 'r'] },
          .leaf (.terminal ['\'']) {}] [] {},
        .repeated .zeroOrMore (.leaf (.special ['\'', '"']) {}) [] {}] [] {}) :=
    .group (by simp) (by simp [hchoice, hrepeated]) hplain
  exact ⟨_, rfl, he, .inr (.inr rfl), he.ofText_print (.inr (.inr rfl)) [] []⟩

end GrammarCheck
