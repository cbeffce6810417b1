import GrammarCheck.Grammar.Parsing.Parser
import GrammarCheck.Proofs.Grammar.WellFormed
import GrammarCheck.Proofs.Parsing.Refusals

namespace GrammarCheck

open Parsing

variable {ts rest : List Token}

theorem Parsing.production_completes {p : Production}
    (h : (production ts).toExcept = .ok (p, rest)) :
    ∀ body ∈ p.body, ∃ us, us <:+ ts ∧ Completes us body := by
  cases ts with
  | nil => cases h
  | cons t ts => exact (production_eq_ok_iff.1 h).completes

theorem Lexeme.ne_finish_of_first {c : Char} {t value : Text} {kind : Token.Kind} {extra : Nat}
    (h : first c t = .token kind value extra) : kind ≠ .finish := by
  obtain ⟨rfl, -⟩ | ⟨hoperator, -⟩ | ⟨rfl, -⟩ | ⟨rfl, -⟩ | ⟨rfl, -⟩ := token_cases h
  · decide
  · unfold Token.Kind.operator? at hoperator
    split at hoperator <;> cases hoperator <;> decide
  · decide
  · decide
  · decide

theorem Cursor.ne_finish_of_mem_readOn (a : Cursor) : ∀ t ∈ a.readOn.tokens, t.kind ≠ .finish := by
  fun_induction readOn a with
  | case1 | case2 => simp
  | case3 a ch rest hcons kind value extra hfirst after reading ih =>
    have hspace : ∀ t ∈ after.spaceToken, t.kind ≠ .finish := by
      unfold spaceToken
      split <;> simp
    exact List.forall_mem_cons.2
      ⟨Lexeme.ne_finish_of_first hfirst, List.forall_mem_append.2 ⟨hspace, ih⟩⟩

theorem TokenList.findIdx_finish {source text : Text} {tokens : TokenList}
    (h : ofText source text = .ok tokens) :
    tokens.toList.findIdx (·.kind == .finish) = tokens.tokens.length := by
  have hnone : tokens.tokens.findIdx (·.kind == .finish) = tokens.tokens.length := by
    rw [List.findIdx_eq_length, ← (ofText_eq_ok_iff.1 h).2.1]
    exact fun t ht => beq_eq_false_iff_ne.2 (Cursor.ne_finish_of_mem_readOn _ t ht)
  rw [toList, List.findIdx_append, hnone, if_neg (Nat.lt_irrefl _)]
  simp [Token.finish]

namespace Parser

variable {all : TokenList} {p : Parser} {call : Call}

inductive Returns : Call → Answer → Prop
  | currentToken (t : Token) : Returns .currentToken (.token t)
  | peekToken (ahead : Int) (t : Token) : Returns (.peekToken ahead) (.token t)
  | advance (t : Token) : Returns .advance (.token t)
  | matchKinds (kinds : List Token.Kind) (b : Bool) : Returns (.matchKinds kinds) (.flag b)
  | expect (kind : Token.Kind) (t : Token) : Returns (.expect kind) (.token t)
  | note (message : Text) (e : SyntaxError) : Returns (.note message) (.error e)
  | skipTrivia (t : Trivia) : Returns .skipTrivia (.trivia t)
  | skipWhitespace : Returns .skipWhitespace .done
  | isHeader (b : Bool) : Returns .isHeader (.flag b)
  | header : Returns .header .done
  | production (p : Production) : Returns .production (.production p)
  | choice (e : Expr) : Returns .choice (.expr e)
  | sequence (e : Expr) : Returns .sequence (.expr e)
  | unary (e : Expr) : Returns .unary (.expr e)
  | atom (e : Expr) : Returns .atom (.expr e)
  | parse (ps : List Production) : Returns .parse (.productions ps)

def Call.readsRule : Call → Bool
  | .production | .choice | .sequence | .unary | .atom => true
  | _ => false

def Answer.exprs : Answer → List Expr
  | .expr e => [e]
  | .production p => p.body.toList
  | .productions ps => ps.filterMap (·.body)
  | _ => []

theorem take_snd {α : Type} {n : Nat} (f : α → Answer) (parsed : Parsed α n) :
    (p.take f parsed).2 = { p with rest := parsed.ahead } := by
  cases parsed <;> rfl

theorem step_keeps (p : Parser) (call : Call) :
    (p.step call).2.tokens = p.tokens ∧ (p.step call).2.rest <:+ p.rest := by
  have htake : ∀ {α : Type} {n : Nat} (f : α → Answer) {parsed : Parsed α n},
      parsed.ahead <:+ p.rest →
        (p.take f parsed).2.tokens = p.tokens ∧ (p.take f parsed).2.rest <:+ p.rest := by
    intro α n f parsed h
    rw [take_snd]
    exact ⟨rfl, h⟩
  cases call with
  | currentToken | peekToken | matchKinds | note | isHeader => exact ⟨rfl, List.suffix_refl _⟩
  | advance => exact ⟨rfl, List.drop_suffix 1 _⟩
  | skipTrivia => exact ⟨rfl, skipTrivia_suffix _⟩
  | skipWhitespace => exact ⟨rfl, skipWhitespace_suffix _⟩
  | expect kind =>
    rw [step, expect]
    split
    · exact ⟨rfl, List.suffix_refl _⟩
    · split
      · rename_i failure herror
        exact ⟨rfl, (within_of_expect herror).rest⟩
      · rename_i t rest hok
        exact ⟨rfl, expect_suffix hok⟩
  | header =>
    rw [step, header]
    dsimp only
    split
    · rename_i herror
      exact ⟨rfl, (within_of_header herror).rest⟩
    · rename_i hok
      exact ⟨rfl, header_suffix hok⟩
  | production => exact htake _ (within_production p.rest).ahead
  | choice => exact htake _ (within_choice p.rest).ahead
  | sequence => exact htake _ (within_sequence p.rest).ahead
  | unary => exact htake _ (within_unary p.rest).ahead
  | atom => exact htake _ (within_atom p.rest).ahead
  | parse =>
    rw [step, parse]
    dsimp only
    split
    · rename_i herror
      exact ⟨rfl, (within_of_entries herror).rest⟩
    · exact ⟨rfl, List.nil_suffix⟩

theorem step_returns (p : Parser) (h : ∀ ahead, call = .peekToken ahead → 0 ≤ ahead) :
    Returns call (p.step call).1 ∨ ∃ e, (p.step call).1 = .error e := by
  have htake : ∀ {α : Type} {n : Nat} (f : α → Answer) (parsed : Parsed α n),
      (∀ a, Returns call (f a)) →
        Returns call (p.take f parsed).1 ∨ ∃ e, (p.take f parsed).1 = .error e := by
    intro α n f parsed hf
    cases parsed with
    | done value rest shorter => exact .inl (hf value)
    | failed failure => exact .inr ⟨_, rfl⟩
  cases call with
  | currentToken => exact .inl (.currentToken _)
  | peekToken ahead =>
    have hahead := h ahead rfl
    rw [step, peek]
    dsimp only
    split
    · exact .inl (.peekToken ahead _)
    · rw [if_neg (by omega)]
      exact .inl (.peekToken ahead _)
  | advance => exact .inl (.advance _)
  | matchKinds kinds => exact .inl (.matchKinds kinds _)
  | expect kind =>
    rw [step, expect]
    split
    · exact .inl (.expect kind _)
    · split
      · exact .inr ⟨_, rfl⟩
      · exact .inl (.expect kind _)
  | note message => exact .inl (.note message _)
  | skipTrivia => exact .inl (.skipTrivia _)
  | skipWhitespace => exact .inl .skipWhitespace
  | isHeader => exact .inl (.isHeader _)
  | header =>
    rw [step, header]
    dsimp only
    split
    · exact .inr ⟨_, rfl⟩
    · exact .inl .header
  | production => exact htake _ _ .production
  | choice => exact htake _ _ .choice
  | sequence => exact htake _ _ .sequence
  | unary => exact htake _ _ .unary
  | atom => exact htake _ _ .atom
  | parse =>
    rw [step, parse]
    dsimp only
    split
    · exact .inr ⟨_, rfl⟩
    · exact .inl (.parse _)

theorem Returns.exists_note {e : SyntaxError} (h : Returns call (.error e)) :
    ∃ message, call = .note message := by
  cases h with
  | note message => exact ⟨message, rfl⟩

theorem step_shorter (p : Parser) (hreads : call.readsRule) (h : Returns call (p.step call).1) :
    (p.step call).2.rest.length < p.rest.length := by
  have hnever : ∀ e, ¬ Returns call (.error e) := by
    intro e he
    obtain ⟨message, rfl⟩ := he.exists_note
    cases hreads
  have htake : ∀ {α : Type} (f : α → Answer) (parsed : Parsed α p.rest.length),
      Returns call (p.take f parsed).1 → (p.take f parsed).2.rest.length < p.rest.length := by
    intro α f parsed h
    cases parsed with
    | done value rest shorter => exact shorter
    | failed failure => exact absurd h (hnever _)
  cases call with
  | production | choice | sequence | unary | atom => exact htake _ _ h
  | _ => cases hreads

structure Over (all : TokenList) (p : Parser) : Prop where
  tokens : p.tokens = all
  rest : p.rest <:+ all.tokens

theorem over_start (source : Text) (all : TokenList) : (start source all).Over all :=
  ⟨rfl, List.suffix_refl _⟩

theorem Over.step (h : p.Over all) (call : Call) : (p.step call).2.Over all :=
  ⟨(p.step_keeps call).1.trans h.tokens, (p.step_keeps call).2.trans h.rest⟩

theorem Over.offset_add (h : p.Over all) : p.offset + p.rest.length = all.tokens.length := by
  have := h.rest.length_le
  rw [offset, h.tokens]
  omega

theorem Over.rest_eq (h : p.Over all) : p.rest = all.tokens.drop p.offset := by
  rw [offset, h.tokens]
  exact List.suffix_iff_eq_drop.1 h.rest

theorem Over.current_eq (h : p.Over all) : all.toList[p.offset]? = some p.current := by
  have hle : p.offset ≤ all.tokens.length := by
    have := h.offset_add
    omega
  rw [← List.head?_drop, TokenList.toList, List.drop_append_of_le_length hle, ← h.rest_eq,
    current, finish, h.tokens]
  cases p.rest <;> rfl

theorem step_completes (p : Parser) (call : Call) :
    ∀ e ∈ (p.step call).1.exprs, ∃ us, us <:+ p.rest ∧ Completes us e := by
  have hexpr : ∀ (parsed : Parsed Expr p.rest.length),
      (∀ e rest, parsed.toExcept = .ok (e, rest) → Completes p.rest e) →
        ∀ e ∈ (p.take .expr parsed).1.exprs, ∃ us, us <:+ p.rest ∧ Completes us e := by
    intro parsed h
    cases parsed with
    | done value rest shorter =>
      exact List.forall_mem_singleton.2 ⟨p.rest, List.suffix_refl _, h value rest rfl⟩
    | failed failure => exact nofun
  cases call with
  | currentToken | advance | matchKinds | note | skipTrivia | skipWhitespace | isHeader => exact nofun
  | peekToken ahead =>
    rw [step, peek]
    dsimp only
    split
    · exact nofun
    · split <;> exact nofun
  | expect kind =>
    rw [step, expect]
    split
    · exact nofun
    · split <;> exact nofun
  | header =>
    rw [step, header]
    dsimp only
    split <;> exact nofun
  | choice => exact hexpr _ fun e rest h => .choice h
  | sequence => exact hexpr _ fun e rest h => .sequence h
  | unary => exact hexpr _ fun e rest h => .unary h
  | atom => exact hexpr _ fun e rest h => .atom h
  | production =>
    rw [step]
    cases hparsed : Parsing.production p.rest with
    | done q rest shorter =>
      have hcompletes := production_completes (p := q) (by rw [hparsed]; rfl)
      exact fun e he => hcompletes e (Option.mem_toList.1 he)
    | failed failure => exact nofun
  | parse =>
    rw [step, parse]
    dsimp only
    split
    · exact nofun
    · rename_i ps hps
      have hreads : ReadsEntries p.rest (entries p.rest).name ps :=
        readsEntries_of_entries (by rw [← hps])
      intro e he
      obtain ⟨q, hq, hbody⟩ := List.mem_filterMap.1 he
      exact hreads.completes q hq e hbody

theorem Over.wellFormed {source text : Text} (h : p.Over all)
    (hall : TokenList.ofText source text = .ok all) (call : Call) :
    ∀ e ∈ (p.step call).1.exprs, ∀ d ∈ e.nodes, d.WellFormed := by
  intro e he
  obtain ⟨us, hus, hcompletes⟩ := p.step_completes call e he
  exact hcompletes.wellFormed ((TokenList.sound_ofText hall).of_suffix (hus.trans h.rest))
    ((TokenList.spaced_ofText hall).of_suffix (hus.trans h.rest))

/-- What a call makes of a parser: it returns or refuses the text, and what it has built is well
formed. The parser keeps its tokens, stays among them and does not go back. -/
structure Advances (p : Parser) (call : Call) (answer : Answer) (p' : Parser) : Prop where
  tokens : p'.tokens = p.tokens
  answers : (∀ ahead, call = .peekToken ahead → 0 ≤ ahead) →
    Returns call answer ∨ ∃ e, answer = .error e
  wellFormed : ∀ e ∈ answer.exprs, ∀ d ∈ e.nodes, d.WellFormed
  forward : p.offset ≤ p'.offset
  within : p'.offset ≤ p'.tokens.toList.findIdx (·.kind == .finish)
  current : p'.tokens.toList[p'.offset]? = some p'.current
  progress : call.readsRule → Returns call answer → p.offset < p'.offset

theorem Over.advances {source text : Text} (h : p.Over all)
    (hall : TokenList.ofText source text = .ok all) (call : Call) :
    p.Advances call (p.step call).1 (p.step call).2 := by
  have hoffset := h.offset_add
  have hoffset' := (h.step call).offset_add
  have hkeeps := p.step_keeps call
  have hle := hkeeps.2.length_le
  exact {
    tokens := hkeeps.1
    answers := p.step_returns
    wellFormed := h.wellFormed hall call
    forward := by omega
    within := by
      rw [(h.step call).tokens, TokenList.findIdx_finish hall]
      omega
    current := by
      rw [(h.step call).tokens]
      exact (h.step call).current_eq
    progress := by
      intro hreads hreturns
      have := p.step_shorter hreads hreturns
      omega }

theorem Over.forall₂_run {source text : Text} (h : p.Over all)
    (hall : TokenList.ofText source text = .ok all) (calls : List Call) :
    List.Forall₂ (fun before after => Advances before.1 before.2 after.1 after.2)
      ((p :: (p.run calls).map Prod.snd).zip calls) (p.run calls) := by
  induction calls generalizing p with
  | nil => exact .nil
  | cons call calls ih => exact .cons (h.advances hall call) (ih (h.step call))

/-- Over any series of calls, also such as refuse the text, each call is answered and leaves the
parser in order for the next. -/
theorem run_advances {source text : Text} (h : TokenList.ofText source text = .ok all)
    (calls : List Call) :
    let answers := (start source all).run calls
    List.Forall₂ (fun before after => Advances before.1 before.2 after.1 after.2)
      ((start source all :: answers.map Prod.snd).zip calls) answers :=
  (over_start source all).forall₂_run h calls

theorem run_advances_after_refusal :
    ∃ all, TokenList.ofText [] "a:(b".toList = .ok all ∧
      let answers := (start [] all).run [.choice, .atom, .production, .peekToken 9, .advance, .parse]
      List.Forall₂ (fun before after => Advances before.1 before.2 after.1 after.2)
        ((start [] all :: answers.map Prod.snd).zip
          [.choice, .atom, .production, .peekToken 9, .advance, .parse]) answers := by
  have hall : TokenList.ofText [] "a:(b".toList =
      .ok ⟨[⟨.word, ['a'], ⟨1, 1⟩⟩, ⟨.colon, [':'], ⟨1, 2⟩⟩, ⟨.openParen, ['('], ⟨1, 3⟩⟩,
        ⟨.word, ['b'], ⟨1, 4⟩⟩], ⟨1, 5⟩⟩ :=
    TokenList.ofText_eq_ok_iff.2 (by decide +kernel)
  exact ⟨_, hall, run_advances hall _⟩

end Parser

end GrammarCheck
