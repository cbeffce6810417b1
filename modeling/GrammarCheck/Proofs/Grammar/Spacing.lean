import GrammarCheck.Proofs.Grammar.Comparison
import GrammarCheck.Proofs.Grammar.Stable
import GrammarCheck.Proofs.Notation.UnifiedLineEnds
import GrammarCheck.Proofs.Parsing.RespelledEntries

namespace GrammarCheck

variable {newline name : Text} {p : Production}

namespace Expr

theorem encloses_withoutSpace (j : Joint) (e : Expr) :
    j.encloses e.withoutSpace = j.encloses e := by
  cases j with
  | choice => rfl
  | sequence => exact isChoice_withoutSpace e

theorem print_withoutSpace (newline : Text) (e : Expr) :
    e.withoutSpace.print newline = e.print newline := by
  induction e with
  | leaf => rfl
  | repeated r body label after ih =>
    rw [withoutSpace, print, ih, isGroup_withoutSpace]
    rfl
  | group j items label after ih =>
    have hitems : ∀ (es : List Expr) (before : Option Text),
        (∀ e ∈ es, e.withoutSpace.print newline = e.print newline) →
        print.printItems newline j before (es.map withoutSpace) =
          print.printItems newline j before es := by
      intro es before hes
      induction es generalizing before with
      | nil => rfl
      | cons e es ihes =>
        rw [List.map_cons, print.printItems, encloses_withoutSpace, hes e List.mem_cons_self,
          ihes _ fun d hd => hes d (List.mem_cons_of_mem _ hd), print.printItems]
    rw [withoutSpace, withoutSpace_all, print, hitems items none ih]
    rfl

end Expr

namespace Production

theorem name_withoutSpace (p : Production) : p.withoutSpace.name = p.name := by
  simp [name, withoutSpace, Option.map_map, Function.comp_def]

theorem print_withoutSpace (newline : Text) (p : Production) :
    p.withoutSpace.print newline = p.print newline := by
  cases hrule : p.rule with
  | none => simp [print, withoutSpace, hrule]
  | some rule => simp [print, withoutSpace, hrule, Expr.print_withoutSpace]

end Production

namespace Grammar

variable {g g' : Grammar}

theorem last?_withoutSpace (g : Grammar) (name : Text) :
    (g.productions.map Production.withoutSpace).reverse.find? (·.name == some name) =
      (g.last? name).map Production.withoutSpace := by
  rw [← List.map_reverse, List.find?_map, last?]
  simp only [Function.comp_def, Production.name_withoutSpace]

theorem last?_of_mem (h : (name, p) ∈ (RuleTable.ofGrammar g).entries) : g.last? name = some p :=
  (find?_ruleTable g name).symm.trans
    (RuleTable.find?_of_mem (RuleTable.nodup_names_ofGrammar g) h)

def SameButSpace (g g' : Grammar) : Prop :=
  g.productions.map Production.withoutSpace = g'.productions.map Production.withoutSpace

theorem SameButSpace.last? (h : g.SameButSpace g') (hp : g.last? name = some p) :
    ∃ q, g'.last? name = some q ∧ q.withoutSpace = p.withoutSpace := by
  have hlast : (g'.last? name).map Production.withoutSpace = some p.withoutSpace := by
    rw [← last?_withoutSpace, ← h, last?_withoutSpace, hp, Option.map_some]
  exact Option.map_eq_some_iff.1 hlast

theorem SameButSpace.mismatches (h : g.SameButSpace g') :
    (RuleTable.ofGrammar g).mismatches (RuleTable.ofGrammar g') = [] := by
  refine List.filterMap_eq_nil_iff.2 fun (name, p) hmem => ?_
  obtain ⟨q, hq, hsame⟩ := h.last? (last?_of_mem hmem)
  have hprint : p.print defaultNewline = q.print defaultNewline := by
    rw [← p.print_withoutSpace, ← hsame, q.print_withoutSpace]
  simp [find?_ruleTable, hq, hprint]

theorem SameButSpace.lacking (h : g.SameButSpace g') (start : Text) :
    RuleTable.lacking start (RuleTable.ofGrammar g) (RuleTable.ofGrammar g') = [] := by
  refine List.filter_eq_nil_iff.2 fun name hname => ?_
  obtain ⟨⟨_, p⟩, hmem, rfl⟩ := List.mem_map.1 hname
  obtain ⟨q, hq, -⟩ := h.last? (last?_of_mem hmem)
  simp [find?_ruleTable, hq]

theorem SameButSpace.compare (h : g.SameButSpace g') (start : Text) : g.compare g' start = [] := by
  simp [Grammar.compare, h.mismatches, h.lacking start, SameButSpace.lacking (Eq.symm h) start]

end Grammar

namespace Token

/-- What a token says, but for its place and the spelling of a line end. -/
def wording (t : Token) : Kind × Text := (t.kind, if t.kind = .newline then [] else t.value)

end Token

def wording (ts : List Token) : List (Token.Kind × Text) :=
  (ts.filter (·.kind != .whitespace)).map Token.wording

def Respelling.bare : Respelling where
  keepsSpace := false
  token t := ⟨t.wording.1, t.wording.2, ⟨1, 1⟩⟩
  kind_token _ := rfl
  value_token _ h := if_neg h

namespace Respelling

theorem tokens_bare (ts : List Token) :
    bare.tokens ts = (wording ts).map fun w => ⟨w.1, w.2, ⟨1, 1⟩⟩ := by
  rw [wording, List.map_map]
  rfl

theorem production_unified : unified.production = id := rfl

theorem Alike.position {f f' : Failure} (h : unified.Alike f f') (finish : Position) :
    f'.position finish = f.position finish := by
  rw [Failure.position, Failure.position, h.culprit, Option.map_map]
  rfl

end Respelling

namespace Grammar

variable {source source' default text text' : Text} {ts ts' : TokenList}

theorem wording_tokens (h : wording ts.toList = wording ts'.toList) :
    wording ts.tokens = wording ts'.tokens := by
  simp only [TokenList.toList, wording, List.filter_append, List.map_append] at h
  exact List.append_cancel_right h

theorem ofText_of_error {failure : Failure} (h : TokenList.ofText source text = .ok ts)
    (herror : (Parsing.entries ts.tokens).result = .error failure) :
    ofText source default text = .error (failure.error source ts.finish) := by
  simp [ofText, h, herror]

theorem ofText_of_ok {ps : List Production} (h : TokenList.ofText source text = .ok ts)
    (hok : (Parsing.entries ts.tokens).result = .ok ps) :
    ofText source default text =
      .ok ⟨(Parsing.entries ts.tokens).name.getD default, ps, newlineOf ts.tokens⟩ := by
  simp [ofText, h, hok]

/-- Texts of the same wording are both refused with the same message, or both parsed as grammars that
differ in blanks only and have no differences. -/
theorem ofText_of_same_wording (hts : TokenList.ofText source text = .ok ts)
    (hts' : TokenList.ofText source' text' = .ok ts')
    (h : wording ts.toList = wording ts'.toList) :
    (∃ e e', ofText source default text = .error e ∧ ofText source' default text' = .error e' ∧
      e.fault.message = e'.fault.message) ∨
    ∃ g g', ofText source default text = .ok g ∧ ofText source' default text' = .ok g' ∧
      g.name = g'.name ∧
      g.productions.map Production.withoutSpace = g'.productions.map Production.withoutSpace ∧
      ∀ start, g.compare g' start = [] ∧ g'.compare g start = [] := by
  have hread := Respelling.bare.entries_agrees ts.tokens
  have hread' := Respelling.bare.entries_agrees ts'.tokens
  rw [Respelling.tokens_bare, wording_tokens h, ← Respelling.tokens_bare] at hread
  obtain ⟨hname, hresult⟩ := hread
  obtain ⟨hname', hresult'⟩ := hread'
  generalize hfound : (Parsing.entries ts.tokens).result = found at hresult
  generalize hfound' : (Parsing.entries ts'.tokens).result = found' at hresult'
  generalize (Parsing.entries (Respelling.bare.tokens ts'.tokens)).result = bare at hresult hresult'
  cases hresult with
  | error alike =>
    obtain _ | alike' := hresult'
    exact .inl ⟨_, _, ofText_of_error hts hfound, ofText_of_error hts' hfound',
      alike.message.symm.trans alike'.message⟩
  | ok ps =>
    generalize hbare : Except.ok (ps.map Respelling.bare.production) = bare at hresult'
    obtain ps' | _ := hresult'
    · have hsame : SameButSpace ⟨(Parsing.entries ts.tokens).name.getD default, ps, newlineOf ts.tokens⟩
          ⟨(Parsing.entries ts'.tokens).name.getD default, ps', newlineOf ts'.tokens⟩ :=
        Except.ok.inj hbare
      refine .inr ⟨_, _, ofText_of_ok hts hfound, ofText_of_ok hts' hfound', ?_, hsame,
        fun start => ⟨hsame.compare start, SameButSpace.compare (Eq.symm hsame) start⟩⟩
      rw [← hname, hname']
    · cases hbare

theorem ofText_of_same_wording_spaced :
    ∃ ts ts', TokenList.ofText [] "a:(b|c)?;//x\nd:e".toList = .ok ts ∧
      TokenList.ofText [] "a : (b\t| c )?;  //x\r\nd:e".toList = .ok ts' ∧
      wording ts.toList = wording ts'.toList ∧
      ((∃ e e', ofText [] [] "a:(b|c)?;//x\nd:e".toList = .error e ∧
        ofText [] [] "a : (b\t| c )?;  //x\r\nd:e".toList = .error e' ∧
        e.fault.message = e'.fault.message) ∨
      ∃ g g', ofText [] [] "a:(b|c)?;//x\nd:e".toList = .ok g ∧
        ofText [] [] "a : (b\t| c )?;  //x\r\nd:e".toList = .ok g' ∧ g.name = g'.name ∧
        g.productions.map Production.withoutSpace = g'.productions.map Production.withoutSpace ∧
        ∀ start, g.compare g' start = [] ∧ g'.compare g start = []) := by
  have hts : TokenList.ofText [] "a:(b|c)?;//x\nd:e".toList = .ok ⟨_, _⟩ :=
    TokenList.ofText_eq_ok_iff.2 ⟨by decide +kernel, rfl, rfl⟩
  have hts' : TokenList.ofText [] "a : (b\t| c )?;  //x\r\nd:e".toList = .ok ⟨_, _⟩ :=
    TokenList.ofText_eq_ok_iff.2 ⟨by decide +kernel, rfl, rfl⟩
  refine ⟨_, _, hts, hts', ?wording, ofText_of_same_wording hts hts' ?wording⟩
  decide +kernel

/-- With unified line ends a text is refused at the same place and with the same message and source
line, or parsed as a grammar of the same name and productions. -/
theorem ofText_unifyLineEnds (source default t : Text) :
    (∃ e e', ofText source default t = .error e ∧
      ofText source default t.unifyLineEnds = .error e' ∧
      e'.fault.message = e.fault.message ∧ e'.position = e.position ∧ e'.snippet = e.snippet) ∨
    ∃ g g', ofText source default t = .ok g ∧ ofText source default t.unifyLineEnds = .ok g' ∧
      g'.name = g.name ∧ g'.productions = g.productions := by
  cases htokens : TokenList.ofText source t with
  | error e =>
    have htokens' := TokenList.ofText_unifyLineEnds_of_error htokens
    exact .inl ⟨e, e, by rw [ofText, htokens], by rw [ofText, htokens'], rfl, rfl, rfl⟩
  | ok ts =>
    have htokens' := TokenList.ofText_unifyLineEnds_of_ok htokens
    obtain ⟨hname, hresult⟩ := Respelling.unified.entries_agrees ts.tokens
    generalize hfound : (Parsing.entries ts.tokens).result = found at hresult
    generalize hfound' : (Parsing.entries (Respelling.unified.tokens ts.tokens)).result = found'
      at hresult
    cases hresult with
    | error alike =>
      exact .inl ⟨_, _, ofText_of_error htokens hfound, ofText_of_error htokens' hfound',
        alike.message, alike.position ts.finish, rfl⟩
    | ok ps =>
      refine .inr ⟨_, _, ofText_of_ok htokens hfound, ofText_of_ok htokens' hfound', ?_, ?_⟩
      · exact congrArg (·.getD default) hname
      · rw [Respelling.production_unified, List.map_id]

end Grammar

end GrammarCheck
