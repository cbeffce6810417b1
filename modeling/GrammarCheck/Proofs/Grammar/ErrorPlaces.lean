import GrammarCheck.Grammar.File
import GrammarCheck.Proofs.Notation.Faults
import GrammarCheck.Proofs.Parsing.Refusals
import GrammarCheck.Proofs.Report.Marker
import GrammarCheck.Proofs.Text.SourceLine

namespace GrammarCheck

variable {t : Text} {k : Nat} {e : SyntaxError}

theorem Failure.Within.liesIn {failure : Failure} {ts : TokenList} (h : failure.Within ts.tokens)
    (hfinish : ts.finish.LiesIn t) (htokens : ∀ token ∈ ts.tokens, token.position.LiesIn t) :
    (failure.position ts.finish).LiesIn t := by
  unfold position
  cases hculprit : failure.culprit with
  | none => exact hfinish
  | some token => exact htokens token (h.culprit token hculprit)

/-- A context has the line and column of an offset of a text, up to the blanks at its end, whatever
was asked of the index of line starts before and whatever the text is called there. -/
structure Context.PointsAt (context : Context) (t : Text) (k : Nat) : Prop where
  within : k ≤ t.trimRight.length
  place (calls : List LineCache.Call) (buffer : Text) :
    ((LineCache.empty.run calls).2.lineCol buffer t k).1 = (context.line, context.column)

namespace SyntaxError

def context (e : SyntaxError) : Context :=
  ⟨e.source, e.position.line, e.position.column, e.snippet⟩

theorem pointsAt (hk : k ≤ t.trimRight.length) (hplace : e.position.coordinates = t.lineCol k) :
    e.context.PointsAt t k where
  within := hk
  place calls buffer := by
    rw [LineCache.lineCol_run, ← hplace]
    rfl

/-- A text is spoilt at an offset. The snippet is the line that holds the character there, at the
column of the context, and the marker stands below that character. -/
structure MarksAt (e : SyntaxError) (t : Text) (k : Nat) (context : Context) : Prop where
  spoilt : t.SpoiltAt e.fault k
  marked : ∃ (c : Char) (snippet : Text) (j : Nat), e.fault.mark? = some c ∧
    context.snippet = some snippet ∧ context.column = j + 1 ∧
    t.IsSnippet k c context.line snippet j ∧ e.problem.Marks snippet j

theorem marksAt (hspoilt : t.SpoiltAt e.fault k) (hplace : e.position.coordinates = t.lineCol k)
    (hsnippet : e.snippet = some (t.sourceLine e.position.line)) : e.MarksAt t k e.context := by
  obtain ⟨c, hmark, hc, -⟩ := hspoilt.exists_mark
  have ht : t ≠ [] := by
    rintro rfl
    cases hc
  have hat := Text.isAt_lineCol ht (Int.natCast_nonneg k)
  rw [← hplace] at hat
  obtain ⟨j, hcolumn, hline⟩ := hat.exists_isSnippet hc (Fault.not_isLineEnd_mark hmark)
  have hne : t.sourceLine e.position.line ≠ [] := by
    intro hnil
    have hshown := hline.shown
    rw [Position.coordinates, hnil] at hshown
    cases hshown
  have hcontext : e.problem.context = some e.context := rfl
  exact ⟨hspoilt, c, _, j, hmark, hsnippet, hcolumn, hline,
    Problem.marks hcontext hsnippet hne hline.not_mem (Fault.not_mem_message hmark) hcolumn⟩

end SyntaxError

namespace Grammar

variable {source name : Text} {source? : Option Text}

theorem exists_place_of_ofText (h : ofText source name t = .error e) :
    e.source = source ∧ ∃ k, k ≤ t.trimRight.length ∧ e.position.coordinates = t.lineCol k ∧
      (TokenList.ofText source t = .error e → e.MarksAt t k e.context) := by
  unfold ofText at h
  split at h
  · rename_i e' herror
    cases h
    obtain ⟨hsource, hsnippet, k, hspoilt, hplace⟩ := TokenList.spoiltAt_of_ofText herror
    obtain ⟨-, -, -, hlt⟩ := hspoilt.exists_mark
    exact ⟨hsource, k, Nat.le_of_lt hlt, hplace, fun _ => e.marksAt hspoilt hplace hsnippet⟩
  · rename_i ts hts
    dsimp only at h
    split at h
    · rename_i failure hfailure
      cases h
      obtain ⟨hfinish, htokens⟩ := TokenList.liesIn_of_ofText hts
      obtain ⟨k, hk, hplace⟩ := (Parsing.within_of_entries hfailure).liesIn hfinish htokens
      refine ⟨rfl, k, hk, hplace, fun herror => ?_⟩
      rw [hts] at herror
      cases herror
    · cases h

theorem sourceName_of_ne_nil (h : source ≠ []) (name : Text) :
    sourceName (some source) name = source := by
  obtain ⟨c, rest, rfl⟩ := List.exists_cons_of_ne_nil h
  rfl

/-- An error points at a place of the text that is refused. If the text cannot be read into tokens,
the character that is to blame stands there, and is shown and marked. -/
theorem ofText_error_points (h : ofText (sourceName source? name) name t = .error e) :
    ∃ k context, e.problem.context = some context ∧ context.file = sourceName source? name ∧
      (∀ source ∈ source?, source ≠ [] → context.file = source) ∧ context.PointsAt t k ∧
      (TokenList.ofText context.file t = .error e → e.MarksAt t k context) := by
  obtain ⟨hsource, k, hk, hplace, hmarks⟩ := exists_place_of_ofText h
  refine ⟨k, e.context, rfl, hsource, ?_, e.pointsAt hk hplace, ?_⟩
  · rintro source ⟨⟩ hne
    exact hsource.trans (sourceName_of_ne_nil hne name)
  · rwa [← hsource] at hmarks

theorem ofText_error_points_escape :
    ∃ e, ofText (sourceName (some "g".toList) []) [] "a:'b';\r\n c:'\\d'".toList = .error e ∧
      TokenList.ofText "g".toList "a:'b';\r\n c:'\\d'".toList = .error e ∧
      ∃ k context, e.problem.context = some context ∧
        context.file = sourceName (some "g".toList) [] ∧
        (∀ source ∈ some "g".toList, source ≠ [] → context.file = source) ∧
        context.PointsAt "a:'b';\r\n c:'\\d'".toList k ∧
        (TokenList.ofText context.file "a:'b';\r\n c:'\\d'".toList = .error e →
          e.MarksAt "a:'b';\r\n c:'\\d'".toList k context) := by
  have htokens : TokenList.ofText "g".toList "a:'b';\r\n c:'\\d'".toList =
      .error ⟨"g".toList, ⟨2, 5⟩, some " c:'\\d'".toList, .illegalEscape⟩ :=
    TokenList.ofText_eq_error_iff.2 ⟨⟨.illegalEscape, ⟨2, 5⟩⟩, by decide +kernel, by decide +kernel⟩
  have herror : ofText (sourceName (some "g".toList) []) [] "a:'b';\r\n c:'\\d'".toList =
      .error ⟨"g".toList, ⟨2, 5⟩, some " c:'\\d'".toList, .illegalEscape⟩ := by
    rw [sourceName_of_ne_nil (by decide), ofText, htokens]
  exact ⟨_, herror, htokens, ofText_error_points herror⟩

end Grammar

end GrammarCheck
