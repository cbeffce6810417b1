import GrammarCheck.Proofs.Grammar.Comparison
import GrammarCheck.Proofs.Spec.Reading
import GrammarCheck.Spec.Check
import Mathlib.Data.List.Forall2

namespace GrammarCheck

namespace RuleTable

variable {name : Text}

end RuleTable

namespace Grammar

variable {g g' : Grammar} {start name : Text} {d : Difference}

end Grammar

namespace Check

open Spec

variable {settings : Settings} {documents : List Document} {authority : Grammar} {d : Difference}
  {r : Reader}

def shownName (authority : Grammar) : Text :=
  if authority.name.isEmpty then "grammar".toList else authority.name

theorem locate_eq_ok (h : r.Sound settings documents) {name : Text}
    (hname : name ∈ r.spec.grammar.ruleNames) :
    ∃ location, r.spec.locate name = .ok (some location) ∧
      ∃ document ∈ documents, document.filename = location.filename ∧
        Defines settings document name := by
  obtain ⟨f, hf, hmem⟩ := h.rules name hname
  cases hfind : r.spec.find? name with
  | none =>
    have hnone := List.find?_eq_none.1 hfind f hf
    simp [hmem] at hnone
  | some f =>
    have hnames : name ∈ f.names := by simpa using List.find?_some hfind
    obtain ⟨document, hdocument, hfilename, hdefines⟩ :=
      h.fragments f (List.mem_of_find?_eq_some hfind)
    obtain ⟨location, hlocate, hlocation⟩ := Location.find_eq_ok f.filename
      ((r.spec.texts.lookup f.filename).getD []) (f.within.map (·.target))
      (some f.block) (by simp [Fragment.block, Block.words])
    refine ⟨location, ?_, document, hdocument, hfilename.trans hlocation.symm, hdefines name hnames⟩
    simp only [Spec.locate, hfind, hlocate]
    rfl

end Check

end GrammarCheck
