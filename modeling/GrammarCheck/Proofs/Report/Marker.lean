import GrammarCheck.Proofs.Text.Pieces
import GrammarCheck.Report.Problem

namespace GrammarCheck

theorem Text.not_mem_ofInt {c : Char} (hdigit : c.isDigit = false) (hminus : c ≠ '-') (i : Int) :
    c ∉ ofInt i := by
  have hnat : ∀ n, c ∉ ofNat n := by
    intro n hmem
    rw [isDigit_of_mem_ofNat hmem] at hdigit
    cases hdigit
  cases i with
  | ofNat n => exact hnat n
  | negSucc n => exact fun hmem => (List.mem_cons.1 hmem).elim hminus (hnat (n + 1))

namespace Context

variable {context : Context} {snippet : Text} {j : Nat}

def front (context : Context) : Text := (Text.ofInt context.line).padLeft 4 ' ' ++ " | ".toList

def marker (context : Context) : Text :=
  List.replicate (context.front.length + context.column - 1).toNat ' ' ++ "^^^".toList

def place (context : Context) : Text :=
  context.file ++ ':' :: Text.ofInt context.line ++ ':' :: Text.ofInt context.column

theorem formatSnippet_of_not_mem (h : '\n' ∉ snippet) :
    context.formatSnippet snippet = context.front ++ snippet ++ '\n' :: context.marker := by
  rw [formatSnippet, Text.pieces_of_not_mem h]
  simp [front, marker, Text.join]

theorem format_of_snippet (hsnippet : context.snippet = some snippet) (hne : snippet ≠ []) :
    context.format = context.place ++ '\n' :: context.formatSnippet snippet := by
  obtain ⟨c, rest, rfl⟩ := List.exists_cons_of_ne_nil hne
  rw [format, hsnippet]
  rfl

theorem not_mem_front (context : Context) : '\n' ∉ context.front := by
  have hnumber := Text.not_mem_ofInt (c := '\n') rfl (by decide) context.line
  simp [front, Text.padLeft, hnumber]

theorem not_mem_marker (context : Context) : '\n' ∉ context.marker := by
  simp [marker]

theorem findIdx?_marker (h : context.column = (j : Int) + 1) :
    context.marker.findIdx? (· == '^') = some (context.front.length + j) := by
  have hcolumn : (context.front.length + context.column - 1).toNat = context.front.length + j := by
    omega
  rw [marker, hcolumn, List.findIdx?_append]
  simp [List.findIdx?_cons]

end Context

namespace Problem

variable {problem : Problem} {context : Context} {snippet : Text} {j : Nat}

/-- The last lines of a problem as it is printed are the snippet behind the number of its line, the
marker and the message. The marker starts below the character of the snippet at this offset. -/
def Marks (problem : Problem) (snippet : Text) (j : Nat) : Prop :=
  ∃ above front marker, problem.format.pieces '\n' =
      above ++ [front ++ snippet, marker, problem.message] ∧
    marker.findIdx? (· == '^') = some (front.length + j)

theorem marks (hcontext : problem.context = some context) (hsnippet : context.snippet = some snippet)
    (hne : snippet ≠ []) (hline : '\n' ∉ snippet) (hmessage : '\n' ∉ problem.message)
    (hcolumn : context.column = (j : Int) + 1) : problem.Marks snippet j := by
  have hshown : '\n' ∉ context.front ++ snippet :=
    fun hmem => (List.mem_append.1 hmem).elim context.not_mem_front hline
  have hformat : problem.format = context.place ++ '\n' ::
      (context.front ++ snippet ++ '\n' :: (context.marker ++ '\n' :: problem.message)) := by
    rw [format, hcontext]
    dsimp only
    rw [Context.format_of_snippet hsnippet hne, Context.formatSnippet_of_not_mem hline,
      List.append_assoc, List.cons_append, List.append_assoc, List.cons_append]
  refine ⟨context.place.pieces '\n', context.front, context.marker, ?_,
    Context.findIdx?_marker hcolumn⟩
  rw [hformat, Text.pieces_append_cons, Text.pieces_append hshown,
    Text.pieces_append context.not_mem_marker, Text.pieces_of_not_mem hmessage]

end Problem

end GrammarCheck
