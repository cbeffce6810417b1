import GrammarCheck.Proofs.Grammar.Printed

namespace GrammarCheck

def spaceBefore (atStart : Bool) : Text := if atStart then [] else [' ']

def Symbol.written (atStart : Bool) (s : Symbol) : Text :=
  match s.1 with
  | .newline => s.2 ++ ['\t']
  | .comment | .closeParen => ' ' :: s.2
  | .plus | .star | .question => s.2
  | .terminal => spaceBefore atStart ++ '\'' :: s.2.escapeTerminal ++ ['\'']
  | _ => spaceBefore atStart ++ s.2

def rendered (atStart : Bool) : List Symbol → Text
  | [] => []
  | s :: ss => s.written atStart ++ rendered (s.1 == .newline) ss

def startsAfter (atStart : Bool) (ss : List Symbol) : Bool :=
  (ss.getLast?.map (·.1 == .newline)).getD atStart

variable {t u newline : Text} {ss ss' : List Symbol} {s : Symbol} {e : Expr} {j : Joint}

theorem startsAfter_append (atStart : Bool) (ss ss' : List Symbol) :
    startsAfter atStart (ss ++ ss') = startsAfter (startsAfter atStart ss) ss' := by
  rw [startsAfter, List.getLast?_append]
  cases h : ss'.getLast? with
  | none => simp [startsAfter, h]
  | some s => simp [startsAfter, h]

theorem rendered_append (atStart : Bool) (ss ss' : List Symbol) :
    rendered atStart (ss ++ ss') =
      rendered atStart ss ++ rendered (startsAfter atStart ss) ss' := by
  induction ss generalizing atStart with
  | nil => rfl
  | cons s ss ih =>
    have hstart : startsAfter atStart (s :: ss) = startsAfter (s.1 == .newline) ss :=
      startsAfter_append atStart [s] ss
    rw [List.cons_append, rendered, ih, hstart, ← List.append_assoc, ← rendered]

theorem rendered_trivia (atStart : Bool) (newline : Text) (t : Trivia) :
    rendered atStart (t.printedMarks newline) = t.print newline := by
  obtain ⟨whitespace, comment, isNewline⟩ := t
  cases comment <;> cases isNewline <;>
    simp [Trivia.printedMarks, Trivia.print, rendered, Symbol.written]

theorem startsAfter_trivia (atStart : Bool) (newline : Text) (t : Trivia) :
    startsAfter atStart (t.printedMarks newline) =
      if (t.print newline).isEmpty then atStart else true := by
  obtain ⟨whitespace, comment, isNewline⟩ := t
  cases comment <;> cases isNewline <;> simp [Trivia.printedMarks, Trivia.print, startsAfter]

theorem endsInTab_trivia {t : Trivia} (h : t.print newline ≠ []) :
    endsInTab (t.print newline) = true := by
  have htab : ∀ u : Text, endsInTab (u ++ (newline ++ ['\t'])) = true := by
    intro u
    rw [endsInTab_append u (by simp), endsInTab_append newline (by simp)]
    rfl
  have hline : t.newline || !t.comment.isEmpty := by
    by_cases hempty : t.comment.isEmpty <;> simp_all [Trivia.print]
  rw [Trivia.print, if_pos hline]
  exact htab _

structure Renders (t : Text) (ss : List Symbol) : Prop where
  ne_nil : t ≠ []
  eq (atStart : Bool) : rendered atStart ss = spaceBefore atStart ++ t
  tab (atStart : Bool) : startsAfter atStart ss = endsInTab t

namespace Renders

theorem singleton (hne : t ≠ []) (hs : ∀ atStart, s.written atStart = spaceBefore atStart ++ t)
    (htab : endsInTab t = false) (hkind : s.1 ≠ .newline) : Renders t [s] where
  ne_nil := hne
  eq atStart := by simp [rendered, hs]
  tab atStart := by simp [startsAfter, htab, hkind]

theorem append_trivia (h : Renders t ss) (after : Trivia) :
    Renders (t ++ after.print newline) (ss ++ after.printedMarks newline) where
  ne_nil := by simp [h.ne_nil]
  eq atStart := by rw [rendered_append, rendered_trivia, h.eq, List.append_assoc]
  tab atStart := by
    rw [startsAfter_append, startsAfter_trivia, h.tab]
    by_cases hempty : after.print newline = []
    · simp [hempty]
    · rw [endsInTab_append t hempty, endsInTab_trivia hempty, if_neg (by simpa using hempty)]

theorem append_mark (h : Renders t ss) (r : Repetition) :
    Renders (t ++ [r.mark]) (ss ++ [(r.kind, [r.mark])]) where
  ne_nil := by simp
  eq atStart := by
    rw [rendered_append, h.eq]
    cases r <;> simp [rendered, Symbol.written, Repetition.kind]
  tab atStart := by
    rw [startsAfter_append, endsInTab_append t (by simp)]
    cases r <;> rfl

theorem enclose (h : Renders t ss) (inParens : Bool) :
    Renders (enclose inParens t) (encloseSymbols inParens ss) := by
  cases inParens with
  | false => exact h
  | true =>
    refine ⟨by simp [GrammarCheck.enclose], fun atStart => ?_, fun atStart => ?_⟩
    · have hopen : (Token.Kind.openParen == Token.Kind.newline) = false := rfl
      simp [encloseSymbols, GrammarCheck.enclose, rendered, Symbol.written, rendered_append, hopen,
        h.eq false, spaceBefore]
    · have hend : GrammarCheck.enclose true t = '(' :: ' ' :: t ++ [' ', ')'] := rfl
      rw [hend, endsInTab_append _ (by simp), encloseSymbols, if_pos rfl, startsAfter_append]
      rfl

theorem append_item (h : Renders t ss) (hu : Renders u ss') (j : Joint) :
    Renders (t ++ j.gap (some t) ++ u) (ss ++ (j.separator ++ ss')) where
  ne_nil := by simp [h.ne_nil]
  eq atStart := by
    rw [rendered_append, rendered_append, h.eq, h.tab, hu.eq]
    cases j with
    | choice => by_cases htab : endsInTab t <;>
        simp [Joint.separator, Joint.gap, rendered, Symbol.written, startsAfter, spaceBefore, htab]
    | sequence => by_cases htab : endsInTab t <;>
        simp [Joint.separator, Joint.gap, rendered, startsAfter, spaceBefore, htab, h.ne_nil]
  tab atStart := by
    rw [startsAfter_append, startsAfter_append, hu.tab, endsInTab_append _ hu.ne_nil]

end Renders

theorem endsInTab_quoted (t u : Text) : endsInTab ('\'' :: (t ++ (u ++ ['\'']))) = false := by
  rw [endsInTab_cons _ (by simp), endsInTab_append t (by simp), endsInTab_append u (by simp)]
  rfl

theorem Leaf.Printable.renders {l : Leaf} (h : l.Printable) : Renders l.print [l.symbol] := by
  have hkind : l.symbol.1 ≠ .newline := by cases l <;> simp [symbol]
  cases h with
  | terminal =>
    exact .singleton (by simp [print]) (fun _ => by simp [Symbol.written, print, symbol])
      (endsInTab_quoted [] _) hkind
  | special =>
    exact .singleton (by simp [print])
      (fun _ => by simp [Symbol.written, print, symbol, Text.escapeTerminal])
      (by simpa [print] using endsInTab_quoted ['<'] (Text.escapeTerminal _ ++ ['>'])) hkind
  | @reference name bareword =>
    exact .singleton bareword.ne_nil (fun _ => by simp [Symbol.written, print, symbol])
      (endsInTab_of_plain fun c hc => (bareword.plain c hc).1) hkind

namespace Expr

theorem renders_printItems {items : List Expr}
    (hitems : ∀ item ∈ items, Renders (item.print newline) (item.printedMarks newline))
    (h : Renders t ss) :
    Renders (print.printItems newline j (some t) items)
      (ss ++ printedMarks.further newline j items) := by
  induction items generalizing t ss with
  | nil => simpa [print.printItems, printedMarks.further] using h
  | cons item items ih =>
    have hitem := (hitems item List.mem_cons_self).enclose (j.encloses item)
    have happend := ih (fun x hx => hitems x (List.mem_cons_of_mem _ hx)) (h.append_item hitem j)
    simpa [print.printItems, printedMarks.further] using happend

theorem Printable.renders (h : Printable e) (newline : Text) :
    Renders (e.print newline) (e.printedMarks newline) := by
  induction h with
  | leaf leaf => exact leaf.renders.append_trivia _
  | @repeated r body after _ _ ih =>
    simpa [print, printedMarks] using ((ih.enclose body.isGroup).append_mark r).append_trivia after
  | @group j items after nonempty _ _ ih =>
    obtain ⟨e, es, rfl⟩ := List.exists_cons_of_ne_nil nonempty
    have hfirst := (ih e List.mem_cons_self).enclose (j.encloses e)
    have hitems := renders_printItems (j := j) (fun x hx => ih x (List.mem_cons_of_mem _ hx)) hfirst
    exact hitems.append_trivia after

theorem Printable.print_eq {d : Expr} (h : Printable e) (hd : Printable d)
    (hmarks : e.printedMarks newline = d.printedMarks newline) :
    e.print newline = d.print newline := by
  have heq := (h.renders newline).eq true
  rw [hmarks, (hd.renders newline).eq true] at heq
  exact heq.symm

end Expr

end GrammarCheck
