import GrammarCheck.Proofs.Grammar.Symbols

namespace GrammarCheck

def Trivia.printedMarks (newline : Text) (t : Trivia) : List Symbol :=
  (if t.comment.isEmpty then [] else [(.comment, '/' :: '/' :: t.comment)]) ++
    (if t.newline || !t.comment.isEmpty then [(.newline, newline)] else [])

def Expr.printedMarks (newline : Text) : Expr → List Symbol
  | .leaf l after => l.symbol :: after.printedMarks newline
  | .repeated r body _ after =>
    encloseSymbols body.isGroup (body.printedMarks newline) ++
      (r.kind, [r.mark]) :: after.printedMarks newline
  | .group _ [] _ after => after.printedMarks newline
  | .group j (e :: es) _ after =>
    encloseSymbols (j.encloses e) (e.printedMarks newline) ++ further j es ++
      after.printedMarks newline
where
  further (j : Joint) : List Expr → List Symbol
    | [] => []
    | e :: es =>
      j.separator ++ encloseSymbols (j.encloses e) (e.printedMarks newline) ++ further j es

variable {t u newline : Text} {ss ss' : List Symbol} {e : Expr} {j : Joint}

@[simp] theorem Trivia.significant_printedMarks (newline : Text) (t : Trivia) :
    significant (t.printedMarks newline) = [] := by
  unfold printedMarks
  split <;> split <;> rfl

@[simp] theorem significant_encloseSymbols (inParens : Bool) (ss : List Symbol) :
    significant (encloseSymbols inParens ss) = encloseSymbols inParens (significant ss) := by
  cases inParens with
  | false => rfl
  | true => simp [encloseSymbols, significant, Token.Kind.isTrivia]

@[simp] theorem Joint.significant_separator (j : Joint) :
    significant j.separator = j.separator := by
  cases j <;> rfl

theorem Leaf.isTrivia_symbol (l : Leaf) : l.symbol.1.isTrivia = false := by
  cases l <;> rfl

theorem Repetition.isTrivia_kind (r : Repetition) : r.kind.isTrivia = false := by
  cases r <;> rfl

theorem significant_cons {s : Symbol} (h : s.1.isTrivia = false) (ss : List Symbol) :
    significant (s :: ss) = s :: significant ss :=
  List.filter_cons_of_pos (by simp [h])

theorem Expr.significant_printedMarks (newline : Text) (e : Expr) :
    significant (e.printedMarks newline) = e.symbols := by
  induction e with
  | leaf l after => simp [printedMarks, symbols, significant_cons l.isTrivia_symbol]
  | repeated r body label after ih =>
    have hmark : (r.kind, [r.mark]).1.isTrivia = false := r.isTrivia_kind
    simp [printedMarks, symbols, ih, significant_cons hmark]
  | group j items label after ih =>
    have hfurther : ∀ es : List Expr, (∀ e ∈ es, significant (e.printedMarks newline) = e.symbols) →
        significant (printedMarks.further newline j es) = symbols.further j es := by
      intro es hes
      induction es with
      | nil => rfl
      | cons e es ihes =>
        simp [printedMarks.further, symbols.further, hes e List.mem_cons_self,
          ihes fun d hd => hes d (List.mem_cons_of_mem _ hd)]
    cases items with
    | nil => simp [printedMarks, symbols]
    | cons e es =>
      simp [printedMarks, symbols, ih e List.mem_cons_self,
        hfurther es fun d hd => ih d (List.mem_cons_of_mem _ hd)]

namespace Writes

theorem append_trivia (h : Writes t ss) (hnewline : IsNewline newline) {after : Trivia}
    (hcomment : OneLine after.comment) :
    Writes (t ++ after.print newline) (ss ++ after.printedMarks newline) := by
  have hends : EndsWord (newline ++ ['\t']) := by
    intro c hc
    exact .inl (isBlank_of_isLineEnd (hnewline.isLineEnd _ c hc))
  by_cases hempty : after.comment.isEmpty
  · by_cases hline : after.newline
    · have happend := h.append (writes_newline hnewline) fun _ => hends
      simpa [Trivia.print, Trivia.printedMarks, hempty, hline] using happend
    · simpa [Trivia.print, Trivia.printedMarks, hempty, hline] using h
  · have hcons := (writes_comment hcomment hnewline).cons_space (c := ' ') (by decide)
    have happend := h.append hcons fun _ => by simp [EndsWord, isBlank]
    simpa [Trivia.print, Trivia.printedMarks, hempty] using happend

theorem enclose (h : Writes t ss) (inParens : Bool) :
    Writes (enclose inParens t) (encloseSymbols inParens ss) := by
  cases inParens with
  | false => exact h
  | true =>
    have hclose : Writes [' ', ')'] [(.closeParen, [')'])] := (operator rfl).cons_space (by decide)
    have happend := h.append hclose fun _ => by simp [EndsWord, isBlank]
    exact .cons_operator rfl (happend.cons_space (by decide))

theorem append_item (h : Writes t ss) (hu : Writes u ss') (j : Joint) :
    Writes (t ++ j.gap (some t) ++ u) (ss ++ (j.separator ++ ss')) := by
  have hblank : isSpace ' ' := by decide
  cases j with
  | choice =>
    have hbar : Writes ('|' :: ' ' :: u) ((.bar, ['|']) :: ss') :=
      .cons_operator rfl (hu.cons_space hblank)
    by_cases htab : endsInTab t
    · have happend := h.append hbar fun _ => by simp [EndsWord, Text.stopsWord]
      simpa [Joint.gap, htab, Joint.separator] using happend
    · have happend := h.append (hbar.cons_space hblank) fun _ => by simp [EndsWord, isBlank]
      simpa [Joint.gap, htab, Joint.separator] using happend
  | sequence =>
    by_cases htab : endsInTab t
    · have happend := h.append hu fun hno => by rw [htab] at hno; cases hno
      simpa [Joint.gap, htab, Joint.separator] using happend
    · have happend := h.append (hu.cons_space hblank) fun _ => by simp [EndsWord, isBlank]
      simpa [Joint.gap, htab, h.ne_nil, Joint.separator] using happend

end Writes

theorem Leaf.Printable.writes {l : Leaf} (h : l.Printable) : Writes l.print [l.symbol] := by
  cases h with
  | terminal oneLine => exact writes_quoted oneLine
  | @special text oneLine =>
    have hline : ∀ c ∈ '<' :: text ++ ['>'], isLineEnd c = false := by
      intro c hc
      obtain rfl | hc : c = '<' ∨ c ∈ text ++ ['>'] := by simpa using hc
      · rfl
      · obtain hc | hc := List.mem_append.1 hc
        · exact oneLine c hc
        · obtain rfl := List.mem_singleton.1 hc
          rfl
    simpa [Leaf.print, Leaf.symbol, Text.escapeTerminal] using writes_quoted hline
  | reference bareword => exact writes_bareword bareword

namespace Expr

theorem writes_printItems {items : List Expr}
    (hitems : ∀ item ∈ items, Writes (item.print newline) (item.printedMarks newline))
    (h : Writes t ss) :
    Writes (print.printItems newline j (some t) items)
      (ss ++ printedMarks.further newline j items) := by
  induction items generalizing t ss with
  | nil => simpa [print.printItems, printedMarks.further] using h
  | cons item items ih =>
    have hitem := (hitems item List.mem_cons_self).enclose (j.encloses item)
    have happend := ih (fun x hx => hitems x (List.mem_cons_of_mem _ hx)) (h.append_item hitem j)
    simpa [print.printItems, printedMarks.further] using happend

theorem Printable.writes (h : Printable e) (hnewline : IsNewline newline) :
    Writes (e.print newline) (e.printedMarks newline) := by
  induction h with
  | leaf leaf comment => exact leaf.writes.append_trivia hnewline comment
  | @repeated r body after _ comment ih =>
    have hmark : Token.Kind.operator? r.mark = some r.kind := by cases r <;> rfl
    have hends : EndsWord [r.mark] := by
      cases r <;> simp [EndsWord, Repetition.mark, Text.stopsWord]
    have happend := (ih.enclose body.isGroup).append (.operator hmark) fun _ => hends
    simpa [print, printedMarks] using happend.append_trivia hnewline comment
  | @group j items after nonempty _ comment ih =>
    obtain ⟨e, es, rfl⟩ := List.exists_cons_of_ne_nil nonempty
    have hfirst := (ih e List.mem_cons_self).enclose (j.encloses e)
    have hitems := writes_printItems (j := j) (fun x hx => ih x (List.mem_cons_of_mem _ hx)) hfirst
    exact hitems.append_trivia hnewline comment

theorem Printable.spells (h : Printable e) (hnewline : IsNewline newline) :
    Spells (e.print newline) e.symbols := by
  rw [← significant_printedMarks newline e]
  exact (h.writes hnewline).spells

end Expr

end GrammarCheck
