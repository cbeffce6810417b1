import GrammarCheck.Grammar.Colour
import GrammarCheck.Proofs.Grammar.PrintedTwice
import GrammarCheck.Proofs.Grammar.WellFormed

namespace GrammarCheck

variable {keep : Char → Bool} {newline t u : Text} {ms ms' : List Mark}

namespace Mark

def text (newline : Text) : Mark → Text
  | .word w => w.text
  | .lineBreak => newline

def kept (keep : Char → Bool) : Mark → List (Option Char)
  | .word w => (w.text.filter keep).map some
  | .lineBreak => [none]

end Mark

/-- A text is put together from words, none of which ends a line, and line ends, and these show what
the marks show, so far as it is kept. -/
def Alike (keep : Char → Bool) (newline t : Text) (ms : List Mark) : Prop :=
  ∃ xs : List Mark, t = xs.flatMap (·.text newline) ∧
    (∀ w, .word w ∈ xs → ∀ c ∈ w.text, isLineEnd c = false) ∧
    xs.flatMap (·.kept keep) = ms.flatMap (·.kept keep)

namespace Alike

theorem nil : Alike keep newline [] [] := ⟨[], rfl, nofun, rfl⟩

theorem append (h : Alike keep newline t ms) (h' : Alike keep newline u ms') :
    Alike keep newline (t ++ u) (ms ++ ms') := by
  obtain ⟨xs, rfl, hline, hkept⟩ := h
  obtain ⟨xs', rfl, hline', hkept'⟩ := h'
  refine ⟨xs ++ xs', by simp, fun w hw => ?_, by simp [hkept, hkept']⟩
  obtain hw | hw := List.mem_append.1 hw
  · exact hline w hw
  · exact hline' w hw

theorem word {w : ColouredWord} (hline : ∀ c ∈ t, isLineEnd c = false)
    (hkept : t.filter keep = w.text.filter keep) : Alike keep newline t [.word w] := by
  refine ⟨[.plain t], by simp [Mark.plain, Mark.text], ?_, by simp [Mark.plain, Mark.kept, hkept]⟩
  rintro _ hw
  cases List.mem_singleton.1 hw
  exact hline

theorem lineBreak : Alike keep newline newline [.lineBreak] :=
  ⟨[.lineBreak], by simp [Mark.text], by simp, rfl⟩

section Blank

variable (hkeep : ∀ c, isBlank c → keep c = false)

include hkeep

theorem blank (ht : ∀ c ∈ t, isSpace c) : Alike keep newline t [] := by
  have hspace := fun c hc => isSpace_iff.1 (ht c hc)
  refine ⟨[.plain t], by simp [Mark.plain, Mark.text], ?_, ?_⟩
  · rintro _ hw
    cases List.mem_singleton.1 hw
    exact fun c hc => (hspace c hc).2
  · have hnone : t.filter keep = [] :=
      List.filter_eq_nil_iff.2 fun c hc => by simp [hkeep c (hspace c hc).1]
    simp [Mark.plain, Mark.kept, hnone]

theorem plainBlank (hu : ∀ c ∈ u, isBlank c) : Alike keep newline [] [.plain u] := by
  refine word (by simp) ?_
  rw [List.filter_nil, eq_comm, List.filter_eq_nil_iff]
  exact fun c hc => by simp [hkeep c (hu c hc)]

theorem trivia {after : Trivia} (hcomment : ∀ c ∈ after.comment, isLineEnd c = false)
    (hspaced : after.Spaced) : Alike keep newline (after.print newline) after.marks := by
  have hspace : Alike keep newline []
      (if after.whitespace.isEmpty then [] else [.plain after.whitespace]) := by
    split
    · exact nil
    · exact plainBlank hkeep fun c hc => (isSpace_iff.1 (hspaced c hc)).1
  have hremark : Alike keep newline
      (if after.comment.isEmpty then [] else ' ' :: '/' :: '/' :: after.comment)
      (if after.comment.isEmpty then []
        else [.word ⟨' ' :: '/' :: '/' :: after.comment, .comment⟩]) := by
    split
    · exact nil
    · refine word ?_ rfl
      intro c hc
      obtain rfl | rfl | hc : c = ' ' ∨ c = '/' ∨ c ∈ after.comment := by simpa using hc
      · rfl
      · rfl
      · exact hcomment c hc
  have hline : Alike keep newline
      (if after.newline || !after.comment.isEmpty then newline ++ ['\t'] else [])
      (if after.newline || !after.comment.isEmpty then [.lineBreak, .plain ['\t']] else []) := by
    split
    · exact lineBreak.append (word (by simp [isLineEnd]) rfl)
    · exact nil
  simpa [Trivia.print, Trivia.marks] using hspace.append (hremark.append hline)

omit hkeep in
theorem enclose (h : Alike keep newline t ms) (inParens : Bool) :
    Alike keep newline (enclose inParens t) (encloseMarks inParens ms) := by
  cases inParens with
  | false => exact h
  | true =>
    have hopen : Alike keep newline ['(', ' '] [.plain ['(', ' ']] :=
      word (by simp [isLineEnd]) rfl
    have hclose : Alike keep newline [' ', ')'] [.plain [' ', ')']] :=
      word (by simp [isLineEnd]) rfl
    simpa [GrammarCheck.enclose, encloseMarks] using hopen.append (h.append hclose)

end Blank

end Alike

namespace Expr

def mapLeaves (f : Leaf → Leaf) : Expr → Expr
  | .leaf l after => .leaf (f l) after
  | .repeated r body label after => .repeated r (mapLeaves f body) label after
  | .group j items label after => .group j (all items) label after
where
  all : List Expr → List Expr
    | [] => []
    | e :: es => mapLeaves f e :: all es

theorem mapLeaves_all (f : Leaf → Leaf) (es : List Expr) :
    mapLeaves.all f es = es.map (mapLeaves f) := by
  induction es with
  | nil => rfl
  | cons e es ih => rw [mapLeaves.all, ih, List.map_cons]

theorem mapLeaves_id (e : Expr) : e.mapLeaves id = e := by
  induction e with
  | leaf => rfl
  | repeated r body label after ih => rw [mapLeaves, ih]
  | group j items label after ih => rw [mapLeaves, mapLeaves_all, List.map_congr_left ih, List.map_id']

theorem isGroup_mapLeaves (f : Leaf → Leaf) (e : Expr) : (e.mapLeaves f).isGroup = e.isGroup := by
  cases e <;> rfl

theorem encloses_mapLeaves (f : Leaf → Leaf) (j : Joint) (e : Expr) :
    j.encloses (e.mapLeaves f) = j.encloses e := by
  cases j with
  | choice => rfl
  | sequence =>
    cases e with
    | leaf | repeated => rfl
    | group j => cases j <;> rfl

section Alike

variable {f : Leaf → Leaf} {e : Expr} {es : List Expr}

theorem alike_alternatives (hkeep : ∀ c, isBlank c → keep c = false)
    (hitems : ∀ d ∈ es, Alike keep newline ((d.mapLeaves f).print newline) d.marks)
    (h : Alike keep newline t (ms ++ e.marks)) :
    Alike keep newline (print.printItems newline .choice (some t) (es.map (mapLeaves f)))
      (ms ++ marks.alternatives (e :: es)) := by
  induction es generalizing t ms e with
  | nil => exact h
  | cons d es ih =>
    obtain ⟨hd, hes⟩ := List.forall_mem_cons.1 hitems
    have hgap : Alike keep newline (Joint.choice.gap (some t)) [.plain ['|', ' ']] := by
      have hbar : Alike keep newline ['|', ' '] [.plain ['|', ' ']] := .word (by simp [isLineEnd]) rfl
      rw [Joint.gap]
      split
      · exact hbar
      · have hspace : Alike keep newline [' '] [] := .blank hkeep (List.all_eq_true.1 rfl)
        exact hspace.append hbar
    have hbefore : Alike keep newline
        (t ++ Joint.choice.gap (some t) ++ (d.mapLeaves f).print newline)
        ((ms ++ e.marks ++ [.plain ['|', ' ']]) ++ d.marks) := (h.append hgap).append hd
    have hnext := ih hes hbefore
    simpa [marks.alternatives, print.printItems, Joint.encloses, GrammarCheck.enclose] using hnext

theorem alike_inSequence (hkeep : ∀ c, isBlank c → keep c = false)
    (hitems : ∀ d ∈ es, Alike keep newline ((d.mapLeaves f).print newline) d.marks)
    (h : Alike keep newline t ms) (afterTab : Bool) :
    Alike keep newline (print.printItems newline .sequence (some t) (es.map (mapLeaves f)))
      (ms ++ marks.inSequence afterTab es) := by
  induction es generalizing t ms afterTab with
  | nil => simpa [marks.inSequence, print.printItems] using h
  | cons d es ih =>
    obtain ⟨hd, hes⟩ := List.forall_mem_cons.1 hitems
    have hgap : Alike keep newline (Joint.sequence.gap (some t)) [] := by
      rw [Joint.gap]
      split
      · exact .nil
      · exact .blank hkeep (List.all_eq_true.1 rfl)
    have hindent : Alike keep newline [] (if afterTab then [.plain [' ', ' ']] else []) := by
      split
      · exact .plainBlank hkeep (List.all_eq_true.1 rfl)
      · exact .nil
    have hitem := (h.append hgap).append (hindent.append (hd.enclose d.isChoice))
    have hnext := fun ending => ih hes hitem ending
    have hencloses : Joint.sequence.encloses (d.mapLeaves f) = d.isChoice := encloses_mapLeaves f _ d
    simpa [marks.inSequence, print.printItems, hencloses] using hnext _

theorem Tidy.alike (hkeep : ∀ c, isBlank c → keep c = false)
    (hleaf : ∀ l : Leaf, l.Printable → Alike keep newline (f l).print [l.mark]) (h : e.Tidy)
    (hspaced : e.CarriesOnly Trivia.Spaced) :
    Alike keep newline ((e.mapLeaves f).print newline) e.marks := by
  induction h with
  | leaf leaf layout =>
    exact (hleaf _ leaf).append (.trivia hkeep layout.comment.noLineEnd (carriesOnly_iff.1 hspaced).1)
  | @repeated r body after _ layout ih =>
    obtain ⟨hafter, hbody⟩ := carriesOnly_iff.1 hspaced
    have hbody := (ih (hbody body List.mem_cons_self)).enclose body.isGroup
    have hmark : Alike keep newline [r.mark] [.plain [r.mark]] :=
      .word (by cases r <;> simp [Repetition.mark, isLineEnd]) rfl
    have hall := hbody.append (hmark.append (.trivia hkeep layout.comment.noLineEnd hafter))
    simpa [mapLeaves, print, marks, isGroup_mapLeaves] using hall
  | @group j items after many _ layout ih =>
    obtain ⟨hafter, hitems⟩ := carriesOnly_iff.1 hspaced
    have hitems := fun d hd => ih d hd (hitems d hd)
    obtain ⟨e, es, rfl⟩ := List.exists_cons_of_ne_nil (l := items) (by rintro rfl; cases many)
    obtain ⟨he, hes⟩ := List.forall_mem_cons.1 hitems
    have htrivia : Alike keep newline (after.print newline) after.marks :=
      .trivia hkeep layout.comment.noLineEnd hafter
    cases j with
    | choice =>
      have hall := alike_alternatives hkeep hes (show Alike keep newline _ ([] ++ e.marks) from he)
      simpa [mapLeaves, mapLeaves_all, print, marks, print.printItems, Joint.gap, Joint.encloses,
        GrammarCheck.enclose] using hall.append htrivia
    | sequence =>
      have hall := fun ending => alike_inSequence hkeep hes (he.enclose e.isChoice) ending
      have hencloses : Joint.sequence.encloses (e.mapLeaves f) = e.isChoice := encloses_mapLeaves f _ e
      simpa [mapLeaves, mapLeaves_all, print, marks, print.printItems, Joint.gap, hencloses,
        marks.inSequence] using (hall _).append htrivia

end Alike

end Expr

namespace Production

def mapLeaves (f : Leaf → Leaf) (p : Production) : Production :=
  { p with rule := p.rule.map fun rule => { rule with body := rule.body.mapLeaves f } }

def lineMarks (p : Production) : List Mark :=
  match p.rule with
  | none => if p.comment.isEmpty then [] else [.word ⟨'/' :: '/' :: p.comment, .comment⟩]
  | some rule =>
    .word ⟨rule.name, .production⟩ :: .plain [':'] ::
      (if p.startsOnNewline then [.lineBreak, .plain ['\t', '|', ' ']] else [.plain [' ']]) ++
      rule.body.marks ++ [.plain [';']] ++
      (if p.comment.isEmpty then []
        else [.word ⟨' ' :: ' ' :: '/' :: '/' :: p.comment, .comment⟩])

theorem marks_eq (p : Production) : p.marks = p.lineMarks ++ [.lineBreak] := by
  cases hrule : p.rule <;> simp [marks, lineMarks, hrule]

variable {f : Leaf → Leaf} {p : Production}

theorem alike_comment (blanks : Text) {comment : Text} (hblanks : ∀ c ∈ blanks, isLineEnd c = false)
    (hcomment : ∀ c ∈ comment, isLineEnd c = false) :
    Alike keep newline (if comment.isEmpty then [] else blanks ++ '/' :: '/' :: comment)
      (if comment.isEmpty then [] else [.word ⟨blanks ++ '/' :: '/' :: comment, .comment⟩]) := by
  split
  · exact .nil
  · refine .word (List.forall_mem_append.2 ⟨hblanks, ?_⟩) rfl
    exact List.forall_mem_cons.2 ⟨rfl, List.forall_mem_cons.2 ⟨rfl, hcomment⟩⟩

theorem Tidy.alike (hkeep : ∀ c, GrammarCheck.isBlank c → keep c = false)
    (hleaf : ∀ l : Leaf, l.Printable → Alike keep newline (f l).print [l.mark]) (h : p.Tidy)
    (hspaced : ∀ body ∈ p.body, body.CarriesOnly Trivia.Spaced) :
    Alike keep newline ((p.mapLeaves f).line newline id) p.lineMarks := by
  obtain ⟨rule, comment, startsOnNewline, link, linkName⟩ := p
  cases rule with
  | none => exact alike_comment [] (by simp) h.comment
  | some rule =>
    have hname : Alike keep newline rule.name [.word ⟨rule.name, .production⟩] :=
      .word (fun c hc => not_isLineEnd_of_plain ((h.name rule rfl).plain c hc).1) rfl
    have hcolon : Alike keep newline [':'] [.plain [':']] := .word (by simp [isLineEnd]) rfl
    have hsemicolon : Alike keep newline [';'] [.plain [';']] := .word (by simp [isLineEnd]) rfl
    have hstart : Alike keep newline (if startsOnNewline then newline ++ ['\t', '|', ' '] else ['\t'])
        (if startsOnNewline then [.lineBreak, .plain ['\t', '|', ' ']] else [.plain [' ']]) := by
      split
      · exact Alike.lineBreak.append (.word (by simp [isLineEnd]) rfl)
      · refine .word (by simp [isLineEnd]) ?_
        have htab : keep '\t' = false := hkeep _ (by decide)
        have hspace : keep ' ' = false := hkeep _ (by decide)
        simp [htab, hspace]
    have hbody := (h.body rule rfl).alike hkeep hleaf (hspaced rule.body rfl)
    have hcomment : Alike keep newline
        (if comment.isEmpty then [] else ' ' :: ' ' :: '/' :: '/' :: comment)
        (if comment.isEmpty then []
          else [.word ⟨' ' :: ' ' :: '/' :: '/' :: comment, .comment⟩]) :=
      alike_comment [' ', ' '] (by simp [isLineEnd]) h.comment
    have hall := hname.append (hcolon.append (hstart.append (hbody.append
      (hsemicolon.append hcomment))))
    cases startsOnNewline <;> cases comment <;>
      simpa [lineMarks, mapLeaves, line, start] using hall

end Production

namespace Leaf

def bare : Leaf → Leaf
  | .special text => .reference text
  | l => l

variable {l : Leaf}

theorem noLineEnd_escapeTerminal (h : ∀ c ∈ t, isLineEnd c = false) :
    ∀ c ∈ t.escapeTerminal, isLineEnd c = false := by
  intro c hc
  obtain ⟨d, hd, hc⟩ := List.mem_flatMap.1 hc
  split at hc
  · obtain rfl | rfl : c = '\\' ∨ c = d := by simpa using hc
    · rfl
    · exact h c hd
  · rw [List.mem_singleton.1 hc]
    exact h d hd

theorem Printable.noLineEnd (h : l.Printable) : ∀ c ∈ l.print, isLineEnd c = false := by
  cases h with
  | terminal oneLine | special oneLine =>
    have hescape := noLineEnd_escapeTerminal oneLine
    simp only [print, List.forall_mem_cons, List.forall_mem_append, List.cons_append,
      List.not_mem_nil, false_imp_iff, implies_true, and_true]
    simpa [isLineEnd] using hescape
  | reference bareword => exact fun c hc => not_isLineEnd_of_plain (bareword.plain c hc).1

theorem Printable.noLineEnd_bare (h : l.Printable) : ∀ c ∈ l.bare.print, isLineEnd c = false := by
  cases h with
  | terminal oneLine notAngled oneQuote => exact (terminal oneLine notAngled oneQuote).noLineEnd
  | special oneLine => exact oneLine
  | reference bareword => exact (reference bareword).noLineEnd

theorem Printable.alike_bare (h : l.Printable) : Alike keep newline l.bare.print [l.mark] := by
  have hline := h.noLineEnd_bare
  cases l <;> exact .word hline rfl

theorem Printable.alike_none (h : l.Printable) :
    Alike (fun _ => false) newline (id l).print [l.mark] := by
  have hline := h.noLineEnd
  cases l <;> exact .word hline (by simp)

end Leaf

end GrammarCheck
