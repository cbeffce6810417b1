import GrammarCheck.Proofs.Grammar.Printed
import GrammarCheck.Proofs.Notation.SoundTokens

/-!
The text of a grammar as lines, each closed by a line end: a header, if the grammar has a name, and
one line for each entry, in which a rule may hold further line ends. Blanks at the ends of a text
are never read, so lines at the ends may be lost, and blanks at the end of the last comment.
-/

namespace GrammarCheck

variable {c : Char} {t u newline : Text} {ss ss' : List Symbol}

def Fills (t : Text) (ss : List Symbol) : Prop :=
  ∀ rest, (∀ c ∈ rest.head?, isLineEnd c) → Scanned (t ++ rest) ss rest

theorem Writes.fills (h : Writes t ss) : Fills t ss := by
  intro rest hrest
  exact h.scanned rest fun _ c hc => .inl (isBlank_of_isLineEnd (hrest c hc))

theorem Fills.nil : Fills [] [] := fun _ _ => .nil

theorem IsNewline.isBlank (h : IsNewline newline) : ∀ c ∈ newline, isBlank c := by
  obtain rfl | rfl | rfl := h <;> simp [GrammarCheck.isBlank]

def commentMarks (part : Text → Text) (comment : Text) : List Symbol :=
  if comment.isEmpty then [] else [(.comment, '/' :: '/' :: part comment)]

namespace Production

def isBlank (p : Production) : Bool := p.rule.isNone && p.comment.isEmpty

def start (newline : Text) (p : Production) : Text :=
  if p.startsOnNewline then newline ++ ['\t', '|', ' '] else ['\t']

def startMarks (newline : Text) (p : Production) : List Symbol :=
  if p.startsOnNewline then [(.newline, newline), (.bar, ['|'])] else []

def line (newline : Text) (part : Text → Text) (p : Production) : Text :=
  match p.rule with
  | none => if p.comment.isEmpty then [] else '/' :: '/' :: part p.comment
  | some rule =>
    rule.name ++ [':'] ++ p.start newline ++ rule.body.print newline ++ [';'] ++
      (if p.comment.isEmpty then [] else ' ' :: ' ' :: '/' :: '/' :: part p.comment)

def printedMarks (newline : Text) (part : Text → Text) (p : Production) : List Symbol :=
  match p.rule with
  | none => commentMarks part p.comment
  | some rule =>
    (.word, rule.name) :: (.colon, [':']) :: (p.startMarks newline ++
      (rule.body.printedMarks newline ++ (.semicolon, [';']) :: commentMarks part p.comment))

structure Printable (p : Production) : Prop where
  name : ∀ rule, p.rule = some rule → Bareword rule.name
  body : ∀ rule, p.rule = some rule → rule.body.Printable
  comment : OneLine p.comment

variable {p : Production}

theorem print_eq_line (newline : Text) (p : Production) :
    p.print newline = p.line newline id ++ newline := by
  obtain ⟨rule, comment, start, link, linkName⟩ := p
  cases rule <;> cases comment <;> simp [print, line, Production.start]

theorem trimRight_line (h : p.isBlank = false) (newline : Text) :
    Text.trimRight (p.line newline id) = p.line newline Text.trimRight := by
  obtain ⟨rule, comment, start, link, linkName⟩ := p
  have hslash : GrammarCheck.isBlank '/' = false := by decide
  cases rule with
  | none =>
    cases comment with
    | nil => simp [isBlank] at h
    | cons c comment => exact Text.trimRight_append_cons hslash ['/'] (c :: comment)
  | some rule =>
    cases comment with
    | nil =>
      simp only [line, List.isEmpty_nil, if_true, List.append_nil]
      exact Text.trimRight_concat (by decide) _
    | cons c comment =>
      have htrim := Text.trimRight_append_cons hslash
        (rule.name ++ [':'] ++
          Production.start newline ⟨some rule, c :: comment, start, link, linkName⟩ ++
            rule.body.print newline ++ [';'] ++ [' ', ' ', '/']) (c :: comment)
      simpa [line] using htrim

theorem writes_start (hnewline : IsNewline newline) (h : Writes t ss) (p : Production) :
    Writes (p.start newline ++ t) (p.startMarks newline ++ ss) := by
  unfold start startMarks
  split
  · have hbar : Writes ('|' :: ' ' :: t) ((.bar, ['|']) :: ss) :=
      .cons_operator rfl (h.cons_space (by decide))
    have happend := (writes_newline hnewline).append hbar fun htab => by simp [endsInTab] at htab
    simpa using happend
  · exact h.cons_space (by decide)

theorem endsWord_start (hnewline : IsNewline newline) (p : Production) (t : Text) :
    EndsWord (p.start newline ++ t) := by
  unfold start
  split
  · intro c hc
    rw [List.append_assoc] at hc
    exact .inl (isBlank_of_isLineEnd (hnewline.isLineEnd _ c hc))
  · simp [EndsWord, GrammarCheck.isBlank]

theorem writes_rule {rule : Rule} (hname : Bareword rule.name) (hbody : rule.body.Printable)
    (hnewline : IsNewline newline) (p : Production) :
    Writes (rule.name ++ [':'] ++ p.start newline ++ rule.body.print newline ++ [';'])
      ((.word, rule.name) :: (.colon, [':']) :: (p.startMarks newline ++
        (rule.body.printedMarks newline ++ [(.semicolon, [';'])]))) := by
  have hhead : Writes (rule.name ++ [':']) [(.word, rule.name), (.colon, [':'])] :=
    (writes_bareword hname).append (.operator rfl)
      fun _ => by simp [EndsWord, Text.stopsWord]
  have hrest := (hbody.writes hnewline).append (.operator (c := ';') rfl)
    fun _ => by simp [EndsWord, Text.stopsWord]
  have hall := hhead.append (writes_start hnewline hrest p) fun _ => endsWord_start hnewline p _
  simpa using hall

theorem Printable.fills (h : p.Printable) (hnewline : IsNewline newline) {part : Text → Text}
    (hpart : ∀ t, part t <+: t) :
    Fills (p.line newline part) (p.printedMarks newline part) := by
  have hcomment : OneLine (part p.comment) := h.comment.of_start (hpart p.comment)
  cases hrule : p.rule with
  | none =>
    by_cases hempty : p.comment.isEmpty
    · simpa [line, printedMarks, commentMarks, hrule, hempty] using Fills.nil
    · intro rest hrest
      simpa [line, printedMarks, commentMarks, hrule, hempty] using scanned_comment hcomment hrest
  | some rule =>
    have hwrites := writes_rule (h.name rule hrule) (h.body rule hrule) hnewline p
    by_cases hempty : p.comment.isEmpty
    · simpa [line, printedMarks, commentMarks, hrule, hempty] using hwrites.fills
    · intro rest hrest
      have hblank : isSpace ' ' := by decide
      have hremark := Scanned.space hblank (.space hblank (scanned_comment hcomment hrest))
      have hstart := hwrites.scanned (' ' :: ' ' :: '/' :: '/' :: part p.comment ++ rest)
        fun _ => by simp [EndsWord, GrammarCheck.isBlank]
      have hall := hstart.append hremark
      simpa [line, printedMarks, commentMarks, hrule, hempty] using hall

theorem Printable.exists_cons_line (h : p.Printable) (hblank : p.isBlank = false)
    (newline : Text) (part : Text → Text) :
    ∃ c t, p.line newline part = c :: t ∧ GrammarCheck.isBlank c = false := by
  cases hrule : p.rule with
  | none =>
    have hcomment : p.comment ≠ [] := by simpa [isBlank, hrule] using hblank
    exact ⟨'/', '/' :: part p.comment, by simp [line, hrule, hcomment], by decide⟩
  | some rule =>
    obtain ⟨hne, hplain, -⟩ := h.name rule hrule
    obtain ⟨c, name, hname⟩ := List.exists_cons_of_ne_nil hne
    have hc := (hplain c (by simp [hname])).1
    exact ⟨c, by simp [line, hrule, hname, hc]⟩

end Production

theorem exists_last_not {α : Type} {p : α → Bool} {xs : List α} (h : ∃ x ∈ xs, p x = false) :
    ∃ init last after, xs = init ++ last :: after ∧ p last = false ∧ ∀ x ∈ after, p x := by
  induction xs with
  | nil => simp at h
  | cons x xs ih =>
    by_cases hmore : ∃ y ∈ xs, p y = false
    · obtain ⟨init, last, after, rfl, hlast, hafter⟩ := ih hmore
      exact ⟨x :: init, last, after, rfl, hlast, hafter⟩
    · have hall : ∀ y ∈ xs, p y := by simpa using hmore
      obtain ⟨y, hy, hpy⟩ := h
      obtain rfl | hy := List.mem_cons.1 hy
      · exact ⟨[], y, xs, rfl, hpy, hall⟩
      · exact absurd ⟨y, hy, hpy⟩ hmore

theorem all_or_exists_within {α : Type} (p : α → Bool) (xs : List α) :
    (∀ x ∈ xs, p x) ∨ ∃ before init last after, xs = before ++ (init ++ last :: after) ∧
      (∀ x ∈ before, p x) ∧ (∀ x ∈ (init ++ [last]).head?, p x = false) ∧ p last = false ∧
      ∀ x ∈ after, p x := by
  by_cases hall : ∀ x ∈ xs, p x
  · exact .inl hall
  have hexists : ∃ x ∈ xs.dropWhile p, p x = false := by
    apply Classical.byContradiction
    intro hnone
    apply hall
    intro x hx
    rw [← List.takeWhile_append_dropWhile (p := p) (l := xs)] at hx
    obtain hx | hx := List.mem_append.1 hx
    · exact List.all_eq_true.1 List.all_takeWhile x hx
    · exact Bool.of_not_eq_false fun hpx => hnone ⟨x, hx, hpx⟩
  obtain ⟨init, last, after, hwithin, hlast, hafter⟩ := exists_last_not hexists
  have hhead := List.head?_dropWhile_not p xs
  refine .inr ⟨xs.takeWhile p, init, last, after, ?_, ?_, ?_, hlast, hafter⟩
  · rw [← hwithin, List.takeWhile_append_dropWhile]
  · exact List.all_eq_true.1 List.all_takeWhile
  · rw [hwithin] at hhead
    cases init with
    | nil => simpa using hlast
    | cons x init => simpa using hhead

namespace Grammar

def keyword : Text := "grammar".toList

theorem keyword_eq : keyword = ['g', 'r', 'a', 'm', 'm', 'a', 'r'] := by decide

def headerMarks (name : Text) : List Symbol :=
  [(.word, keyword), (.word, name), (.semicolon, [';'])]

theorem fills_header {name : Text} (h : Bareword name) :
    Fills (keyword ++ ' ' :: name ++ [';']) (headerMarks name) := by
  have hplain : keyword.all fun c => !isBlank c && !Text.stopsWord c := by decide
  have hkeyword : Bareword keyword := by
    refine ⟨by simp [keyword_eq], fun c hc => ?_, by decide⟩
    simpa using List.all_eq_true.1 hplain c hc
  have hname := ((writes_bareword h).cons_space (c := ' ') (by decide)).append
    (.operator (c := ';') rfl) fun _ => by simp [EndsWord, Text.stopsWord]
  have hall := (writes_bareword hkeyword).append hname
    fun _ => by simp [EndsWord, GrammarCheck.isBlank]
  simpa [headerMarks] using hall.fills

inductive Line
  | header (name : Text)
  | entry (p : Production)

namespace Line

def text (newline : Text) (part : Text → Text) : Line → Text
  | .header name => keyword ++ ' ' :: name ++ [';']
  | .entry p => p.line newline part

def printedMarks (newline : Text) (part : Text → Text) : Line → List Symbol
  | .header name => headerMarks name
  | .entry p => p.printedMarks newline part

def isBlank : Line → Bool
  | .header _ => false
  | .entry p => p.isBlank

def Printable : Line → Prop
  | .header name => Bareword name
  | .entry p => p.Printable

variable {l : Line} {part : Text → Text}

theorem text_of_isBlank (h : l.isBlank) : l.text newline part = [] := by
  cases l with
  | header => cases h
  | entry p =>
    obtain ⟨hrule, hcomment⟩ := Bool.and_eq_true_iff.1 h
    simp [text, Production.line, Option.isNone_iff_eq_none.1 hrule, hcomment]

theorem trimRight_text (h : l.isBlank = false) (newline : Text) :
    Text.trimRight (l.text newline id) = l.text newline Text.trimRight := by
  cases l with
  | header name => exact Text.trimRight_concat (by decide) _
  | entry p => exact Production.trimRight_line h newline

theorem Printable.fills (h : l.Printable) (hnewline : IsNewline newline)
    (hpart : ∀ t, part t <+: t) : Fills (l.text newline part) (l.printedMarks newline part) := by
  cases l with
  | header name => exact fills_header h
  | entry p => exact Production.Printable.fills h hnewline hpart

theorem Printable.exists_cons (h : l.Printable) (hblank : l.isBlank = false) (newline : Text)
    (part : Text → Text) :
    ∃ c t, l.text newline part = c :: t ∧ GrammarCheck.isBlank c = false := by
  cases l with
  | header name => exact ⟨'g', _, by rw [text, keyword_eq]; rfl, by decide⟩
  | entry p => exact Production.Printable.exists_cons_line h hblank newline part

theorem Printable.head_text (h : l.Printable) (newline : Text) (part : Text → Text) :
    ∀ c ∈ (l.text newline part).head?, GrammarCheck.isBlank c = false := by
  by_cases hblank : l.isBlank
  · simp [text_of_isBlank hblank]
  · obtain ⟨c, t, htext, hc⟩ := h.exists_cons (by simpa using hblank) newline part
    simp [htext, hc]

end Line

def closed (newline : Text) (ls : List Line) : Text :=
  ls.flatMap fun l => l.text newline id ++ newline

def closedMarks (newline : Text) (ls : List Line) : List Symbol :=
  ls.flatMap fun l => l.printedMarks newline id ++ [(.newline, newline)]

def lines (g : Grammar) : List Line :=
  (if g.name.isEmpty then [] else [.header g.name]) ++ g.productions.map .entry

structure Printable (g : Grammar) : Prop where
  newline : IsNewline g.newline
  name : g.name = [] ∨ Bareword g.name
  productions : ∀ p ∈ g.productions, p.Printable

variable {g : Grammar} {ls : List Line}

theorem print_eq_closed (g : Grammar) : g.print = closed g.newline g.lines := by
  have hproductions : g.productions.flatMap (·.print g.newline) =
      closed g.newline (g.productions.map .entry) := by
    rw [closed, List.flatMap_map]
    congr 1
    funext p
    exact Production.print_eq_line g.newline p
  have hkeyword : "grammar ".toList = keyword ++ [' '] := by decide
  unfold print
  rw [hproductions, hkeyword, lines]
  split <;> simp [closed, Line.text]

theorem Printable.lines (h : g.Printable) : ∀ l ∈ g.lines, l.Printable := by
  intro l hl
  obtain hl | hl := List.mem_append.1 hl
  · split at hl
    · cases hl
    · rename_i hname
      obtain rfl := List.mem_singleton.1 hl
      exact h.name.resolve_left fun hempty => hname (by rw [hempty]; rfl)
  · obtain ⟨p, hp, rfl⟩ := List.mem_map.1 hl
    exact h.productions p hp

theorem head_closed (hls : ∀ l ∈ ls, l.Printable) (hreturn : newline = ['\r']) {rest : Text}
    (hrest : rest.head? ≠ some '\n') : (closed newline ls ++ rest).head? ≠ some '\n' := by
  cases ls with
  | nil => exact hrest
  | cons l ls =>
    subst hreturn
    have hhead := (hls l List.mem_cons_self).head_text ['\r'] id
    intro hfeed
    cases htext : l.text ['\r'] id with
    | nil => simp [closed, htext] at hfeed
    | cons c t =>
      obtain rfl : c = '\n' := by simpa [closed, htext] using hfeed
      have hblank := hhead '\n' (by rw [htext]; rfl)
      cases hblank

theorem scanned_closed (hnewline : IsNewline newline) (hls : ∀ l ∈ ls, l.Printable) {rest : Text}
    (hrest : rest.head? ≠ some '\n') :
    Scanned (closed newline ls ++ rest) (closedMarks newline ls) rest := by
  induction ls with
  | nil => exact .nil
  | cons l ls ih =>
    have hmore : ∀ l ∈ ls, l.Printable := fun l hl => hls l (List.mem_cons_of_mem _ hl)
    have hline := (hls l List.mem_cons_self).fills hnewline (fun t => List.prefix_refl (id t))
      (newline ++ (closed newline ls ++ rest)) (hnewline.isLineEnd _)
    have hbreak := scanned_newline hnewline fun hreturn => head_closed hmore hreturn hrest
    simpa [closed, closedMarks] using (hline.append hbreak).append (ih hmore)

theorem scanned_lines (hnewline : IsNewline newline) (hls : ∀ l ∈ ls, l.Printable) {last : Line}
    (hlast : last.Printable) :
    Scanned (closed newline ls ++ last.text newline Text.trimRight)
      (closedMarks newline ls ++ last.printedMarks newline Text.trimRight) [] := by
  have hfeed : (last.text newline Text.trimRight).head? ≠ some '\n' := by
    intro hfeed
    have hblank := hlast.head_text newline Text.trimRight '\n' hfeed
    cases hblank
  have hfill := hlast.fills hnewline Text.trimRight_prefix [] (by simp)
  rw [List.append_nil] at hfill
  exact (scanned_closed hnewline hls hfeed).append hfill

theorem blank_closed (hnewline : IsNewline newline) (hls : ∀ l ∈ ls, l.isBlank) :
    ∀ c ∈ closed newline ls, isBlank c := by
  intro c hc
  obtain ⟨l, hl, hc⟩ := List.mem_flatMap.1 hc
  rw [Line.text_of_isBlank (hls l hl), List.nil_append] at hc
  exact hnewline.isBlank c hc

/-- Trimmed, lines lose blank lines at their ends and blanks of their last comment. -/
theorem trim_closed (hnewline : IsNewline newline) {before init after : List Line} {last : Line}
    (hbefore : ∀ l ∈ before, l.isBlank) (hafter : ∀ l ∈ after, l.isBlank)
    (hinit : ∀ l ∈ init, l.Printable) (hlast : last.Printable) (hlastBlank : last.isBlank = false)
    (hfirst : ∀ l ∈ (init ++ [last]).head?, l.isBlank = false) :
    Text.trim (closed newline (before ++ (init ++ last :: after))) =
      closed newline init ++ last.text newline Text.trimRight := by
  obtain ⟨c, t, htext, hc⟩ := hlast.exists_cons hlastBlank newline id
  have hblank : ∀ c ∈ newline ++ closed newline after, isBlank c :=
    List.forall_mem_append.2 ⟨hnewline.isBlank, blank_closed hnewline hafter⟩
  have hright : Text.trimRight (closed newline (before ++ (init ++ last :: after))) =
      closed newline before ++ (closed newline init ++ last.text newline Text.trimRight) := by
    have hsplit : closed newline (before ++ (init ++ last :: after)) =
        closed newline before ++ (closed newline init ++ last.text newline id) ++
          (newline ++ closed newline after) := by
      simp [closed]
    -- the last line that is not blank holds a character that is none, so nothing before it is trimmed
    rw [hsplit, Text.trimRight_append_of_blank hblank, htext, ← List.append_assoc,
      Text.trimRight_append_cons hc, ← Line.trimRight_text hlastBlank, htext,
      ← List.nil_append (c :: t), Text.trimRight_append_cons hc]
    simp
  rw [Text.trim, hright, Text.trimLeft_append_of_blank (blank_closed hnewline hbefore)]
  apply Text.trimLeft_of_head
  cases init with
  | nil => exact hlast.head_text newline Text.trimRight
  | cons l init =>
    obtain ⟨d, u, hl, hd⟩ := (hinit l List.mem_cons_self).exists_cons (hfirst l rfl) newline id
    simpa [closed, hl] using hd

end Grammar

end GrammarCheck
