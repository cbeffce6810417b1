import GrammarCheck.Proofs.Grammar.Lines
import GrammarCheck.Proofs.Grammar.Parsed
import Mathlib.Data.List.TakeWhile

namespace GrammarCheck

variable {newline : Text} {ls : List Grammar.Line} {p : Production}

namespace Text

variable {a b c : Char} {t u : Text}

theorem occursIn_pair_iff : occursIn [a, b] t ↔ ∃ before after, t = before ++ a :: b :: after := by
  induction t with
  | nil => simp [occursIn]
  | cons c t ih =>
    rw [occursIn_pair_cons, Bool.or_eq_true, ih]
    constructor
    · rintro (h | ⟨before, after, rfl⟩)
      · rw [Bool.and_eq_true, beq_iff_eq, beq_iff_eq] at h
        obtain ⟨rfl, hhead⟩ := h
        obtain ⟨after, rfl⟩ := List.head?_eq_some_iff.1 hhead
        exact ⟨[], after, rfl⟩
      · exact ⟨c :: before, after, rfl⟩
    · rintro ⟨before, after, heq⟩
      cases before with
      | nil =>
        obtain ⟨rfl, rfl⟩ := List.cons.inj heq
        exact .inl (by simp)
      | cons d before => exact .inr ⟨before, after, (List.cons.inj heq).2⟩

end Text

theorem exists_fault {comment : Text} (hline : ∀ c ∈ comment, isLineEnd c = false)
    (hclose : Text.closesGroup comment) (rest : Text) :
    ∃ fault n, Lexeme.first '/' (Text.trimRight ('/' :: comment ++ rest)) = .fault fault n := by
  obtain ⟨before, after, rfl⟩ := Text.occursIn_pair_iff.1 hclose
  have htrim : Text.trimRight ('/' :: (before ++ '*' :: ')' :: after) ++ rest) =
      '/' :: before ++ '*' :: ')' :: Text.trimRight (after ++ rest) := by
    have happend := Text.trimRight_append_cons (c := ')') (by decide)
      ('/' :: before ++ ['*']) (after ++ rest)
    simpa using happend
  have hplain : ∀ c ∈ '/' :: '/' :: before ++ ['*', ')'], isLineEnd c = false := by
    intro c hc
    simp only [List.cons_append, List.mem_cons, List.mem_append, List.not_mem_nil, or_false] at hc
    obtain rfl | rfl | hc | rfl | rfl := hc
    · rfl
    · rfl
    · exact hline c (by simp [hc])
    · rfl
    · rfl
  have hleading : Text.closesGroup (Text.leadingLine ('/' :: ('/' :: before ++ '*' :: ')' ::
      Text.trimRight (after ++ rest)))) := by
    have happend : '/' :: ('/' :: before ++ '*' :: ')' :: Text.trimRight (after ++ rest)) =
        ('/' :: '/' :: before ++ ['*', ')']) ++ Text.trimRight (after ++ rest) := by
      simp
    rw [happend, Text.leadingLine, List.takeWhile_append_of_pos (by simpa using hplain)]
    exact Text.occursIn_pair_iff.2
      ⟨'/' :: '/' :: before, Text.leadingLine (Text.trimRight (after ++ rest)),
        by simp [Text.leadingLine]⟩
  have hfirst : Lexeme.first '/' ('/' :: before ++ '*' :: ')' :: Text.trimRight (after ++ rest)) =
      Lexeme.comment ('/' :: ('/' :: before ++ '*' :: ')' :: Text.trimRight (after ++ rest))) := rfl
  exact ⟨_, _, by rw [htrim, hfirst, Lexeme.comment, if_pos hleading]⟩

theorem Production.Tidy.exists_comment (h : p.Tidy) (hcomment : p.comment ≠ [])
    (hnewline : IsNewline newline) :
    ∃ t ss, p.line newline id = t ++ '/' :: '/' :: p.comment ∧ ∀ rest,
      (∀ c ∈ (t ++ '/' :: rest).head?, GrammarCheck.isBlank c = false) ∧
      Scanned (t ++ '/' :: rest) ss ('/' :: rest) := by
  have hempty : p.comment.isEmpty = false := by simpa using hcomment
  cases hrule : p.rule with
  | none =>
    have hslash : GrammarCheck.isBlank '/' = false := by decide
    exact ⟨[], [], by simp [line, hrule, hempty], fun _ => ⟨by simp [hslash], .nil⟩⟩
  | some rule =>
    have hwrites := writes_rule (h.name rule hrule) (h.body rule hrule).printable hnewline p
    obtain ⟨hne, hplain, -⟩ := h.name rule hrule
    obtain ⟨c, name, hname⟩ := List.exists_cons_of_ne_nil hne
    have hblank : isSpace ' ' := by decide
    have hall : ∀ rest, Scanned (rule.name ++ [':'] ++ p.start newline ++ rule.body.print newline ++
        [';'] ++ ' ' :: ' ' :: '/' :: rest) _ ('/' :: rest) := fun rest =>
      (hwrites.scanned _ fun _ => by simp [EndsWord, GrammarCheck.isBlank]).append
        (.space hblank (.space hblank .nil))
    refine ⟨rule.name ++ [':'] ++ p.start newline ++ rule.body.print newline ++ [';'] ++ [' ', ' '],
      _, by simp [line, hrule, hempty], fun rest => ⟨?_, by simpa using hall rest⟩⟩
    simp [hname, (hplain c (by simp [hname])).1]

namespace Grammar

variable {g : Grammar}

theorem Tidy.exists_lines (h : g.Tidy) (hname : g.name = [] ∨ Bareword g.name)
    (hclose : ∃ p ∈ g.productions, Text.closesGroup p.comment) :
    ∃ init p after, g.lines = init ++ .entry p :: after ∧ (∀ l ∈ init, l.Printable) ∧ p.Tidy ∧
      Text.closesGroup p.comment := by
  cases hfirst : g.productions.dropWhile (!Text.closesGroup ·.comment) with
  | nil =>
    obtain ⟨p, hp, hclose⟩ := hclose
    have hnone := List.dropWhile_eq_nil_iff.1 hfirst p hp
    simp [hclose] at hnone
  | cons p after =>
    obtain ⟨before, heq, hbefore, hp⟩ := Parsing.dropWhile_eq_cons_iff.1 hfirst
    have htidy := h.productions
    rw [heq, List.forall_mem_append, List.forall_mem_cons] at htidy
    have hinit : Printable ⟨g.name, before, g.newline⟩ := by
      refine ⟨h.newline, hname, fun q hq => ?_⟩
      have hq' := htidy.1 q hq
      exact ⟨hq'.name, fun rule hrule => (hq'.body rule hrule).printable, hq'.comment,
        by simpa using hbefore q hq⟩
    refine ⟨lines ⟨g.name, before, g.newline⟩, p, after.map .entry, ?_, hinit.lines, htidy.2.1,
      by simpa using hp⟩
    simp [lines, heq]

theorem head_closed_dropWhile (hls : ∀ l ∈ ls, l.Printable) {t : Text}
    (ht : ∀ c ∈ t.head?, isBlank c = false) :
    ∀ c ∈ (closed newline (ls.dropWhile Line.isBlank) ++ t).head?, isBlank c = false := by
  have hnot := List.head?_dropWhile_not Line.isBlank ls
  cases hdrop : ls.dropWhile Line.isBlank with
  | nil => exact ht
  | cons l more =>
    have hl : l ∈ ls := (List.dropWhile_suffix Line.isBlank).subset (hdrop ▸ List.mem_cons_self)
    obtain ⟨c, u, htext, hc⟩ := (hls l hl).exists_cons (by simpa [hdrop] using hnot) newline id
    simp [closed, htext, hc]

theorem Tidy.refused (h : g.Tidy) (hname : g.name = [] ∨ Bareword g.name)
    (hclose : ∃ p ∈ g.productions, Text.closesGroup p.comment) (source : Text) (g' : Grammar) :
    ofText source [] g.print ≠ .ok g' := by
  obtain ⟨init, p, after, hlines, hinit, hp, hclose⟩ := h.exists_lines hname hclose
  have hcomment : p.comment ≠ [] := by
    intro hempty
    rw [hempty] at hclose
    cases hclose
  obtain ⟨t, ss, htext, ht⟩ := hp.exists_comment hcomment h.newline
  obtain ⟨fault, n, hfault⟩ :=
    exists_fault hp.comment hclose (g.newline ++ closed g.newline after)
  -- of the text before the comment only the blank lines at its start are trimmed away
  have hsplit : closed g.newline init = closed g.newline (init.takeWhile Line.isBlank) ++
      closed g.newline (init.dropWhile Line.isBlank) := by
    rw [closed, closed, closed, ← List.flatMap_append, List.takeWhile_append_dropWhile]
  have hprint : g.print = closed g.newline (init.takeWhile Line.isBlank) ++
      (closed g.newline (init.dropWhile Line.isBlank) ++ t) ++
        '/' :: ('/' :: p.comment ++ (g.newline ++ closed g.newline after)) := by
    have hall : g.print = closed g.newline init ++
        (p.line g.newline id ++ g.newline ++ closed g.newline after) := by
      rw [print_eq_closed, hlines]
      simp [closed, Line.text]
    rw [hall, hsplit, htext]
    simp
  have hblank : ∀ c ∈ closed g.newline (init.takeWhile Line.isBlank), isBlank c :=
    blank_closed h.newline (List.all_eq_true.1 List.all_takeWhile)
  generalize hrest : Text.trimRight ('/' :: p.comment ++ (g.newline ++ closed g.newline after)) =
    rest at hfault
  have htrim : g.print.trim =
      closed g.newline (init.dropWhile Line.isBlank) ++ (t ++ '/' :: rest) := by
    rw [Text.trim, hprint, Text.trimRight_append_cons (by decide), hrest, List.append_assoc,
      Text.trimLeft_append_of_blank hblank, List.append_assoc]
    exact Text.trimLeft_of_head (head_closed_dropWhile hinit (ht rest).1)
  have hfeed : (t ++ '/' :: rest).head? ≠ some '\n' := by
    intro hhead
    have hnot := (ht rest).1 '\n' hhead
    cases hnot
  have hmore : ∀ l ∈ init.dropWhile Line.isBlank, l.Printable := fun l hl =>
    hinit l ((List.dropWhile_suffix _).subset hl)
  have hscanned := (scanned_closed h.newline hmore hfeed).append (ht rest).2
  rw [← htrim] at hscanned
  intro hok
  obtain ⟨ts, -, -, htokens, -⟩ := ofText_eq_ok_iff.1 hok
  exact hscanned.refused (by decide) hfault source ts htokens

end Grammar

end GrammarCheck
