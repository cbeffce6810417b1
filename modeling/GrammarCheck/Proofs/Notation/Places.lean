import GrammarCheck.Proofs.Notation.UnifiedLineEnds
import GrammarCheck.Proofs.Text.LineStarts

namespace GrammarCheck

open Line

variable {c : Char} {t u : Text} {n offset : Nat} {p q : Position} {lineStart : Int}

theorem takeWhile_le_eq_nil {starts : List Int} {x : Int} (h : ∀ s ∈ starts, x < s) :
    starts.takeWhile (· ≤ x) = [] := by
  cases starts with
  | nil => rfl
  | cons s starts =>
    have hs := h s List.mem_cons_self
    exact List.takeWhile_cons_of_neg (by simpa using hs)

namespace Position

def coordinates (p : Position) : Int × Int := (p.line, p.column)

/-- Line and column of an offset, counted on from an earlier place in a line that starts at
`lineStart`, where the lines that start at `passed` are passed on the way. -/
structure CountsOn (p : Position) (lineStart : Int) (passed : List Int) (offset : Nat)
    (q : Position) : Prop where
  line : (q.line : Int) = p.line + passed.length
  column : (q.column : Int) = offset - passed.getLastD lineStart + 1

theorem CountsOn.nil (hline : q.line = p.line) (hcolumn : (q.column : Int) = offset - lineStart + 1) :
    p.CountsOn lineStart [] offset q where
  line := by simp [hline]
  column := hcolumn

theorem CountsOn.newLine {start : Int} {passed : List Int}
    (h : CountsOn ⟨p.line + 1, 1⟩ start passed offset q) :
    p.CountsOn lineStart (start :: passed) offset q where
  line := by
    have hline : (q.line : Int) = (p.line + 1 : Nat) + passed.length := h.line
    rw [hline, List.length_cons]
    omega
  column := by
    rw [List.getLastD_cons]
    exact h.column

end Position

namespace Cursor

def passedStarts (offset n : Nat) (t : Text) : List Int :=
  (startsFrom offset t).tail.takeWhile (· ≤ ((offset + n : Nat) : Int))

theorem passedStarts_zero (offset : Nat) (t : Text) : passedStarts offset 0 t = [] :=
  takeWhile_le_eq_nil fun _ hs => lt_of_mem_tail hs

theorem takeWhile_startsFrom (ht : t ≠ []) (offset n : Nat) :
    (startsFrom offset t).takeWhile (· ≤ ((offset + n : Nat) : Int)) =
      (offset : Int) :: passedStarts offset n t := by
  obtain ⟨rest, hrest⟩ := exists_startsFrom ht offset
  have hle : (offset : Int) ≤ ((offset + n : Nat) : Int) := by omega
  rw [passedStarts, hrest, List.takeWhile_cons, if_pos (decide_eq_true hle), List.tail_cons]

/-- The first characters of a text do not end with a line end at its very end, which would start no
other line. -/
def Inside (n : Nat) (t : Text) : Prop :=
  n ≤ t.length ∧ (n = t.length → ∀ c ∈ t.getLast?, isLineEnd c = false)

theorem Inside.of_cons (h : Inside (n + 1) (c :: t)) : Inside n t := by
  refine ⟨Nat.le_of_succ_le_succ h.1, fun hn d hd => ?_⟩
  have hlast : (c :: t).getLast? = t.getLast? := by
    cases t with
    | nil => cases hd
    | cons e t => exact List.getLast?_cons_cons
  exact h.2 (congrArg Nat.succ hn) d (hlast ▸ hd)

theorem Inside.ne_nil (h : Inside (n + 1) (c :: t)) (hline : isLineEnd c) : t ≠ [] := by
  rintro rfl
  obtain rfl : n = 0 := Nat.le_zero.1 (Nat.le_of_succ_le_succ h.1)
  rw [h.2 rfl c rfl] at hline
  cases hline

theorem passedStarts_return_feed (ht : t ≠ []) (offset n : Nat) :
    passedStarts offset (n + 2) ('\r' :: '\n' :: t) =
      ((offset + 2 : Nat) : Int) :: passedStarts (offset + 2) n t := by
  rw [← takeWhile_startsFrom ht, Nat.add_right_comm]
  rfl

theorem passedStarts_return (offset : Nat) (t : Text) :
    passedStarts offset 1 ('\r' :: '\n' :: t) = [] := by
  refine takeWhile_le_eq_nil fun s hs => ?_
  have hmem : s ∈ startsFrom (offset + 2) t := hs
  have := le_of_mem_startsFrom hmem
  omega

theorem passedStarts_lineEnd (hc : isLineEnd c) (hfeed : c = '\r' → t.head? ≠ some '\n')
    (ht : t ≠ []) (offset n : Nat) : passedStarts offset (n + 1) (c :: t) =
      ((offset + 1 : Nat) : Int) :: passedStarts (offset + 1) n t := by
  rw [← takeWhile_startsFrom ht, Nat.add_right_comm, passedStarts, startsFrom_lineEnd hc hfeed]
  rfl

theorem passedStarts_cons (hc : isLineEnd c = false) (offset n : Nat) (t : Text) :
    passedStarts offset (n + 1) (c :: t) = passedStarts (offset + 1) n t := by
  rw [passedStarts, startsFrom_cons hc, passedStarts, List.tail_cons, Nat.add_right_comm]
  rfl

theorem countsOn_zero (hcolumn : (p.column : Int) = offset - lineStart + 1) (t : Text) :
    p.CountsOn lineStart (passedStarts offset 0 t) (offset + 0) (skip 0 ⟨t, p⟩).position := by
  rw [passedStarts_zero]
  exact .nil rfl hcolumn

theorem column_succ (hcolumn : (p.column : Int) = offset - lineStart + 1) :
    ((p.column + 1 : Nat) : Int) = (offset + 1 : Nat) - lineStart + 1 := by
  omega

theorem countsOn_skip (hn : Inside n t) (hcolumn : (p.column : Int) = offset - lineStart + 1) :
    p.CountsOn lineStart (passedStarts offset n t) (offset + n) (skip n ⟨t, p⟩).position := by
  fun_induction cut t generalizing n offset p lineStart with
  | case1 =>
    obtain rfl : n = 0 := Nat.le_zero.1 hn.1
    exact countsOn_zero hcolumn _
  | case2 t ih =>
    obtain _ | _ | n := n
    · exact countsOn_zero hcolumn _
    · rw [passedStarts_return]
      exact .nil rfl (column_succ hcolumn)
    · have hmore : Position.CountsOn ⟨p.line + 1, 1⟩ (offset + 2 : Nat)
          (passedStarts (offset + 2) n t) (offset + 2 + n)
          (skip n ⟨t, ⟨p.line + 1, 1⟩⟩).position := ih hn.of_cons.of_cons (by simp)
      rw [passedStarts_return_feed (hn.of_cons.ne_nil rfl),
        show offset + (n + 2) = offset + 2 + n by omega]
      exact hmore.newLine
  | case3 c t hno hline ih =>
    cases n with
    | zero => exact countsOn_zero hcolumn _
    | succ n =>
      have hfeed := head?_ne_of_not_feed hno
      have hmore : Position.CountsOn ⟨p.line + 1, 1⟩ (offset + 1 : Nat)
          (passedStarts (offset + 1) n t) (offset + 1 + n)
          (skip n ⟨t, ⟨p.line + 1, 1⟩⟩).position := ih hn.of_cons (by simp)
      rw [passedStarts_lineEnd hline hfeed (hn.ne_nil hline), skip, next,
        Position.past_lineEnd hline hfeed, ← Nat.add_assoc, Nat.add_right_comm]
      exact hmore.newLine
  | case4 c t hno hline _ _ _ _ ih | case5 c t hno hline _ ih =>
    cases n with
    | zero => exact countsOn_zero hcolumn _
    | succ n =>
      have hplain : isLineEnd c = false := by simpa using hline
      have hmore : Position.CountsOn ⟨p.line, p.column + 1⟩ lineStart
          (passedStarts (offset + 1) n t) (offset + 1 + n)
          (skip n ⟨t, ⟨p.line, p.column + 1⟩⟩).position := ih hn.of_cons (column_succ hcolumn)
      rw [passedStarts_cons hplain, skip, next, Position.past_of_not_lineEnd hplain,
        ← Nat.add_assoc, Nat.add_right_comm]
      exact ⟨hmore.line, hmore.column⟩

/-- What follows a text tells on no place in it but that between a carriage return and a line
feed. -/
theorem position_skip_append (hn : n ≤ t.length) (hlast : t.getLast? ≠ some '\r') (u : Text)
    (p : Position) : (skip n ⟨t ++ u, p⟩).position = (skip n ⟨t, p⟩).position := by
  induction n generalizing t p with
  | zero => rfl
  | succ n ih =>
    cases t with
    | nil => cases hn
    | cons c t =>
      have hpast : p.past c (t ++ u).head? = p.past c t.head? := by
        cases t with
        | nil => exact Position.past_of_ne_return (fun hc => hlast (congrArg some hc)) _ _ _
        | cons d t => rfl
      rw [List.cons_append, skip, skip, next, next, hpast]
      exact ih (Nat.le_of_succ_le_succ hn) (Text.getLast?_ne_of_cons hlast) _

theorem inside_of_le_trimRight (hn : n ≤ t.trimRight.length) : Inside n t := by
  have hstart := Text.trimRight_prefix t
  refine ⟨Nat.le_trans hn hstart.length_le, fun heq c hc => ?_⟩
  have hwhole : t.trimRight = t := hstart.eq_of_length_le (heq ▸ hn)
  have hlast := Text.isBlank_getLast_trimRight t
  rw [hwhole] at hlast
  exact not_isLineEnd_of_plain (hlast c hc)

theorem lineCol_skip (hn : Inside n t) : t.lineCol n = (skip n ⟨t, ⟨1, 1⟩⟩).position.coordinates := by
  obtain rfl | ht := eq_or_ne t []
  · obtain rfl : n = 0 := Nat.le_zero.1 hn.1
    rfl
  · obtain ⟨rest, hrest⟩ := exists_startsFrom ht 0
    obtain ⟨hline, hcolumn⟩ : Position.CountsOn ⟨1, 1⟩ 0 (passedStarts 0 n t) (0 + n)
        (skip n ⟨t, ⟨1, 1⟩⟩).position := countsOn_skip hn (by simp)
    rw [passedStarts, hrest, List.tail_cons, Nat.zero_add] at hline hcolumn
    rw [Text.lineCol, starts_eq, hrest, Line.coordinates, Position.coordinates, hline, hcolumn]
    exact congrArg (·, _) (Int.add_comm _ 1)

theorem lineCol_skip_start (hn : n ≤ t.trimRight.length) :
    t.lineCol n = (skip n (start t)).position.coordinates := by
  obtain ⟨blanks, -, ht⟩ := Text.exists_blanks t
  have hlast : t.trimRight.getLast? ≠ some '\r' := by
    intro hreturn
    cases Text.isBlank_getLast_trimRight t '\r' hreturn
  have hskip := position_skip_append hn hlast blanks ⟨1, 1⟩
  rw [← ht] at hskip
  rw [lineCol_skip (inside_of_le_trimRight hn), hskip]
  rfl

theorem skip_add (m n : Nat) (a : Cursor) : a.skip (m + n) = (a.skip m).skip n := by
  induction m generalizing a with
  | zero => rw [Nat.zero_add]; rfl
  | succ m ih => rw [Nat.succ_add, skip, skip, ih]

structure At (n : Nat) (t : Text) (a : Cursor) : Prop where
  eq : a = skip n (start t)
  le : n ≤ t.trimRight.length

namespace At

variable {a : Cursor}

theorem unread (h : a.At n t) : a.unread = t.trimRight.drop n := by
  rw [h.eq]
  exact unread_skip n (start t)

theorem place (h : a.At n t) : a.position.coordinates = t.lineCol n := by
  rw [h.eq]
  exact (lineCol_skip_start h.le).symm

theorem skip {m : Nat} (h : a.At n t) (hm : m ≤ a.unread.length) : (a.skip m).At (n + m) t where
  eq := by rw [skip_add, ← h.eq]
  le := by
    rw [h.unread, List.length_drop] at hm
    have := h.le
    omega

end At

end Cursor

end GrammarCheck
