import GrammarCheck.Text.Fence
import Mathlib.Data.List.Forall2

namespace GrammarCheck

section Runs

variable {α : Type} [BEq α] [LawfulBEq α] {x : α} {xs : List α}

theorem takeWhile_replicate_append (h : xs.head? ≠ some x) (n : Nat) :
    (List.replicate n x ++ xs).takeWhile (· == x) = List.replicate n x := by
  induction n with
  | zero => cases xs <;> simp_all
  | succ n ih => simp [List.replicate_succ, ih]

theorem dropWhile_replicate_append (h : xs.head? ≠ some x) (n : Nat) :
    (List.replicate n x ++ xs).dropWhile (· == x) = xs := by
  induction n with
  | zero => cases xs <;> simp_all
  | succ n ih => simp [List.replicate_succ, ih]

theorem eq_replicate_of_all (h : xs.all (· == x)) : xs = List.replicate xs.length x :=
  List.eq_replicate_of_mem fun y hy => eq_of_beq (List.all_eq_true.1 h y hy)

theorem exists_replicate_append (x : α) (xs : List α) :
    ∃ n ys, xs = List.replicate n x ++ ys ∧ ys.head? ≠ some x := by
  refine ⟨(xs.takeWhile (· == x)).length, xs.dropWhile (· == x), ?_, ?_⟩
  · rw [← eq_replicate_of_all List.all_takeWhile, List.takeWhile_append_dropWhile]
  · intro hhead
    have hnot := List.head?_dropWhile_not (· == x) xs
    simp [hhead] at hnot

end Runs

namespace Fence

variable {fence : Fence} {line info rest : Text} {mark : Char} {n size : Nat}

/-- Spaces, then marks, at least three and as many as stand there, then the rest of the line, which
begins with the language. -/
structure Opens (fence : Fence) (line info : Text) : Prop where
  line_eq : line = List.replicate fence.indent ' ' ++ (List.replicate fence.size fence.mark ++ info)
  isMark : fence.mark = '\x60' ∨ fence.mark = '~'
  isLong : 3 ≤ fence.size
  isWhole : info.head? ≠ some fence.mark
  language_eq : fence.language =
    (info.dropWhile (· == ' ')).takeWhile fun c => !(c == ' ' || isLineEnd c)

theorem Opens.mark_ne (h : fence.Opens line info) : fence.mark ≠ ' ' := by
  rcases h.isMark with hmark | hmark <;> rw [hmark] <;> decide

theorem Opens.size_pos (h : fence.Opens line info) : 0 < fence.size :=
  Nat.lt_of_lt_of_le (by decide) h.isLong

/-- At most the spaces of the indent, then at least the marks of the opening line, then only spaces. -/
def Closes (fence : Fence) (line : Text) : Prop :=
  ∃ indent size spaces, indent ≤ fence.indent ∧ fence.size ≤ size ∧
    line = List.replicate indent ' ' ++ (List.replicate size fence.mark ++ List.replicate spaces ' ')

theorem open?_spaces (n : Nat) : open? (List.replicate n ' ') = none := by
  have htake : (List.replicate n ' ' ++ []).takeWhile (· == ' ') = List.replicate n ' ' :=
    takeWhile_replicate_append (by simp) n
  rw [List.append_nil] at htake
  rw [open?]
  dsimp only
  rw [htake, List.drop_length]

theorem open?_marks (hmark : mark ≠ ' ') (hinfo : info.head? ≠ some mark) (n size : Nat) :
    open? (List.replicate n ' ' ++ (List.replicate (size + 1) mark ++ info)) =
      if (mark == '\x60' || mark == '~') && 3 ≤ size + 1 then
        some ⟨n, mark, size + 1,
          (info.dropWhile (· == ' ')).takeWhile fun c => !(c == ' ' || isLineEnd c)⟩
      else none := by
  have hhead : (List.replicate (size + 1) mark ++ info).head? ≠ some ' ' := by
    simpa [List.replicate_succ] using hmark
  have htake := takeWhile_replicate_append hinfo (size + 1)
  rw [open?]
  dsimp only
  rw [takeWhile_replicate_append hhead, List.drop_left]
  rw [List.replicate_succ, List.cons_append] at htake ⊢
  dsimp only
  rw [htake, ← List.cons_append, ← List.replicate_succ, List.drop_left, List.length_replicate,
    List.length_replicate]

theorem open?_eq_some_iff : open? line = some fence ↔ ∃ info, fence.Opens line info := by
  constructor
  · intro h
    obtain ⟨n, rest, rfl, hrest⟩ := exists_replicate_append ' ' line
    cases rest with
    | nil =>
      rw [List.append_nil, open?_spaces] at h
      cases h
    | cons mark rest =>
      have hmark : mark ≠ ' ' := by simpa using hrest
      obtain ⟨size, info, rfl, hinfo⟩ := exists_replicate_append mark rest
      rw [← List.cons_append, ← List.replicate_succ] at h ⊢
      rw [open?_marks hmark hinfo] at h
      split at h
      · rename_i hfence
        obtain rfl := Option.some.inj h
        simp only [Bool.and_eq_true, Bool.or_eq_true, beq_iff_eq, decide_eq_true_eq] at hfence
        exact ⟨info, rfl, hfence.1, hfence.2, hinfo, rfl⟩
      · cases h
  · rintro ⟨info, h⟩
    obtain ⟨size, hsucc⟩ := Nat.exists_eq_add_one.2 h.size_pos
    rw [h.line_eq, hsucc, open?_marks h.mark_ne h.isWhole, ← hsucc, ← h.language_eq, if_pos]
    simpa [h.isLong] using h.isMark

theorem removeIndent_eq (n : Nat) (line : Text) :
    removeIndent n line = line.drop (min n (line.takeWhile (· == ' ')).length) := by
  fun_induction removeIndent n line with
  | case1 n line ih => simp [ih]
  | case2 n line hno =>
    cases n with
    | zero => simp
    | succ n =>
      have hhead : line.takeWhile (· == ' ') = [] := by
        cases line with
        | nil => rfl
        | cons c line =>
          have hc : c ≠ ' ' := by
            rintro rfl
            exact hno n line rfl rfl
          simp [hc]
      rw [hhead, List.length_nil, Nat.min_zero, List.drop_zero]

theorem exists_removeIndent (n : Nat) (line : Text) :
    ∃ k ≤ n, line = List.replicate k ' ' ++ removeIndent n line := by
  fun_induction removeIndent n line with
  | case1 n line ih =>
    obtain ⟨k, hk, hline⟩ := ih
    exact ⟨k + 1, Nat.succ_le_succ hk, congrArg (' ' :: ·) hline⟩
  | case2 n line hno => exact ⟨0, Nat.zero_le n, rfl⟩

theorem removeIndent_spaces (hn : n ≤ size) (h : line.head? ≠ some ' ') :
    removeIndent size (List.replicate n ' ' ++ line) = line := by
  rw [removeIndent_eq, takeWhile_replicate_append h, List.length_replicate, Nat.min_eq_right hn,
    List.drop_left' (List.length_replicate ..)]

theorem isClosedBy_iff (hspace : fence.mark ≠ ' ') : fence.isClosedBy line ↔
    ∃ size spaces, fence.size ≤ size ∧
      line = List.replicate size fence.mark ++ List.replicate spaces ' ' := by
  obtain ⟨size, rest, rfl, hrest⟩ := exists_replicate_append fence.mark line
  rw [isClosedBy, takeWhile_replicate_append hrest, dropWhile_replicate_append hrest,
    List.length_replicate, Bool.and_eq_true, decide_eq_true_eq]
  constructor
  · rintro ⟨hsize, hspaces⟩
    exact ⟨size, rest.length, hsize, by rw [← eq_replicate_of_all hspaces]⟩
  · rintro ⟨size', spaces, hsize, heq⟩
    have hhead : (List.replicate spaces ' ').head? ≠ some fence.mark := by
      rw [List.head?_replicate]
      split
      · simp
      · simpa using Ne.symm hspace
    have htake := congrArg (List.takeWhile (· == fence.mark)) heq
    have hdrop := congrArg (List.dropWhile (· == fence.mark)) heq
    rw [takeWhile_replicate_append hrest, takeWhile_replicate_append hhead] at htake
    rw [dropWhile_replicate_append hrest, dropWhile_replicate_append hhead] at hdrop
    have hlength := congrArg List.length htake
    rw [List.length_replicate, List.length_replicate] at hlength
    exact ⟨hlength ▸ hsize, by simp [hdrop]⟩

theorem Opens.closes_iff (h : fence.Opens line info) (inner : Text) :
    fence.isClosedBy (removeIndent fence.indent inner) ↔ fence.Closes inner := by
  rw [isClosedBy_iff h.mark_ne]
  constructor
  · rintro ⟨size, spaces, hsize, hmarks⟩
    obtain ⟨indent, hindent, hinner⟩ := exists_removeIndent fence.indent inner
    rw [hmarks] at hinner
    exact ⟨indent, size, spaces, hindent, hsize, hinner⟩
  · rintro ⟨indent, size, spaces, hindent, hsize, rfl⟩
    obtain ⟨k, rfl⟩ := Nat.exists_eq_add_one.2 (Nat.lt_of_lt_of_le h.size_pos hsize)
    refine ⟨k + 1, spaces, hsize, removeIndent_spaces hindent ?_⟩
    simpa [List.replicate_succ] using h.mark_ne

def contents (fence : Fence) (lines : List Line) : Text :=
  lines.flatMap fun line =>
    line.text.drop (min fence.indent (line.text.takeWhile (· == ' ')).length) ++ ['\r', '\n']

theorem contents_concat (fence : Fence) (lines : List Line) (line : Line) :
    fence.contents (lines ++ [line]) =
      fence.contents lines ++ removeIndent fence.indent line.text ++ ['\r', '\n'] := by
  simp [contents, removeIndent_eq]

structure Holds (fence : Fence) (opening : Line) (inside : List Line) : Prop where
  opens : ∃ info, fence.Opens opening.text info
  noClose : ∀ line ∈ inside, ¬fence.Closes line.text

theorem Holds.concat {opening line : Line} {inside : List Line} (h : fence.Holds opening inside)
    (hline : ¬fence.Closes line.text) : fence.Holds opening (inside ++ [line]) :=
  ⟨h.opens, List.forall_mem_append.2 ⟨h.noClose, List.forall_mem_singleton.2 hline⟩⟩

end Fence

namespace Segment

variable {line : Line} {lines group : List Line} {segment : Segment} {segments : List Segment}

inductive Folds : List Line → Segment → Prop
  | plain {line : Line} (noFence : ∀ fence info, ¬Fence.Opens fence line.text info) :
    Folds [line] (.plain line.text line.span)
  | block {fence : Fence} {opening closing : Line} {inside : List Line}
      (holds : fence.Holds opening inside) (closes : fence.Closes closing.text) :
    Folds (opening :: (inside ++ [closing]))
      (.code (fence.contents inside) fence.language
        ⟨opening.span.start, closing.span.stop - opening.span.start⟩)

inductive FoldsOpen : List Line → Segment → Prop
  | block {fence : Fence} {opening : Line} {inside : List Line}
      (holds : fence.Holds opening inside) :
    FoldsOpen (opening :: inside)
      (.code (fence.contents inside) fence.language
        ⟨opening.span.start, (inside.getLastD opening).span.stop - opening.span.start⟩)

/-- The segments take up the lines group by group. Only the last block may lack its closing line. -/
def Cover (lines : List Line) (segments : List Segment) : Prop :=
  ∃ groups : List (List Line), groups.flatten = lines ∧
    List.Forall₂ (fun group segment => Folds group segment ∨ FoldsOpen group segment)
      groups segments ∧
    List.Forall₂ Folds groups.dropLast segments.dropLast

namespace Cover

theorem nil : Cover [] [] := ⟨[], rfl, .nil, .nil⟩

theorem last (h : FoldsOpen group segment) : Cover group [segment] :=
  ⟨[group], List.append_nil group, .cons (.inr h) .nil, .nil⟩

theorem cons (h : Folds group segment) (hmore : Cover lines segments) :
    Cover (group ++ lines) (segment :: segments) := by
  obtain ⟨groups, rfl, hall, hclosed⟩ := hmore
  refine ⟨group :: groups, rfl, .cons (.inl h) hall, ?_⟩
  cases hall with
  | nil => exact .nil
  | cons _ _ => exact .cons h hclosed

end Cover

inductive Begun : Option OpenBlock → List Line → Prop
  | none : Begun none []
  | some {block : OpenBlock} {opening : Line} {inside : List Line}
      (holds : block.fence.Holds opening inside) (start_eq : block.start = opening.span.start)
      (stop_eq : block.stop = (inside.getLastD opening).span.stop)
      (code_eq : block.code = block.fence.contents inside) :
    Begun (some block) (opening :: inside)

theorem cover_ofLines {block? : Option OpenBlock} {before : List Line} (h : Begun block? before)
    (lines : List Line) : Cover (before ++ lines) (ofLines block? lines) := by
  fun_induction ofLines block? lines generalizing before with
  | case1 =>
    cases h
    exact .nil
  | case2 block =>
    obtain - | ⟨holds, hstart, hstop, hcode⟩ := h
    rw [List.append_nil, OpenBlock.close, hstart, hstop, hcode]
    exact .last (.block holds)
  | case3 line lines hplain ih =>
    cases h
    have hline : Folds [line] (.plain line.text line.span) := by
      refine .plain fun fence info hopens => ?_
      rw [Fence.open?_eq_some_iff.2 ⟨info, hopens⟩] at hplain
      cases hplain
    change Cover ([line] ++ lines) _
    exact .cons hline (ih .none)
  | case4 line lines fence hopen ih =>
    cases h
    exact @ih [line] (.some ⟨Fence.open?_eq_some_iff.1 hopen, nofun⟩ rfl rfl rfl)
  | case5 block line lines content hclosed =>
    rename_i ih
    obtain - | @⟨_, opening, inside, holds, hstart, hstop, hcode⟩ := h
    obtain ⟨info, hopens⟩ := holds.opens
    rw [OpenBlock.close, hstart, hcode, List.cons_append, List.append_cons, ← List.cons_append]
    exact .cons (.block holds ((hopens.closes_iff line.text).1 hclosed)) (ih .none)
  | case6 block line lines content hopen code =>
    rename_i ih
    obtain - | @⟨_, opening, inside, holds, hstart, hstop, hcode⟩ := h
    obtain ⟨info, hopens⟩ := holds.opens
    rw [List.cons_append, List.append_cons, ← List.cons_append]
    refine ih (.some (holds.concat fun hcloses => hopen ?_) hstart ?_ ?_)
    · exact (hopens.closes_iff line.text).2 hcloses
    · rw [List.getLastD_concat]
    · rw [Fence.contents_concat, ← hcode]

theorem cover_all (t : Text) : Cover (Line.all t) (all t) := cover_ofLines .none (Line.all t)

/-- The segments of a text are its lines in order, each line in one segment. -/
theorem all_covers_lines (t : Text) : ∃ groups : List (List Line),
    groups.flatten = Line.all t ∧
    List.Forall₂ (fun group segment => Folds group segment ∨ FoldsOpen group segment)
      groups (all t) ∧
    List.Forall₂ Folds groups.dropLast (all t).dropLast :=
  cover_all t

end Segment

end GrammarCheck
