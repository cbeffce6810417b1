import GrammarCheck.Proofs.Text.Words

namespace GrammarCheck

open GrammarCheck.Span

namespace Line

variable {c : Char} {t : Text} {offset : Nat} {lines lines' : List (Text × Text)}
  {before after rest : List Line} {first : Line}

def unite (lines : List (Text × Text)) : Text := lines.flatMap fun line => line.1 ++ line.2

theorem unite_cut (t : Text) : unite (cut t) = t := flatten_cut t

@[simp] theorem unite_nil : unite [] = [] := rfl

@[simp] theorem unite_cons (line : Text × Text) (lines : List (Text × Text)) :
    unite (line :: lines) = line.1 ++ (line.2 ++ unite lines) := by
  rw [unite, List.flatMap_cons, List.append_assoc]
  rfl

@[simp] theorem unite_append (lines lines' : List (Text × Text)) :
    unite (lines ++ lines') = unite lines ++ unite lines' :=
  List.flatMap_append

structure Terminated (lines : List (Text × Text)) : Prop where
  ne_nil : lines.Pairwise fun line _ => line.2 ≠ []
  isLineEnd : ∀ line ∈ lines, ∀ c ∈ line.2, isLineEnd c

theorem isLineEnd_of_mem_cut (t : Text) : ∀ line ∈ cut t, ∀ c ∈ line.2, isLineEnd c := by
  fun_induction cut t with
  | case1 => simp
  | case2 rest ih => exact List.forall_mem_cons.2 ⟨by simp [isLineEnd], ih⟩
  | case3 c rest hno hline ih => exact List.forall_mem_cons.2 ⟨by simpa using hline, ih⟩
  | case4 c rest hno hline text terminator lines hrest ih =>
    rw [hrest] at ih
    obtain ⟨hterminator, hlines⟩ := List.forall_mem_cons.1 ih
    exact List.forall_mem_cons.2 ⟨hterminator, hlines⟩
  | case5 c rest hno hline hrest ih => simp

theorem terminated_cut (t : Text) : Terminated (cut t) :=
  ⟨pairwise_cut t, isLineEnd_of_mem_cut t⟩

theorem not_isWordChar (h : isLineEnd c) : Word.isWordChar c = false := by
  simp only [isLineEnd, Bool.or_eq_true, beq_iff_eq] at h
  rcases h with rfl | rfl <;> decide

namespace Terminated

theorem sublist (h : Terminated lines) (hsub : lines'.Sublist lines) : Terminated lines' :=
  ⟨h.ne_nil.sublist hsub, fun line hline => h.isLineEnd line (hsub.mem hline)⟩

theorem words_unite (h : Terminated lines) :
    (unite lines).words = lines.flatMap (·.1.words) := by
  induction lines with
  | nil => rfl
  | cons line lines ih =>
    obtain ⟨hne, -⟩ := List.pairwise_cons.1 h.ne_nil
    have hterminator : ∀ c ∈ line.2, Word.isWordChar c = false :=
      fun c hc => not_isWordChar (h.isLineEnd line List.mem_cons_self c hc)
    have hafter : Word.Parted line.2 (unite lines) :=
      .of_left (fun c hc => hterminator c (List.mem_of_getLast? hc)) _
    have hbefore : Word.Parted line.1 (line.2 ++ unite lines) := by
      refine .of_right ?_ _
      cases hline : line.2 with
      | nil =>
        cases lines with
        | nil => exact nofun
        | cons next lines => exact absurd hline (hne next List.mem_cons_self)
      | cons c terminator =>
        rw [hline] at hterminator
        simpa using hterminator c List.mem_cons_self
    rw [unite_cons, Word.words_append hbefore, Word.words_append hafter,
      Word.words_eq_nil hterminator, List.nil_append, List.flatMap_cons,
      ih (h.sublist (List.sublist_cons_self line lines))]

theorem cutShort {init : List (Text × Text)} {last : Text × Text}
    (h : Terminated (init ++ [last])) : Terminated (init ++ [(last.1, [])]) := by
  obtain ⟨hinit, -, hlast⟩ := List.pairwise_append.1 h.ne_nil
  obtain ⟨hends, -⟩ := List.forall_mem_append.1 h.isLineEnd
  refine ⟨List.pairwise_append.2 ⟨hinit, List.pairwise_singleton .., ?_⟩, ?_⟩
  · exact fun line hline _ _ => hlast line hline last List.mem_cons_self
  · exact List.forall_mem_append.2 ⟨hends, List.forall_mem_singleton.2 nofun⟩

end Terminated

theorem map_text_place (offset : Nat) (lines : List (Text × Text)) :
    (place offset lines).map (·.text) = lines.map (·.1) := by
  induction lines generalizing offset with
  | nil => rfl
  | cons line lines ih => rw [place, List.map_cons, List.map_cons, ih]

theorem place_append (offset : Nat) (lines lines' : List (Text × Text)) :
    place offset (lines ++ lines') =
      place offset lines ++ place (offset + (unite lines).length) lines' := by
  induction lines generalizing offset with
  | nil => rfl
  | cons line lines ih =>
    rw [List.cons_append, place, place, ih, unite_cons, List.length_append, List.length_append,
      List.cons_append, Nat.add_assoc offset, Nat.add_assoc offset, Nat.add_assoc]

theorem exists_of_place_eq_append (h : place offset lines = before ++ after) :
    ∃ lines₁ lines₂, lines = lines₁ ++ lines₂ ∧ place offset lines₁ = before ∧
      place (offset + (unite lines₁).length) lines₂ = after := by
  induction before generalizing offset lines with
  | nil => exact ⟨[], lines, rfl, rfl, h⟩
  | cons line before ih =>
    cases lines with
    | nil => cases h
    | cons cutLine lines =>
      obtain ⟨rfl, htail⟩ := List.cons.inj h
      obtain ⟨lines₁, lines₂, rfl, rfl, rfl⟩ := ih htail
      refine ⟨cutLine :: lines₁, lines₂, rfl, rfl, ?_⟩
      rw [unite_cons, List.length_append, List.length_append, ← Nat.add_assoc, ← Nat.add_assoc]

theorem start_of_place_eq_cons (h : place offset lines = first :: rest) :
    first.span.start = offset := by
  cases lines with
  | nil => cases h
  | cons line lines =>
    obtain ⟨rfl, -⟩ := List.cons.inj h
    rfl

theorem exists_slice_eq_unite (h : all t = before ++ (first :: rest ++ after)) :
    ∃ lines : List (Text × Text), lines.map (·.1) = (first :: rest).map (·.text) ∧
      Terminated lines ∧
      slice ⟨first.span.start, (rest.getLastD first).span.stop - first.span.start⟩ t =
        unite lines := by
  obtain ⟨linesBefore, more, hcut, -, hmore⟩ := exists_of_place_eq_append h
  obtain ⟨middle, linesAfter, rfl, hmiddle, -⟩ := exists_of_place_eq_append hmore
  rw [Nat.zero_add] at hmiddle
  obtain rfl | ⟨init, last, rfl⟩ := List.eq_nil_or_concat middle
  · cases hmiddle
  rw [List.concat_eq_append] at hcut hmiddle
  have hterminated : Terminated (init ++ [last]) :=
    (hcut ▸ terminated_cut t).sublist
      ((List.sublist_append_left ..).trans (List.sublist_append_right ..))
  have htexts := map_text_place (unite linesBefore).length (init ++ [last])
  have hstart := start_of_place_eq_cons hmiddle
  have hstop : (rest.getLastD first).span.stop =
      ((unite linesBefore).length + (unite (init ++ [(last.1, [])])).length : Nat) := by
    have hlast := congrArg List.getLast? hmiddle
    rw [place_append, place, place, List.getLast?_concat, List.getLast?_cons,
      ← List.getLastD_eq_getLast?] at hlast
    rw [← Option.some.inj hlast, stop_between]
    simp [Nat.add_assoc]
  have ht : t = unite linesBefore ++
      (unite (init ++ [(last.1, [])]) ++ (last.2 ++ unite linesAfter)) := by
    rw [← unite_cut t, hcut]
    simp
  refine ⟨init ++ [(last.1, [])], ?_, hterminated.cutShort, ?_⟩
  · rw [← hmiddle, htexts]
    simp
  · have hslice := slice_between_append (unite linesBefore) (unite (init ++ [(last.1, [])]))
      (last.2 ++ unite linesAfter)
    rw [← ht] at hslice
    rw [hstart, hstop]
    exact hslice

theorem words_slice (h : all t = before ++ (first :: rest ++ after)) :
    Text.words
        (slice ⟨first.span.start, (rest.getLastD first).span.stop - first.span.start⟩ t) =
      (first :: rest).flatMap (·.text.words) := by
  obtain ⟨lines, htexts, hterminated, hslice⟩ := exists_slice_eq_unite h
  have hwords := congrArg (List.flatMap Text.words) htexts
  rw [List.flatMap_map, List.flatMap_map] at hwords
  rw [hslice, hterminated.words_unite, hwords]

theorem words_flatMap_append {terminator : Text} (hne : terminator ≠ [])
    (hends : ∀ c ∈ terminator, isLineEnd c) (lines : List Line) :
    Text.words (lines.flatMap fun line => line.text ++ terminator) =
      lines.flatMap (·.text.words) := by
  have hterminated : Terminated (lines.map fun line => (line.text, terminator)) := by
    refine ⟨List.pairwise_map.2 (List.pairwise_of_forall fun _ _ => hne), ?_⟩
    simpa using fun _ _ => hends
  have hwords := hterminated.words_unite
  rw [unite, List.flatMap_map, List.flatMap_map] at hwords
  exact hwords

end Line

end GrammarCheck
