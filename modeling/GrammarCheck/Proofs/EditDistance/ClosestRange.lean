import GrammarCheck.Proofs.EditDistance.Table
import Mathlib.Data.List.Basic
import Mathlib.Data.Set.Subsingleton

namespace GrammarCheck.EditDistance

variable {α : Type} [DecidableEq α] {needle haystack : List α}

theorem places_eq_singleton_iff (row : List Nat) (best stop : Nat) :
    ((row.zipIdx.filter (·.1 == best)).map (·.2)) = [stop] ↔
      ∀ i, row[i]? = some best ↔ i = stop := by
  have hmem : ∀ i, i ∈ (row.zipIdx.filter (·.1 == best)).map (·.2) ↔ row[i]? = some best := by
    intro i
    simp [List.mk_mem_zipIdx_iff_getElem?]
  have hnodup : ((row.zipIdx.filter (·.1 == best)).map (·.2)).Nodup := by
    have hsub := (List.filter_sublist (p := (·.1 == best)) (l := row.zipIdx)).map (·.2)
    rw [List.zipIdx_map_snd] at hsub
    exact hsub.nodup (List.nodup_range' ..)
  simp only [← hmem]
  constructor
  · intro h
    simp [h]
  · intro h
    refine List.perm_singleton.1 ((List.perm_ext_iff_of_nodup hnodup (List.nodup_singleton stop)).2 ?_)
    simpa using h

def between (start stop : Nat) (ys : List α) : List α := (ys.take stop).drop start

def closestRanges (needle haystack : List α) : Set (Nat × Nat) :=
  {r | r.1 ≤ r.2 ∧ r.2 ≤ haystack.length ∧ ∀ start stop, start ≤ stop → stop ≤ haystack.length →
    editDistance needle (between r.1 r.2 haystack) ≤
      editDistance needle (between start stop haystack)}

omit [DecidableEq α] in
theorem isLeast_endCost_take (needle : List α) {stop : Nat} (h : stop ≤ haystack.length) :
    IsLeast {n | ∃ start ≤ stop, n = editDistance needle (between start stop haystack)}
      (endCost needle (haystack.take stop)) := by
  have hleast := isLeast_endCost needle (haystack.take stop)
  constructor
  · obtain ⟨s, hs, hcost⟩ := hleast.1
    have hlen : s.length ≤ stop := by
      have := hs.length_le
      simp only [List.length_take] at this
      omega
    have heq : between (stop - s.length) stop haystack = s := by
      have := List.suffix_iff_eq_drop.1 hs
      rwa [List.length_take, Nat.min_eq_left h, eq_comm] at this
    refine ⟨stop - s.length, Nat.sub_le _ _, ?_⟩
    rw [heq]
    exact Nat.le_antisymm (hleast.2 ⟨s, hs, (isLeast_editDistance _ _).1⟩)
      ((isLeast_editDistance _ _).2 hcost)
  · rintro _ ⟨start, hstart, rfl⟩
    exact hleast.2 ⟨_, List.drop_suffix _ _, (isLeast_editDistance _ _).1⟩

omit [DecidableEq α] in
theorem getElem?_inits_map (f : List α → Nat) (ys : List α) (i : Nat) :
    (ys.inits.map f)[i]? = if i ≤ ys.length then some (f (ys.take i)) else none := by
  rw [← map_range_take, getElem?_map_range]

theorem getElem?_matchRow_eq_min_iff {best : Nat} (hbest : (matchRow needle haystack).min? = some best)
    (stop : Nat) :
    (matchRow needle haystack)[stop]? = some best ↔
      ∃ start, (start, stop) ∈ closestRanges needle haystack := by
  simp only [List.min?_eq_some_iff, matchRow_eq, List.mem_iff_getElem?, getElem?_inits_map] at hbest
  simp only [matchRow_eq, getElem?_inits_map]
  obtain ⟨⟨j, hj⟩, hle⟩ := hbest
  have hjlen : j ≤ haystack.length := by
    by_contra h
    simp [h] at hj
  simp only [hjlen, if_true, Option.some.injEq] at hj
  have hle' : ∀ i ≤ haystack.length, best ≤ endCost needle (haystack.take i) :=
    fun i hi => hle _ ⟨i, by simp [hi]⟩
  constructor
  · intro h
    have hstop : stop ≤ haystack.length := by
      by_contra hn
      simp [hn] at h
    simp only [hstop, if_true, Option.some.injEq] at h
    obtain ⟨start, hstart, hcost⟩ := (isLeast_endCost_take needle hstop).1
    refine ⟨start, hstart, hstop, fun s e hs he => ?_⟩
    calc editDistance needle (between start stop haystack) = best := by rw [← hcost, h]
      _ ≤ endCost needle (haystack.take e) := hle' e he
      _ ≤ _ := (isLeast_endCost_take needle he).2 ⟨s, hs, rfl⟩
  · rintro ⟨start, hstart, hstop, hmin⟩
    obtain ⟨s, hs, hcost⟩ := (isLeast_endCost_take needle hjlen).1
    have h : endCost needle (haystack.take stop) ≤ best :=
      calc endCost needle (haystack.take stop)
          ≤ editDistance needle (between start stop haystack) :=
            (isLeast_endCost_take needle hstop).2 ⟨start, hstart, rfl⟩
        _ ≤ editDistance needle (between s j haystack) := hmin s j hs hjlen
        _ = best := by rw [← hcost, hj]
    simp only [hstop, if_true, Option.some.injEq]
    exact Nat.le_antisymm h (hle' stop hstop)

theorem exists_min?_matchRow (needle haystack : List α) :
    ∃ best, (matchRow needle haystack).min? = some best := by
  rw [← Option.isSome_iff_exists, List.isSome_min?_iff, matchRow_eq]
  cases haystack <;> simp

theorem closestRanges_nonempty (needle haystack : List α) :
    (closestRanges needle haystack).Nonempty := by
  obtain ⟨best, hbest⟩ := exists_min?_matchRow needle haystack
  obtain ⟨stop, hstop⟩ := List.mem_iff_getElem?.1 (List.min?_mem hbest)
  obtain ⟨start, hmem⟩ := (getElem?_matchRow_eq_min_iff hbest stop).1 hstop
  exact ⟨(start, stop), hmem⟩

theorem closestEnd_eq_some_iff {stop : Nat} :
    closestEnd needle haystack = some stop ↔
      ∀ i, (∃ start, (start, i) ∈ closestRanges needle haystack) ↔ i = stop := by
  obtain ⟨best, hbest⟩ := exists_min?_matchRow needle haystack
  have hplaces := places_eq_singleton_iff (matchRow needle haystack) best stop
  simp only [getElem?_matchRow_eq_min_iff hbest] at hplaces
  rw [← hplaces, closestEnd, hbest, Option.getD_some]
  constructor
  · intro h
    split at h
    · rename_i heq
      rw [heq, Option.some.inj h]
    · cases h
  · intro h
    rw [h]

omit [DecidableEq α] in
theorem editDistance_between_reverse (needle : List α) {start stop : Nat} (h : start ≤ stop)
    (h' : stop ≤ haystack.length) :
    editDistance needle.reverse (between start stop haystack.reverse) =
      editDistance needle
        (between (haystack.length - stop) (haystack.length - start) haystack) := by
  rw [← editDistance_reverse needle]
  congr 1
  simp only [between, List.take_reverse, List.drop_reverse, List.length_drop, List.drop_take]
  congr 2
  omega

omit [DecidableEq α] in
theorem mem_closestRanges_of_reverse {start stop : Nat}
    (h : (start, stop) ∈ closestRanges needle.reverse haystack.reverse) :
    (haystack.length - stop, haystack.length - start) ∈ closestRanges needle haystack := by
  obtain ⟨hstart, hstop, hmin⟩ := h
  simp only [List.length_reverse] at hstart hstop hmin
  refine ⟨by simp only; omega, by simp only; omega, fun s e hs he => ?_⟩
  have h := hmin (haystack.length - e) (haystack.length - s) (by omega) (by omega)
  rw [editDistance_between_reverse needle hstart hstop,
    editDistance_between_reverse needle (by omega) (by omega)] at h
  simpa [Nat.sub_sub_self he, Nat.sub_sub_self (Nat.le_trans hs he)] using h

omit [DecidableEq α] in
theorem mem_closestRanges_reverse {start stop : Nat}
    (h : (start, stop) ∈ closestRanges needle haystack) :
    (haystack.length - stop, haystack.length - start) ∈
      closestRanges needle.reverse haystack.reverse := by
  have h' : (start, stop) ∈ closestRanges needle.reverse.reverse haystack.reverse.reverse := by
    simpa using h
  simpa using mem_closestRanges_of_reverse h'

theorem ends_of_closestRanges_eq {start stop : Nat}
    (h : closestRanges needle haystack = {(start, stop)}) :
    closestEnd needle haystack = some stop ∧
      closestEnd needle.reverse haystack.reverse = some (haystack.length - start) := by
  have hmem : (start, stop) ∈ closestRanges needle haystack := by simp [h]
  constructor
  · refine closestEnd_eq_some_iff.2 fun i => ⟨?_, ?_⟩
    · rintro ⟨s, hs⟩
      simp only [h, Set.mem_singleton_iff, Prod.mk.injEq] at hs
      exact hs.2
    · rintro rfl
      exact ⟨start, hmem⟩
  · refine closestEnd_eq_some_iff.2 fun i => ⟨?_, ?_⟩
    · rintro ⟨s, hs⟩
      have hi : i ≤ haystack.length := by simpa using hs.2.1
      have hs' := mem_closestRanges_of_reverse hs
      simp only [h, Set.mem_singleton_iff, Prod.mk.injEq] at hs'
      omega
    · rintro rfl
      exact ⟨_, mem_closestRanges_reverse hmem⟩

theorem closestRanges_eq_of_ends {stop back : Nat} (hstop : closestEnd needle haystack = some stop)
    (hback : closestEnd needle.reverse haystack.reverse = some back) :
    closestRanges needle haystack = {(haystack.length - back, stop)} := by
  have hunique : ∀ r ∈ closestRanges needle haystack, r = (haystack.length - back, stop) := by
    rintro ⟨s, e⟩ h
    have he : e = stop := (closestEnd_eq_some_iff.1 hstop e).1 ⟨s, h⟩
    have hs : haystack.length - s = back :=
      (closestEnd_eq_some_iff.1 hback _).1 ⟨_, mem_closestRanges_reverse h⟩
    have hle : s ≤ e := h.1
    have hlen : e ≤ haystack.length := h.2.1
    rw [Prod.mk.injEq]
    omega
  obtain ⟨s, h⟩ := (closestEnd_eq_some_iff.1 hstop stop).2 rfl
  rw [hunique _ h] at h
  exact Set.eq_singleton_iff_unique_mem.2 ⟨h, hunique⟩

theorem closestRanges_eq_of_closestRange {r : Span} (h : closestRange needle haystack = some r) :
    ∃ start stop, r = .between start stop ∧ closestRanges needle haystack = {(start, stop)} := by
  obtain ⟨stop, hstop, h⟩ := Option.bind_eq_some_iff.1 h
  obtain ⟨back, hback, h⟩ := Option.bind_eq_some_iff.1 h
  dsimp only at h
  split at h
  · cases h
  · exact ⟨_, _, (Option.some.inj h).symm, closestRanges_eq_of_ends hstop hback⟩

omit [DecidableEq α] in
theorem lt_of_closestRanges_eq {start stop : Nat} (hne : haystack ≠ [])
    (h : closestRanges needle haystack = {(start, stop)}) : start < stop := by
  have hmem : (start, stop) ∈ closestRanges needle haystack := by simp [h]
  obtain ⟨hle, hlen, hmin⟩ := hmem
  apply Nat.lt_of_le_of_ne hle
  intro heq
  simp only at hle hlen heq
  subst heq
  have hempty : ∀ i, between i i haystack = [] := fun i => by
    simp [between]
  have hall : ∀ i ≤ haystack.length, i = start := by
    intro i hi
    have hi' : (i, i) ∈ closestRanges needle haystack := by
      refine ⟨Nat.le_refl i, hi, fun s e hs he => ?_⟩
      simpa only [hempty] using hmin s e hs he
    simp only [h, Set.mem_singleton_iff, Prod.mk.injEq] at hi'
    exact hi'.1
  have hpos := List.length_pos_of_ne_nil hne
  have h0 := hall 0 (Nat.zero_le _)
  have h1 := hall 1 hpos
  omega

theorem closestRange_of_closestRanges_eq {start stop : Nat} (hne : haystack ≠ [])
    (h : closestRanges needle haystack = {(start, stop)}) :
    closestRange needle haystack = some (.between start stop) := by
  obtain ⟨hstop, hback⟩ := ends_of_closestRanges_eq h
  have hlt := lt_of_closestRanges_eq hne h
  have hmem : (start, stop) ∈ closestRanges needle haystack := by simp [h]
  have hlen : stop ≤ haystack.length := hmem.2.1
  have hstart : haystack.length - (haystack.length - start) = start := by omega
  simp [closestRange, hstop, hback, hstart, Nat.not_lt.2 hlt.le]

/-- The search finds the closest range if there is only one, which is never empty, and nothing
otherwise. The ends found by its passes are never in the wrong order. -/
theorem search_finds_unique_closest (hneedle : needle ≠ []) (hhaystack : haystack ≠ []) :
    (∀ start stop, closestRanges needle haystack = {(start, stop)} →
      search needle haystack = .ok (some ⟨start, stop - start⟩) ∧ start < stop) ∧
    ((∀ r, closestRanges needle haystack ≠ {r}) → search needle haystack = .ok none) ∧
    ∀ stop back, closestEnd needle haystack = some stop →
      closestEnd needle.reverse haystack.reverse = some back → haystack.length - back < stop := by
  have hsearch : search needle haystack = .ok (closestRange needle haystack) := by
    simp [search, hneedle, hhaystack]
  refine ⟨fun start stop h => ?_, fun h => ?_, fun stop back hstop hback => ?_⟩
  · obtain ⟨hstop, hback⟩ := ends_of_closestRanges_eq h
    have hlt := lt_of_closestRanges_eq hhaystack h
    have hmem : (start, stop) ∈ closestRanges needle haystack := by simp [h]
    have hlen : stop ≤ haystack.length := hmem.2.1
    have hstart : haystack.length - (haystack.length - start) = start := by omega
    refine ⟨?_, hlt⟩
    simp [hsearch, closestRange, hstop, hback, hstart, Nat.not_lt.2 hlt.le, Span.between]
  · rw [hsearch, closestRange]
    cases hstop : closestEnd needle haystack with
    | none => rfl
    | some stop =>
      cases hback : closestEnd needle.reverse haystack.reverse with
      | none => rfl
      | some back => exact absurd (closestRanges_eq_of_ends hstop hback) (h _)
  · exact lt_of_closestRanges_eq hhaystack (closestRanges_eq_of_ends hstop hback)

theorem search_finds_unique_closest_letter :
    ['b'] ≠ [] ∧ ['a', 'b', 'c'] ≠ [] ∧ closestRanges ['b'] ['a', 'b', 'c'] = {(1, 2)} ∧
      search ['b'] ['a', 'b', 'c'] = .ok (some ⟨1, 1⟩) := by
  have hneedle : ['b'] ≠ [] := by decide
  have hhaystack : ['a', 'b', 'c'] ≠ [] := by decide
  have hstop : closestEnd ['b'] ['a', 'b', 'c'] = some 2 := by decide
  have hback : closestEnd ['b'].reverse ['a', 'b', 'c'].reverse = some 2 := by decide
  have h : closestRanges ['b'] ['a', 'b', 'c'] = {(1, 2)} := closestRanges_eq_of_ends hstop hback
  exact ⟨hneedle, hhaystack, h, ((search_finds_unique_closest hneedle hhaystack).1 1 2 h).1⟩

variable {stop : Nat}

def closestEnds (needle haystack : List α) : Set Nat :=
  {stop | ∃ start, (start, stop) ∈ closestRanges needle haystack}

theorem closestEnds_nonempty (needle haystack : List α) :
    (closestEnds needle haystack).Nonempty := by
  obtain ⟨⟨start, stop⟩, h⟩ := closestRanges_nonempty needle haystack
  exact ⟨stop, start, h⟩

theorem closestEnd_eq_some_iff_closestEnds :
    closestEnd needle haystack = some stop ↔ closestEnds needle haystack = {stop} := by
  rw [closestEnd_eq_some_iff, Set.ext_iff]
  rfl

theorem closestEnd_eq_none_iff :
    closestEnd needle haystack = none ↔ (closestEnds needle haystack).Nontrivial := by
  constructor
  · intro hnone
    obtain ⟨stop, hstop⟩ := closestEnds_nonempty needle haystack
    obtain hone | hmany := Set.eq_singleton_or_nontrivial hstop
    · rw [closestEnd_eq_some_iff_closestEnds.2 hone] at hnone
      cases hnone
    · exact hmany
  · intro hmany
    rw [Option.eq_none_iff_forall_ne_some]
    intro stop hstop
    rw [closestEnd_eq_some_iff_closestEnds.1 hstop] at hmany
    exact Set.not_nontrivial_singleton hmany

theorem exists_getElem?_matchRow (needle : List α) (h : stop ≤ haystack.length) :
    ∃ least, (matchRow needle haystack)[stop]? = some least ∧
      IsLeast {n | ∃ start ≤ stop, n = editDistance needle (between start stop haystack)} least := by
  refine ⟨endCost needle (haystack.take stop), ?_, isLeast_endCost_take needle h⟩
  rw [matchRow_eq, getElem?_inits_map, if_pos h]

/-- The last row has an entry for each place, which is the least distance from the ranges that end
there. A place is found if and only if it is the only end of the closest ranges, and none if there
are several. -/
theorem matchRow_isLeast_and_closestEnd_iff (needle haystack : List α) :
    (matchRow needle haystack).length = haystack.length + 1 ∧
    (∀ stop ≤ haystack.length, ∃ least, (matchRow needle haystack)[stop]? = some least ∧
      IsLeast {n | ∃ start ≤ stop, n = editDistance needle (between start stop haystack)} least) ∧
    (∀ stop, closestEnd needle haystack = some stop ↔ closestEnds needle haystack = {stop}) ∧
    (closestEnd needle haystack = none ↔ (closestEnds needle haystack).Nontrivial) := by
  refine ⟨?_, fun stop => exists_getElem?_matchRow needle,
    fun _ => closestEnd_eq_some_iff_closestEnds, closestEnd_eq_none_iff⟩
  rw [matchRow_eq, List.length_map, List.length_inits]

end GrammarCheck.EditDistance
