import GrammarCheck.Proofs.Spec.Steps
import GrammarCheck.Proofs.Text.Pieces
import Mathlib.Data.List.Chain
import Mathlib.Data.List.Nodup

namespace GrammarCheck.Spec

variable {settings : Settings} {documents : List Document} {counter counter' : BookmarkCounter}
  {s : Spec} {sections : List Section} {t : Section} {level : Int}

/-- Is there a section of this level at `j`, and no heading of a higher rank behind it? -/
def stands (sections : List Section) (level : Int) (j : Nat) : Bool :=
  sections[j]?.any (·.level = level) && (sections.drop (j + 1)).all (level ≤ ·.level)

def standing (sections : List Section) (level : Int) : Nat :=
  (List.range sections.length).countP (stands sections level)

def tally (sections : List Section) (depth : Nat) : List Nat :=
  (List.range depth).map fun k : Nat => standing sections (k + 1)

def place (sections : List Section) : List Nat :=
  match sections.getLast? with
  | none => []
  | some t => tally sections t.level.toNat

def places (sections : List Section) : List (List Nat) :=
  (List.range sections.length).map fun i => place (sections.take (i + 1))

theorem length_tally (sections : List Section) (depth : Nat) :
    (tally sections depth).length = depth := by
  simp [tally]

theorem tally_add (sections : List Section) (depth more : Nat) :
    tally sections (depth + more) = tally sections depth ++
      (List.range more).map fun k : Nat => standing sections (depth + k + 1) := by
  simp [tally, List.range_add]

theorem take_tally {depth depth' : Nat} (h : depth ≤ depth') (sections : List Section) :
    (tally sections depth').take depth = tally sections depth := by
  obtain ⟨more, rfl⟩ := Nat.exists_eq_add_of_le h
  rw [tally_add, List.take_left' (length_tally sections depth)]

theorem stands_concat_of_lt {j : Nat} (h : j < sections.length) (t : Section) (level : Int) :
    stands (sections ++ [t]) level j = (stands sections level j && decide (level ≤ t.level)) := by
  rw [stands, List.getElem?_append_left h, List.drop_append_of_le_length h, List.all_append]
  simp [stands, Bool.and_assoc]

theorem stands_concat_self (sections : List Section) (t : Section) (level : Int) :
    stands (sections ++ [t]) level sections.length = decide (t.level = level) := by
  simp [stands]

theorem standing_concat (sections : List Section) (t : Section) (level : Int) :
    standing (sections ++ [t]) level =
      (if level ≤ t.level then standing sections level else 0) +
        if t.level = level then 1 else 0 := by
  have hearlier : (List.range sections.length).countP (stands (sections ++ [t]) level) =
      (List.range sections.length).countP fun j =>
        stands sections level j && decide (level ≤ t.level) := by
    apply List.countP_congr
    intro j hj
    rw [stands_concat_of_lt (List.mem_range.1 hj)]
  rw [standing, List.length_append, List.length_singleton, List.range_succ, List.countP_append,
    hearlier, List.countP_singleton, stands_concat_self]
  by_cases h : level ≤ t.level <;> simp [h, standing]

theorem place_concat (sections : List Section) (t : Section) :
    place (sections ++ [t]) = tally (sections ++ [t]) t.level.toNat := by
  rw [place, List.getLast?_concat]

theorem places_concat (sections : List Section) (t : Section) :
    places (sections ++ [t]) = places sections ++ [place (sections ++ [t])] := by
  rw [places, List.length_append, List.length_singleton, List.range_succ, List.map_append]
  congr 1
  · apply List.map_congr_left
    intro i hi
    rw [List.take_append_of_le_length (List.mem_range.1 hi)]
  · rw [List.map_singleton, List.take_of_length_le (by simp)]

/-- A section is counted at its level, leaves the counts of the levels above and ends those of the
levels below. -/
theorem tally_concat {depth : Nat} (hlevel : t.level = depth + 1) (more : Nat)
    (sections : List Section) :
    tally (sections ++ [t]) (depth + (1 + more)) =
      tally sections depth ++ (standing sections t.level + 1) :: List.replicate more 0 := by
  rw [tally_add, Nat.add_comm 1 more, List.range_succ_eq_map, List.map_cons, List.map_map]
  congr 1
  · apply List.map_congr_left
    intro k hk
    have hk := List.mem_range.1 hk
    rw [standing_concat, if_pos (by omega), if_neg (by omega), Nat.add_zero]
  congr 1
  · rw [standing_concat, if_pos (by omega), if_pos (by omega), hlevel]
    simp
  · apply List.eq_replicate_iff.2
    refine ⟨by simp, ?_⟩
    intro n hn
    obtain ⟨k, -, rfl⟩ := List.mem_map.1 hn
    rw [Function.comp_apply, standing_concat, if_neg (by omega), if_neg (by omega)]

theorem place_concat_eq {depth : Nat} (hlevel : t.level = depth + 1) (sections : List Section) :
    place (sections ++ [t]) = tally sections depth ++ [standing sections t.level + 1] := by
  rw [place_concat, show t.level.toNat = depth + (1 + 0) by omega, tally_concat hlevel,
    List.replicate_zero]

theorem lt_append_of_ne_nil (xs : List Nat) {ys : List Nat} (h : ys ≠ []) : xs < xs ++ ys := by
  obtain ⟨y, ys, rfl⟩ := List.exists_cons_of_ne_nil h
  have h : xs ++ [] < xs ++ y :: ys := List.append_left_lt (List.nil_lt_cons y ys)
  rwa [List.append_nil] at h

theorem place_lt_place (ht : 1 ≤ t.level) {u : Section} (sections : List Section) :
    place (sections ++ [u]) < place (sections ++ [u] ++ [t]) := by
  obtain ⟨depth, hdepth⟩ : ∃ depth : Nat, t.level = depth + 1 := ⟨t.level.toNat - 1, by omega⟩
  rw [place_concat_eq hdepth, place_concat]
  by_cases hle : t.level ≤ u.level
  · -- The counts of the two agree up to the level of `t`, where the new section is counted.
    obtain ⟨m, hm⟩ : ∃ m, u.level.toNat = depth + (m + 1) :=
      ⟨u.level.toNat - t.level.toNat, by omega⟩
    rw [hm, tally_add]
    apply List.append_left_lt
    rw [List.range_succ_eq_map, List.map_cons, List.cons_lt_cons_iff, hdepth]
    exact .inl (by simp)
  · -- The number of `u` goes on.
    obtain ⟨m, hm⟩ : ∃ m, depth = u.level.toNat + m := ⟨depth - u.level.toNat, by omega⟩
    rw [hm, tally_add, List.append_assoc]
    exact lt_append_of_ne_nil _ (by simp)

theorem places_increasing (h : ∀ t ∈ sections, 1 ≤ t.level) :
    (places sections).Pairwise (· < ·) := by
  rw [← List.isChain_iff_pairwise]
  induction sections using List.reverseRecOn with
  | nil => exact .nil
  | append_singleton sections t ih =>
    rw [places_concat, List.isChain_append]
    refine ⟨ih fun u hu => h u (List.mem_append_left _ hu), .singleton _, ?_⟩
    rintro _ hlast _ ⟨⟩
    cases sections using List.reverseRecOn with
    | nil => cases hlast
    | append_singleton sections u =>
      rw [places_concat, List.getLast?_concat] at hlast
      cases hlast
      exact place_lt_place (h t (by simp)) sections

theorem map_length_places (sections : List Section) :
    (places sections).map List.length = sections.map (·.level.toNat) := by
  induction sections using List.reverseRecOn with
  | nil => rfl
  | append_singleton sections t ih =>
    rw [places_concat, List.map_append, ih, List.map_append, List.map_singleton, List.map_singleton,
      place_concat, length_tally]

def placeText (place : List Nat) : Text := Text.join ['.'] (place.map Text.ofNat)

theorem pieces_placeText {place : List Nat} (h : place ≠ []) :
    (placeText place).pieces '.' = place.map Text.ofNat := by
  apply Text.pieces_join (by simpa using h)
  intro part hpart hdot
  obtain ⟨n, -, rfl⟩ := List.mem_map.1 hpart
  exact absurd (Text.isDigit_of_mem_ofNat hdot) (by decide)

theorem numberText_eq (h : 1 ≤ level) (numbers : List Nat) :
    Reader.numberText level numbers = placeText (numbers.take level.toNat) := by
  have hslice : (⟨0, level⟩ : Span).slice numbers = numbers.take level.toNat := by
    have hlevel : ¬level < 0 := by omega
    simp [Span.slice, Span.clamp, Span.stop, hlevel]
  rw [Reader.numberText, hslice, placeText]

/-- The number of a section has one component for each level down to its own, the count of the
sections there that still stand. So the numbers rise, and none comes twice. -/
structure Numbered (sections : List Section) : Prop where
  components : sections.map (·.number.pieces '.') = (places sections).map (·.map Text.ofNat)
  depth : ∀ t ∈ sections, ((t.number.pieces '.').length : Int) = t.level
  increasing : (places sections).Pairwise (· < ·)
  distinct : (sections.map (·.number)).Nodup

theorem numbered_of_placeText (hlevels : ∀ t ∈ sections, 1 ≤ t.level)
    (hnumbers : sections.map (·.number) = (places sections).map placeText) : Numbered sections := by
  have hne : ∀ place ∈ places sections, place ≠ [] := by
    rintro place hplace rfl
    have hzero : 0 ∈ (places sections).map List.length := List.mem_map.2 ⟨_, hplace, rfl⟩
    rw [map_length_places] at hzero
    obtain ⟨t, ht, hlevel⟩ := List.mem_map.1 hzero
    have := hlevels t ht
    omega
  have hcomponents : sections.map (·.number.pieces '.') =
      (places sections).map (·.map Text.ofNat) := by
    calc sections.map (·.number.pieces '.')
        = (sections.map (·.number)).map (Text.pieces '.') := by simp [Function.comp_def]
      _ = ((places sections).map placeText).map (Text.pieces '.') := by rw [hnumbers]
      _ = (places sections).map (·.map Text.ofNat) := by
          rw [List.map_map]
          exact List.map_congr_left fun place hplace => pieces_placeText (hne place hplace)
  have hincreasing := places_increasing hlevels
  refine ⟨hcomponents, ?_, hincreasing, ?_⟩
  · intro t ht
    have hlengths : sections.map (fun t => (t.number.pieces '.').length) =
        sections.map (·.level.toNat) := by
      have h := congrArg (List.map List.length) hcomponents
      simpa [Function.comp_def, ← map_length_places] using h
    have := List.map_inj_left.1 hlengths t ht
    have := hlevels t ht
    omega
  · apply List.Nodup.of_map (Text.pieces '.')
    rw [List.map_map]
    change (sections.map (·.number.pieces '.')).Nodup
    rw [hcomponents]
    exact List.Nodup.map (List.map_injective_iff.2 Text.ofNat_injective) (hincreasing.imp ne_of_lt)

namespace Reader

structure Tallied (r : Reader) : Prop where
  numbers : r.numbers = tally r.spec.sections r.numbers.length
  levels : ∀ t ∈ r.spec.sections, 1 ≤ t.level
  recorded : r.spec.sections.map (·.number) = (places r.spec.sections).map placeText

theorem bump?_tally {numbers numbers' : List Nat} (h : numbers = tally sections numbers.length)
    (ht : 1 ≤ t.level) (hbump : bump? t.level numbers = some numbers') :
    numbers' = tally (sections ++ [t]) numbers'.length ∧ t.level.toNat ≤ numbers'.length := by
  obtain ⟨depth, hdepth⟩ : ∃ depth : Nat, t.level = depth + 1 := ⟨t.level.toNat - 1, by omega⟩
  have hpred : t.level.toNat - 1 = depth := by omega
  rw [bump?, if_pos ht, hpred] at hbump
  split at hbump
  · cases hbump
  · rename_i n deeper hdrop
    have hlength : numbers.length = depth + (1 + deeper.length) := by
      have := congrArg List.length hdrop
      rw [List.length_drop, List.length_cons] at this
      omega
    rw [hlength, tally_add] at h
    have htake : numbers.take depth = tally sections depth := by
      rw [h, List.take_left' (length_tally sections depth)]
    have hn : n = standing sections t.level := by
      rw [h, List.drop_left' (length_tally sections depth), Nat.add_comm 1,
        List.range_succ_eq_map, List.map_cons] at hdrop
      rw [hdepth, ← (List.cons.inj hdrop).1]
      simp
    have hnumbers' := (Option.some.inj hbump).symm
    rw [htake, hn, List.map_const', ← tally_concat hdepth] at hnumbers'
    rw [hnumbers', length_tally]
    exact ⟨rfl, by omega⟩

theorem Tallied.withSection {r : Reader} {numbers : List Nat} (h : r.Tallied) (ht : 1 ≤ t.level)
    (hbump : bump? t.level r.numbers = some numbers) (hnumber : t.number = numberText t.level numbers)
    (reports : List Diagnostic) : (r.withSection numbers t reports).Tallied := by
  obtain ⟨hnumbers, hdepth⟩ := bump?_tally h.numbers ht hbump
  refine ⟨hnumbers, ?_, ?_⟩
  · intro u hu
    obtain hu | hu := List.mem_append.1 hu
    · exact h.levels u hu
    · obtain rfl := List.mem_singleton.1 hu
      exact ht
  · have hplace : t.number = placeText (place (r.spec.sections ++ [t])) := by
      rw [hnumber, numberText_eq ht, hnumbers, take_tally hdepth, place_concat]
    rw [Reader.withSection, places_concat, List.map_append, List.map_append, h.recorded,
      List.map_singleton, List.map_singleton, hplace]

theorem Tallied.step {d : Document} {block : Block} {r r' : Reader} (h : r.Tallied)
    (hlevel : ∀ level content, block = .heading level content → 1 ≤ level)
    (hstep : Step d r block r') : r'.Tallied := by
  cases hstep with
  | passed | untitled | tooDeep | dropped | parsed => exact ⟨h.numbers, h.levels, h.recorded⟩
  | counted _ _ counts _ => exact h.withSection (hlevel _ _ rfl) counts rfl _

theorem tallied_start (settings : Settings) (counter : BookmarkCounter) :
    (start settings counter).Tallied := by
  refine ⟨?_, nofun, rfl⟩
  rw [start, tally]
  simp [standing, List.map_const']

end Reader

theorem numbered_of_read (hlevels : ∀ d ∈ documents, ∀ level content,
      .heading level content ∈ d.walk → 1 ≤ level)
    (hread : read documents settings counter = .ok (s, counter')) : Numbered s.sections := by
  have hstep : ∀ d ∈ documents, ∀ block ∈ d.walk, ∀ (_ : List (Document × Block)) r r',
      Reader.Step d r block r' → r.Tallied → r'.Tallied := by
    intro d hd block hblock _ r r' hstep h
    apply h.step _ hstep
    rintro level content rfl
    exact hlevels d hd level content hblock
  obtain ⟨r, rfl, -, hr⟩ := read_keeps (fun _ => Reader.Tallied)
    (Reader.tallied_start settings counter) (fun _ _ _ h => ⟨h.numbers, h.levels, h.recorded⟩)
    hstep hread
  exact numbered_of_placeText hr.levels hr.recorded

theorem one_le_level {d : Document} {level : Int} {content : Inline} (h : d.WellFormed)
    (hmem : .heading level content ∈ d.walk) : 1 ≤ level := by
  cases h.of_mem_walk hmem with
  | heading isLevel _ => exact isLevel

/-- Headings that count from level 1 are numbered by their place among all sections, whatever
documents and blocks they stand in. -/
theorem read_numbered (hlevels : ∀ d ∈ documents, ∀ level content,
      .heading level content ∈ d.walk → 1 ≤ level) (settings : Settings)
    (counter : BookmarkCounter) :
    ((∀ d ∈ documents, d.WellFormed) →
      ∃ s counter', read documents settings counter = .ok (s, counter')) ∧
    ∀ s counter', read documents settings counter = .ok (s, counter') → Numbered s.sections := by
  refine ⟨?_, fun s counter' hread => numbered_of_read hlevels hread⟩
  intro h
  obtain ⟨r, hread, -⟩ := read_eq_ok h settings counter
  exact ⟨_, _, hread⟩

theorem read_numbered_skipped_levels :
    ∃ documents : List Document, documents.map (·.blocks) =
      [[.heading 2 (.run [.text ['a']]), .quote [.heading 3 (.run [.code ['b']])],
          .heading 9 (.run [.text ['c']]), .heading 2 (.run [.text ['d']])],
        [.list false [[.heading 1 (.run [.text ['e']])]], .heading 3 (.run [.text ['f']])]] ∧
      ∃ s counter', read documents {} {} = .ok (s, counter') ∧
        s.sections.map (·.number) =
          ["0.1".toList, "0.1.1".toList, "0.2".toList, "1".toList, "1.0.1".toList] ∧
        Numbered s.sections := by
  let documents : List Document :=
    [⟨['x'], [], [.heading 2 (.run [.text ['a']]), .quote [.heading 3 (.run [.code ['b']])],
        .heading 9 (.run [.text ['c']]), .heading 2 (.run [.text ['d']])]⟩,
      ⟨['y'], [], [.list false [[.heading 1 (.run [.text ['e']])]],
        .heading 3 (.run [.text ['f']])]⟩]
  have hheading : ∀ level content, 1 ≤ level →
      (∀ item ∈ content, Inline.WellFormed item) → Block.WellFormed (.heading level (.run content)) :=
    fun _ _ => .heading
  have hwellFormed : ∀ d ∈ documents, d.WellFormed := by
    simp [documents, Document.WellFormed, hheading, Block.WellFormed.quote, Block.WellFormed.list,
      Inline.WellFormed.text, Inline.WellFormed.code]
  have hnumbers : (read documents {} {}).map (fun result => result.1.sections.map (·.number)) =
      .ok ["0.1".toList, "0.1.1".toList, "0.2".toList, "1".toList, "1.0.1".toList] := by
    with_unfolding_all rfl
  obtain ⟨hreturns, hnumbered⟩ :=
    read_numbered (fun d hd _ _ => one_le_level (hwellFormed d hd)) {} {}
  obtain ⟨s, counter', hread⟩ := hreturns hwellFormed
  rw [hread] at hnumbers
  exact ⟨documents, rfl, s, counter', hread, Except.ok.inj hnumbers, hnumbered s counter' hread⟩

end GrammarCheck.Spec
