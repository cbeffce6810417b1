import GrammarCheck.Proofs.Notation.Sessions
import GrammarCheck.Proofs.Text.Coordinates
import GrammarCheck.Proofs.Text.Terminators
import Mathlib

namespace GrammarCheck

variable {t : Text} {p offset : Nat}

namespace Text

/-- Lines start at the start of a text and behind each terminator that is not at its very end. Of a
carriage return and its line feed the first is no terminator of its own. -/
inductive StartsLine (t : Text) : Nat → Prop
  | first : StartsLine t 0
  | next {before terminator after : Text} (text : t = before ++ (terminator ++ after))
      (newline : IsNewline terminator) (whole : terminator = ['\r'] → after.head? ≠ some '\n')
      (more : after ≠ []) : StartsLine t (before.length + terminator.length)

def EndsLine (t : Text) (p : Nat) : Prop :=
  t[p]? = some '\n' ∨ t[p]? = some '\r' ∧ t[p + 1]? ≠ some '\n'

instance (t : Text) (p : Nat) : Decidable (t.EndsLine p) := inferInstanceAs (Decidable (_ ∨ _ ∧ _))

theorem startsLine_succ_iff : t.StartsLine (p + 1) ↔ p + 1 < t.length ∧ t.EndsLine p := by
  constructor
  · intro h
    generalize hp : p + 1 = start at h
    cases h with
    | first => cases hp
    | @next before terminator after text newline whole more =>
      subst text
      have hmore := List.length_pos_iff.2 more
      refine ⟨by simp only [List.length_append]; omega, ?_⟩
      obtain rfl | rfl | rfl := newline
      · obtain rfl : p = before.length + 1 := by simpa using hp
        left
        rw [List.getElem?_append_right (by omega)]
        simp
      · obtain rfl : p = before.length := by simpa using hp
        refine .inr ⟨by simp, ?_⟩
        rw [List.getElem?_append_right (by omega)]
        simpa [← List.head?_eq_getElem?] using whole rfl
      · obtain rfl : p = before.length := by simpa using hp
        left
        simp
  · rintro ⟨hlt, hends⟩
    have hsplit : t = t.take p ++ ([t[p]] ++ t.drop (p + 1)) := by simp
    have hmore : t.drop (p + 1) ≠ [] := by simpa using hlt
    have hp : (t.take p).length + [t[p]].length = p + 1 := by
      rw [List.length_take_of_le (by omega), List.length_singleton]
    rw [EndsLine, List.getElem?_eq_getElem (by omega), Option.some.injEq, Option.some.injEq] at hends
    rw [← hp]
    refine .next hsplit ?_ ?_ hmore
    · obtain hfeed | ⟨hreturn, -⟩ := hends
      · exact .inr (.inr (by rw [hfeed]))
      · exact .inr (.inl (by rw [hreturn]))
    · intro hreturn
      obtain hfeed | ⟨-, hfeed⟩ := hends
      · rw [hfeed] at hreturn
        cases hreturn
      · rwa [List.head?_drop]

instance (t : Text) : DecidablePred t.StartsLine
  | 0 => .isTrue .first
  | _ + 1 => decidable_of_iff _ startsLine_succ_iff.symm

theorem endsLine_cons_succ {c : Char} : EndsLine (c :: t) (p + 1) ↔ EndsLine t p := Iff.rfl

theorem endsLine_cons_zero {c : Char} :
    EndsLine (c :: t) 0 ↔ isLineEnd c ∧ (c = '\r' → t.head? ≠ some '\n') := by
  have hzero : EndsLine (c :: t) 0 ↔ c = '\n' ∨ c = '\r' ∧ t.head? ≠ some '\n' := by
    simp [EndsLine, List.head?_eq_getElem?]
  rw [hzero, isLineEnd_iff]
  refine ⟨?_, ?_⟩
  · rintro (rfl | ⟨rfl, hfeed⟩)
    · exact ⟨.inr rfl, nofun⟩
    · exact ⟨.inl rfl, fun _ => hfeed⟩
  · rintro ⟨rfl | rfl, hfeed⟩
    · exact .inr ⟨rfl, hfeed rfl⟩
    · exact .inl rfl

end Text

namespace Line

open Text

variable {c : Char} {start : Nat}

theorem mem_startsFrom_self (start : Nat) : (start : Int) ∈ startsFrom start t ↔ 0 < t.length := by
  rw [List.length_pos_iff]
  refine ⟨?_, fun ht => ?_⟩
  · rintro h rfl
    cases h
  · obtain ⟨rest, hrest⟩ := exists_startsFrom ht start
    rw [hrest]
    exact List.mem_cons_self

theorem mem_tail_startsFrom : ((start + p + 1 : Nat) : Int) ∈ (startsFrom start t).tail ↔
    ((start + p + 1 : Nat) : Int) ∈ startsFrom start t := by
  refine ⟨List.mem_of_mem_tail, fun h => ?_⟩
  have ht : t ≠ [] := by
    rintro rfl
    cases h
  obtain ⟨rest, hrest⟩ := exists_startsFrom ht start
  rw [hrest] at h ⊢
  exact (List.mem_cons.1 h).resolve_left (by omega)

theorem not_mem_tail_startsFrom (start : Nat) (t : Text) : (start : Int) ∉ (startsFrom start t).tail :=
  fun h => Int.lt_irrefl _ (lt_of_mem_tail h)

theorem tail_startsFrom_return_feed :
    (startsFrom start ('\r' :: '\n' :: t)).tail = startsFrom (start + 2) t := rfl

theorem mem_startsFrom_iff (start p : Nat) :
    ((start + p + 1 : Nat) : Int) ∈ startsFrom start t ↔ p + 1 < t.length ∧ t.EndsLine p := by
  fun_induction cut t generalizing start p with
  | case1 => simp [startsFrom, cut, place]
  | case2 t ih =>
    rw [← mem_tail_startsFrom, tail_startsFrom_return_feed]
    obtain _ | _ | p := p
    · have hnot : ((start + 0 + 1 : Nat) : Int) ∉ startsFrom (start + 2) t := by
        intro h
        have := le_of_mem_startsFrom h
        omega
      exact iff_of_false hnot (by simp [endsLine_cons_zero])
    · rw [endsLine_cons_succ, endsLine_cons_zero]
      exact (mem_startsFrom_self (start + 2)).trans (by simp [isLineEnd])
    · have hnext := ih (start + 2) p
      rw [endsLine_cons_succ, endsLine_cons_succ, List.length_cons, List.length_cons,
        show start + (p + 2) + 1 = start + 2 + p + 1 by omega, hnext]
      exact and_congr_left' (by omega)
  | case3 c t hno hline ih =>
    have hfeed := head?_ne_of_not_feed hno
    rw [← mem_tail_startsFrom, startsFrom_lineEnd hline hfeed, List.tail_cons]
    cases p with
    | zero =>
      rw [endsLine_cons_zero, and_iff_left ⟨hline, hfeed⟩]
      exact (mem_startsFrom_self (start + 1)).trans (by simp)
    | succ p =>
      have hnext := ih (start + 1) p
      rw [endsLine_cons_succ, List.length_cons,
        show start + (p + 1) + 1 = start + 1 + p + 1 by omega, hnext]
      exact and_congr_left' (by omega)
  | case4 c t hno hline _ _ _ _ ih | case5 c t hno hline _ ih =>
    have hplain : isLineEnd c = false := by simpa using hline
    rw [← mem_tail_startsFrom, startsFrom_cons hplain, List.tail_cons]
    cases p with
    | zero =>
      rw [endsLine_cons_zero, hplain]
      exact iff_of_false (not_mem_tail_startsFrom (start + 1) t) (by simp)
    | succ p =>
      have hnext := ih (start + 1) p
      rw [endsLine_cons_succ, List.length_cons,
        show start + (p + 1) + 1 = start + 1 + p + 1 by omega, mem_tail_startsFrom, hnext]
      exact and_congr_left' (by omega)

theorem mem_starts_iff (ht : t ≠ []) : (p : Int) ∈ starts t ↔ t.StartsLine p := by
  rw [starts_eq]
  cases p with
  | zero => exact iff_of_true ((mem_startsFrom_self 0).2 (List.length_pos_iff.2 ht)) .first
  | succ p =>
    rw [startsLine_succ_iff, ← mem_startsFrom_iff 0, Nat.zero_add]

theorem nonneg_start {line : Line} (h : line ∈ all t) : 0 ≤ line.span.start :=
  ((row_all t).inside _ (List.mem_map_of_mem h)).1

end Line

namespace Text

/-- The line counts the line starts behind the first up to an offset, and the column counts on from the
last of them. -/
structure Locates (t : Text) (offset : Nat) (place : Int × Int) : Prop where
  line : place.1 = 1 + ((Finset.Ioc 0 offset).filter t.StartsLine).card
  column : ∃ start, IsGreatest {p | t.StartsLine p ∧ p ≤ offset} start ∧
    place.2 = offset - start + 1

theorem card_startsLine {lines : List Line} (hlines : lines.Pairwise (·.span.start < ·.span.start))
    (hnonneg : ∀ line ∈ lines, 0 ≤ line.span.start)
    (hmem : ∀ p : Nat, t.StartsLine p ∧ p ≤ offset ↔ (p : Int) ∈ lines.map (·.span.start)) :
    ((Finset.Ioc 0 offset).filter t.StartsLine).card + 1 = lines.length := by
  have hinj : Function.Injective fun p : Nat => (p : Int) := fun _ _ => Int.ofNat.inj
  have hstarts : ((Finset.Icc 0 offset).filter t.StartsLine).image (fun p : Nat => (p : Int)) =
      (lines.map (·.span.start)).toFinset := by
    ext x
    rw [List.mem_toFinset, Finset.mem_image]
    constructor
    · rintro ⟨p, hp, rfl⟩
      rw [Finset.mem_filter, Finset.mem_Icc] at hp
      exact (hmem p).1 ⟨hp.2, hp.1.2⟩
    · intro hx
      obtain ⟨line, hline, rfl⟩ := List.mem_map.1 hx
      obtain ⟨p, hp⟩ := Int.eq_ofNat_of_zero_le (hnonneg line hline)
      rw [hp] at hx ⊢
      obtain ⟨hstarts, hle⟩ := (hmem p).2 hx
      exact ⟨p, Finset.mem_filter.2 ⟨Finset.mem_Icc.2 ⟨Nat.zero_le p, hle⟩, hstarts⟩, rfl⟩
  have hnodup : (lines.map (·.span.start)).Nodup := List.pairwise_map.2 (hlines.imp Int.ne_of_lt)
  have hzero : 0 ∉ (Finset.Ioc 0 offset).filter t.StartsLine := by simp
  calc ((Finset.Ioc 0 offset).filter t.StartsLine).card + 1
      = ((Finset.Icc 0 offset).filter t.StartsLine).card := by
        rw [← Finset.Ioc_insert_left (Nat.zero_le offset), Finset.filter_insert, if_pos .first,
          Finset.card_insert_of_notMem hzero]
    _ = (lines.map (·.span.start)).toFinset.card := by
        rw [← hstarts, Finset.card_image_of_injective _ hinj]
    _ = lines.length := by rw [List.toFinset_card_of_nodup hnodup, List.length_map]

theorem IsAt.locates {place : Int × Int} (ht : t ≠ []) (h : t.IsAt offset place) :
    t.Locates offset place := by
  obtain ⟨before, line, after, hall, rfl, hle, hnext⟩ := h
  have hsplit : Line.all t = (before ++ [line]) ++ after := by simp [hall]
  have hpassed : (before ++ [line]).Pairwise (·.span.start < ·.span.start) :=
    (List.pairwise_append.1 (hsplit ▸ Line.pairwise_start t)).1
  have hlast : ∀ passed ∈ before ++ [line], passed.span.start ≤ line.span.start := by
    obtain ⟨-, -, hbefore⟩ := List.pairwise_append.1 hpassed
    refine List.forall_mem_append.2 ⟨fun l hl => ?_, List.forall_mem_singleton.2 (Int.le_refl _)⟩
    exact Int.le_of_lt (hbefore l hl line List.mem_cons_self)
  have hnonneg : ∀ passed ∈ before ++ [line], 0 ≤ passed.span.start :=
    fun l hl => Line.nonneg_start (hsplit ▸ List.mem_append_left after hl)
  have hmem : ∀ p : Nat,
      t.StartsLine p ∧ p ≤ offset ↔ (p : Int) ∈ (before ++ [line]).map (·.span.start) := by
    intro p
    rw [← Line.mem_starts_iff ht, Line.starts, hsplit, List.map_append, List.mem_append]
    constructor
    · rintro ⟨hp | hp, hple⟩
      · exact hp
      · obtain ⟨next, hmem, heq⟩ := List.mem_map.1 hp
        have := hnext next hmem
        omega
    · intro hp
      obtain ⟨passed, hmem, heq⟩ := List.mem_map.1 hp
      have := hlast passed hmem
      exact ⟨.inl hp, by omega⟩
  refine ⟨?_, ?_⟩
  · have hcard := card_startsLine hpassed hnonneg hmem
    rw [List.length_append, List.length_singleton, Nat.succ.injEq] at hcard
    rw [hcard, Int.add_comm]
  · obtain ⟨start, hstart⟩ := Int.eq_ofNat_of_zero_le (hnonneg line (by simp))
    refine ⟨start, ⟨(hmem start).2 ?_, ?_⟩, by rw [hstart]⟩
    · exact hstart ▸ List.mem_map_of_mem (by simp)
    · rintro p hp
      obtain ⟨passed, hpassed, heq⟩ := List.mem_map.1 ((hmem p).1 hp)
      have := hlast passed hpassed
      omega

theorem locates_nil (offset : Nat) : Locates [] offset (lineCol [] offset) := by
  have hstarts : ∀ p, StartsLine [] p ↔ p = 0 := by
    rintro (_ | p)
    · exact iff_of_true .first rfl
    · rw [startsLine_succ_iff]
      simp
  refine ⟨?_, 0, ⟨⟨.first, Nat.zero_le _⟩, fun p hp => ?_⟩, ?_⟩
  · rw [Finset.filter_false_of_mem]
    · rfl
    · intro p hp
      rw [hstarts, ← ne_eq, Nat.ne_zero_iff_zero_lt]
      exact (Finset.mem_Ioc.1 hp).1
  · rw [(hstarts p).1 hp.1]
  · simp [lineCol, Line.starts, Line.all, Line.cut, Line.place, Line.coordinates]

theorem locates_lineCol (t : Text) (offset : Nat) : t.Locates offset (t.lineCol offset) := by
  obtain rfl | ht := eq_or_ne t []
  · exact locates_nil offset
  · exact (isAt_lineCol ht (Int.natCast_nonneg offset)).locates ht

theorem strictMono_lineCol (t : Text) : StrictMono fun offset : Nat => toLex (t.lineCol offset) := by
  intro offset offset' hlt
  rw [Prod.Lex.toLex_lt_toLex]
  obtain rfl | ht := eq_or_ne t []
  · exact .inr ⟨rfl, by simpa [lineCol, Line.starts, Line.all, Line.cut, Line.place, Line.coordinates]⟩
  · exact (isAt_lineCol ht (Int.natCast_nonneg offset)).lt_of_lt
      (isAt_lineCol ht (Int.natCast_nonneg offset')) (by omega)

end Text

namespace LineCache

/-- Whatever was asked of the index before, and whatever the text is called, an offset has the line and
the column that the line starts of the text give it. They tell the offset, and later offsets have
later ones. -/
theorem lineCol_run_exact (calls : List Call) (name t : Text) :
    let place (offset : Nat) := ((empty.run calls).2.lineCol name t offset).1
    (∀ offset, t.Locates offset (place offset)) ∧ Function.Injective place ∧
      StrictMono fun offset => toLex (place offset) := by
  have hplace : (fun offset : Nat => ((empty.run calls).2.lineCol name t offset).1) =
      fun offset : Nat => t.lineCol offset :=
    funext fun offset => lineCol_run calls name t offset
  intro place
  rw [show place = _ from hplace]
  refine ⟨t.locates_lineCol, ?_, t.strictMono_lineCol⟩
  exact fun _ _ heq => t.strictMono_lineCol.injective (congrArg toLex heq)

end LineCache

end GrammarCheck
