import GrammarCheck.Text.Basic

namespace GrammarCheck.Span

variable {α : Type} {r s : Span} {spans : List Span} {t : List α} {lo hi : Int}

structure Proper (size : Nat) (s : Span) : Prop where
  nonneg : 0 ≤ s.start
  lt : s.start < s.stop
  le : s.stop ≤ size

structure Covers (r s : Span) : Prop where
  start : r.start ≤ s.start
  stop : s.stop ≤ r.stop

theorem Covers.refl (s : Span) : s.Covers s := ⟨Int.le_refl _, Int.le_refl _⟩

theorem Covers.trans {u : Span} (h : r.Covers s) (h' : s.Covers u) : r.Covers u :=
  ⟨Int.le_trans h.start h'.start, Int.le_trans h'.stop h.stop⟩

theorem stop_shift (s : Span) (offset : Int) : (s.shift offset).stop = s.stop + offset := by
  simp only [stop, shift]
  omega

theorem shift_zero (s : Span) : s.shift 0 = s := by
  rw [shift, Int.add_zero]

theorem stop_between (start stop : Nat) : (between start stop).stop = stop := by
  simp only [between, Span.stop]
  omega

theorem shift_between (start stop offset : Nat) :
    (between start stop).shift offset = between (start + offset) (stop + offset) := by
  simp only [between, Span.shift, mk.injEq]
  omega

theorem stop_mk_sub (start stop : Int) : (⟨start, stop - start⟩ : Span).stop = stop := by
  simp only [Span.stop]
  omega

theorem mk_stop_sub (s : Span) : (⟨s.start, s.stop - s.start⟩ : Span) = s := by
  cases s
  simp only [stop, mk.injEq, true_and]
  omega

theorem clamp_ofNat (size n : Nat) : clamp size n = min n size := by
  rw [clamp, if_neg (by omega), Int.toNat_natCast]

theorem slice_between_append (u v w : List α) :
    (between u.length (u.length + v.length)).slice (u ++ (v ++ w)) = v := by
  have hstart : (between u.length (u.length + v.length)).start = u.length := rfl
  rw [slice, stop_between, hstart, clamp_ofNat, clamp_ofNat, ← List.append_assoc,
    Nat.min_eq_left (by simp), Nat.min_eq_left (by simp), ← List.length_append,
    List.take_left, List.drop_left]

namespace Proper

theorem of_ends {size : Nat} {start stop : Int} (hnonneg : 0 ≤ start) (hlt : start < stop)
    (hle : stop ≤ size) : (⟨start, stop - start⟩ : Span).Proper size :=
  ⟨hnonneg, by rwa [stop_mk_sub], by rwa [stop_mk_sub]⟩

theorem slice_eq (h : s.Proper t.length) :
    s.slice t = (t.take s.stop.toNat).drop s.start.toNat := by
  obtain ⟨start, hstart⟩ := Int.eq_ofNat_of_zero_le h.nonneg
  obtain ⟨stop, hstop⟩ := Int.eq_ofNat_of_zero_le (Int.le_trans h.nonneg (Int.le_of_lt h.lt))
  have hle := h.le
  have hlt := h.lt
  rw [slice, hstart, hstop, clamp_ofNat, clamp_ofNat, Nat.min_eq_left (by omega),
    Nat.min_eq_left (by omega), Int.toNat_natCast, Int.toNat_natCast]

theorem length_slice (h : s.Proper t.length) : ((s.slice t).length : Int) = s.length := by
  have hle := h.le
  have hlt := h.lt
  have hnonneg := h.nonneg
  have hstop : s.stop = s.start + s.length := rfl
  rw [h.slice_eq, List.length_drop, List.length_take]
  omega

theorem shift (hr : r.Proper t.length) (hs : s.Proper (r.slice t).length) :
    (s.shift r.start).Proper t.length ∧ r.Covers (s.shift r.start) := by
  have hlength := hr.length_slice
  have hstop : r.stop = r.start + r.length := rfl
  have hstart : (s.shift r.start).start = s.start + r.start := rfl
  obtain ⟨hnonneg, hlt, hle⟩ := hs
  obtain ⟨hnonneg', hlt', hle'⟩ := hr
  refine ⟨⟨?_, ?_, ?_⟩, ?_, ?_⟩
  all_goals simp only [stop_shift, hstart]; omega

theorem slice_slice (hr : r.Proper t.length) (hs : s.Proper (r.slice t).length) :
    s.slice (r.slice t) = (s.shift r.start).slice t := by
  have hshift := (hr.shift hs).1
  have hlength := hr.length_slice
  have hend : r.stop = r.start + r.length := rfl
  obtain ⟨hnonneg, hlt, hle⟩ := hs
  have hstart : (s.shift r.start).start.toNat = r.start.toNat + s.start.toNat := by
    have hshiftStart : (s.shift r.start).start = s.start + r.start := rfl
    have hnonneg' := hr.nonneg
    omega
  have hstop : (s.shift r.start).stop.toNat = min (r.start.toNat + s.stop.toNat) r.stop.toNat := by
    have hshiftStop := stop_shift s r.start
    have hnonneg' := hr.nonneg
    omega
  rw [slice_eq ⟨hnonneg, hlt, hle⟩, hshift.slice_eq, hr.slice_eq, List.take_drop, List.drop_drop,
    List.take_take, hstart, hstop]

end Proper

/-- Ranges between two offsets, each with a gap behind the one before it. -/
structure Row (lo hi : Int) (spans : List Span) : Prop where
  ordered : spans.Pairwise (·.stop < ·.start)
  inside : ∀ s ∈ spans, lo ≤ s.start ∧ s.start ≤ s.stop ∧ s.stop ≤ hi

namespace Row

theorem nil (lo hi : Int) : Row lo hi [] := ⟨.nil, nofun⟩

theorem mono {lo' hi' : Int} (h : Row lo hi spans) (hlo : lo' ≤ lo) (hhi : hi ≤ hi') :
    Row lo' hi' spans := by
  refine ⟨h.ordered, ?_⟩
  intro s hs
  obtain ⟨hstart, hle, hstop⟩ := h.inside s hs
  exact ⟨Int.le_trans hlo hstart, hle, Int.le_trans hstop hhi⟩

theorem sublist {spans' : List Span} (h : Row lo hi spans) (hsub : spans'.Sublist spans) :
    Row lo hi spans' :=
  ⟨h.ordered.sublist hsub, fun s hs => h.inside s (hsub.mem hs)⟩

theorem pairwise_start (h : Row lo hi spans) : spans.Pairwise (·.start < ·.start) :=
  h.ordered.imp_of_mem fun hr _ hlt => Int.lt_of_le_of_lt (h.inside _ hr).2.1 hlt

theorem cons_iff : Row lo hi (s :: spans) ↔
    lo ≤ s.start ∧ s.start ≤ s.stop ∧ s.stop ≤ hi ∧ Row (s.stop + 1) hi spans := by
  constructor
  · intro h
    obtain ⟨hstart, hle, hstop⟩ := h.inside s List.mem_cons_self
    obtain ⟨hbehind, hordered⟩ := List.pairwise_cons.1 h.ordered
    refine ⟨hstart, hle, hstop, hordered, ?_⟩
    intro u hu
    obtain ⟨-, hle', hstop'⟩ := h.inside u (List.mem_cons_of_mem s hu)
    exact ⟨Int.add_one_le_of_lt (hbehind u hu), hle', hstop'⟩
  · rintro ⟨hstart, hle, hstop, h⟩
    refine ⟨List.pairwise_cons.2 ⟨?_, h.ordered⟩, ?_⟩
    · intro u hu
      exact Int.lt_of_add_one_le (h.inside u hu).1
    · intro u hu
      obtain rfl | hu := List.mem_cons.1 hu
      · exact ⟨hstart, hle, hstop⟩
      · obtain ⟨hstart', hle', hstop'⟩ := h.inside u hu
        exact ⟨by omega, hle', hstop'⟩

theorem tail (h : Row lo hi (s :: spans)) : Row lo hi spans :=
  h.sublist (List.sublist_cons_self s spans)

theorem cons_of_tail {spans' : List Span} (h : Row lo hi (s :: spans))
    (htail : ∀ {lo}, Row lo hi spans → Row lo hi spans') : Row lo hi (s :: spans') := by
  obtain ⟨hstart, hle, hstop, hrest⟩ := cons_iff.1 h
  exact cons_iff.2 ⟨hstart, hle, hstop, htail hrest⟩

theorem append {spans' : List Span} {mid : Int} (h : Row lo mid spans)
    (h' : Row (mid + 1) hi spans') (hlo : lo ≤ mid + 1) (hhi : mid ≤ hi) :
    Row lo hi (spans ++ spans') := by
  refine ⟨List.pairwise_append.2 ⟨h.ordered, h'.ordered, ?_⟩, ?_⟩
  · intro s hs u hu
    exact Int.lt_of_le_of_lt (h.inside s hs).2.2 (Int.lt_of_add_one_le (h'.inside u hu).1)
  · intro s hs
    obtain hs | hs := List.mem_append.1 hs
    · exact (h.mono (Int.le_refl lo) hhi).inside s hs
    · exact (h'.mono hlo (Int.le_refl hi)).inside s hs

theorem start_lt_stop (h : Row lo hi (r :: s :: spans)) : r.start < s.stop := by
  obtain ⟨-, hle, -, h⟩ := cons_iff.1 h
  obtain ⟨hstart, hle', -, -⟩ := cons_iff.1 h
  omega

theorem merge (h : Row lo hi (r :: s :: spans)) :
    Row lo hi (⟨r.start, s.stop - r.start⟩ :: spans) := by
  obtain ⟨hstart, hle, -, h⟩ := cons_iff.1 h
  obtain ⟨hstart', hle', hstop', h⟩ := cons_iff.1 h
  refine cons_iff.2 ⟨hstart, ?_, ?_, ?_⟩
  · rw [stop_mk_sub]
    dsimp only
    omega
  · rwa [stop_mk_sub]
  · rwa [stop_mk_sub]

theorem covers (h : Row lo hi (s :: spans)) :
    ∀ r ∈ s :: spans, Covers ⟨s.start, (spans.getLastD s).stop - s.start⟩ r := by
  induction spans generalizing s lo with
  | nil =>
    rw [List.getLastD_nil, mk_stop_sub]
    exact List.forall_mem_singleton.2 (.refl s)
  | cons next spans ih =>
    obtain ⟨-, hle, -, h⟩ := cons_iff.1 h
    obtain ⟨hnext, hle', -, -⟩ := cons_iff.1 h
    have hcovers := ih h
    have hstart : s.start ≤ next.start := by omega
    have hlast := (hcovers next List.mem_cons_self).stop
    rw [stop_mk_sub] at hlast
    rw [List.getLastD_cons]
    refine List.forall_mem_cons.2 ⟨⟨Int.le_refl _, ?_⟩, fun r hr => ?_⟩
    · rw [stop_mk_sub]
      omega
    · have hr := hcovers r hr
      refine ⟨Int.le_trans hstart hr.start, ?_⟩
      rw [stop_mk_sub]
      simpa only [stop_mk_sub] using hr.stop

theorem stop_lt_start (h : Row lo hi spans) {i j : Nat} (hij : i < j) (hleft : i < spans.length)
    (hright : j < spans.length) : spans[i].stop < spans[j].start :=
  List.pairwise_iff_getElem.1 h.ordered i j hleft hright hij

end Row

end GrammarCheck.Span
