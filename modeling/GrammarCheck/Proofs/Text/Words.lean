import GrammarCheck.Proofs.Text.Units
import Mathlib.Data.List.Nodup

namespace GrammarCheck

open GrammarCheck.Span

namespace Word

variable {c : Char} {t u v pending before after : Text} {offset base n i : Nat} {word : Word}

def shift (word : Word) (offset : Int) : Word := { word with span := word.span.shift offset }

/-- No word goes on from the end of `u` into `v`. -/
def Parted (u v : Text) : Prop :=
  ∀ c ∈ u.getLast?, ∀ d ∈ v.head?, isWordChar c → isWordChar d = false

theorem Parted.of_left (h : ∀ c ∈ u.getLast?, isWordChar c = false) (v : Text) : Parted u v := by
  intro c hc d _ hword
  rw [h c hc] at hword
  cases hword

theorem Parted.of_right (h : ∀ d ∈ v.head?, isWordChar d = false) (u : Text) : Parted u v :=
  fun _ _ d hd _ => h d hd

theorem close_of_ne_nil (h : pending ≠ []) (offset : Nat) :
    scan.close offset pending = [⟨pending.reverse, .between (offset - pending.length) offset⟩] := by
  cases pending with
  | nil => contradiction
  | cons c pending => rfl

theorem close_add (h : pending.length ≤ offset) (n : Nat) :
    scan.close (offset + n) pending = (scan.close offset pending).map (·.shift n) := by
  by_cases hne : pending = []
  · rw [hne]
    rfl
  · rw [close_of_ne_nil hne, close_of_ne_nil hne, List.map_singleton, shift, shift_between,
      Nat.sub_add_comm h]

theorem scan_append_cons (hc : isWordChar c = false) (offset : Nat) (pending u v : Text) :
    scan offset pending (u ++ c :: v) =
      scan offset pending u ++ scan (offset + u.length + 1) [] v := by
  fun_induction scan offset pending u with
  | case1 offset pending =>
    rw [List.nil_append, scan, if_neg (by simp [hc]), List.length_nil, Nat.add_zero]
  | case2 offset pending d u hd ih =>
    rw [List.cons_append, scan, if_pos hd, ih, List.length_cons, Nat.add_right_comm offset]
    rfl
  | case3 offset pending d u hd ih =>
    rw [List.cons_append, scan, if_neg hd, ih, List.length_cons, Nat.add_right_comm offset,
      List.append_assoc]
    rfl

theorem scan_of_word (hu : ∀ c ∈ u, isWordChar c) (offset : Nat) (pending : Text) :
    scan offset pending u = scan.close (offset + u.length) (u.reverse ++ pending) := by
  induction u generalizing offset pending with
  | nil => rfl
  | cons c u ih =>
    obtain ⟨hc, hu⟩ := List.forall_mem_cons.1 hu
    rw [scan, if_pos hc, ih hu, List.length_cons, List.reverse_cons, List.append_assoc,
      List.singleton_append, Nat.add_right_comm, Nat.add_assoc]

theorem scan_add (h : pending.length ≤ offset) (n : Nat) (t : Text) :
    scan (offset + n) pending t = (scan offset pending t).map (·.shift n) := by
  fun_induction scan offset pending t with
  | case1 offset pending => exact close_add h n
  | case2 offset pending c t hc ih =>
    rw [scan, if_pos hc, Nat.add_right_comm, ih (Nat.succ_le_succ h)]
  | case3 offset pending c t hc ih =>
    rw [scan, if_neg hc, Nat.add_right_comm, ih (Nat.zero_le _), close_add h, List.map_append]

theorem all_of_word (hne : u ≠ []) (hu : ∀ c ∈ u, isWordChar c) :
    all u = [⟨u, .between 0 u.length⟩] := by
  have hreverse : u.reverse ≠ [] := mt List.reverse_eq_nil_iff.1 hne
  rw [all, scan_of_word hu, List.append_nil, close_of_ne_nil hreverse, List.reverse_reverse,
    List.length_reverse, Nat.zero_add, Nat.sub_self]

@[simp] theorem shift_zero (word : Word) : word.shift 0 = word := by
  rw [shift, Span.shift_zero]

theorem shift_shift (word : Word) (m n : Int) : (word.shift m).shift n = word.shift (m + n) := by
  simp only [shift, Span.shift, Int.add_assoc]

theorem all_append_cons (hc : isWordChar c = false) (u v : Text) :
    all (u ++ c :: v) = all u ++ (all v).map (·.shift (u.length + 1)) := by
  rw [all, scan_append_cons hc, Nat.add_assoc, scan_add (Nat.zero_le 0)]
  rfl

theorem all_append (h : Parted u v) : all (u ++ v) = all u ++ (all v).map (·.shift u.length) := by
  obtain rfl | ⟨init, c, rfl⟩ := List.eq_nil_or_concat u
  · simp [all, scan, scan.close]
  · rw [List.concat_eq_append] at h ⊢
    cases hc : isWordChar c with
    | false =>
      have hinit := all_append_cons hc init []
      have hall := all_append_cons hc init v
      rw [hinit, List.append_assoc, List.singleton_append, hall, List.length_append]
      simp [all, scan, scan.close]
    | true =>
      cases v with
      | nil => simp [all, scan, scan.close]
      | cons d v =>
        have hd : isWordChar d = false := h c (by simp) d rfl hc
        have htail := all_append_cons hd [] v
        rw [List.nil_append] at htail
        rw [all_append_cons hd, htail]
        simp [all, scan, scan.close, shift_shift, Function.comp_def, Int.add_comm]

theorem words_append (h : Parted u v) : (u ++ v).words = u.words ++ v.words := by
  rw [Text.words, all_append h, List.map_append, List.map_map]
  rfl

theorem words_eq_nil (h : ∀ c ∈ t, isWordChar c = false) : t.words = [] := by
  induction t with
  | nil => rfl
  | cons c t ih =>
    obtain ⟨hc, ht⟩ := List.forall_mem_cons.1 h
    have hparted : Parted [c] t := .of_left (by simpa using hc) t
    have hnone : Text.words [c] = [] := by simp [Text.words, all, scan, scan.close, hc]
    rw [← List.singleton_append, words_append hparted, hnone, ih ht]
    rfl

/-- A word and what stands before and behind it. It is not empty, and it cannot be made longer. -/
structure Stands (t : Text) (word : Word) (before after : Text) : Prop where
  text_eq : t = before ++ (word.text ++ after)
  span_eq : word.span = .between before.length (before.length + word.text.length)
  ne_nil : word.text ≠ []
  isWord : ∀ c ∈ word.text, isWordChar c
  left : ∀ c ∈ before.getLast?, isWordChar c = false
  right : ∀ c ∈ after.head?, isWordChar c = false

theorem Stands.behind (h : Stands v word before after) (hc : isWordChar c = false) (u : Text) :
    Stands (u ++ c :: v) (word.shift (u.length + 1)) (u ++ c :: before) after where
  text_eq := by
    rw [h.text_eq, List.append_assoc]
    rfl
  span_eq := by
    have hshift := shift_between before.length (before.length + word.text.length) (u.length + 1)
    rw [← h.span_eq] at hshift
    refine hshift.trans ?_
    simp only [shift, List.length_append, List.length_cons]
    congr 1 <;> omega
  ne_nil := h.ne_nil
  isWord := h.isWord
  left := by
    intro d hd
    rw [List.getLast?_append_cons, List.getLast?_cons, Option.mem_some_iff] at hd
    subst hd
    cases hlast : before.getLast? with
    | none => exact hc
    | some e => exact h.left e hlast
  right := h.right

theorem Stands.of_word (hu : ∀ c ∈ u, isWordChar c) (h : word ∈ all u)
    (hafter : ∀ c ∈ after.head?, isWordChar c = false) : Stands (u ++ after) word [] after := by
  have hne : u ≠ [] := by
    rintro rfl
    cases h
  rw [all_of_word hne hu, List.mem_singleton] at h
  subst h
  exact ⟨rfl, by simp, hne, hu, nofun, hafter⟩

theorem exists_stands_of_mem_append (hu : ∀ c ∈ u, isWordChar c) (h : word ∈ all (u ++ t)) :
    ∃ before after, Stands (u ++ t) word before after := by
  -- on what is left of the text, `u` being the word begun last
  induction t generalizing u word with
  | nil =>
    rw [List.append_nil] at h
    exact ⟨[], [], .of_word hu h nofun⟩
  | cons c t ih =>
    cases hc : isWordChar c with
    | true =>
      rw [List.append_cons] at h ⊢
      exact ih (List.forall_mem_append.2 ⟨hu, by simpa using hc⟩) h
    | false =>
      rw [all_append_cons hc] at h
      obtain h | h := List.mem_append.1 h
      · exact ⟨[], c :: t, .of_word hu h (by simpa using hc)⟩
      · obtain ⟨word, hword, rfl⟩ := List.mem_map.1 h
        obtain ⟨before, after, hstands⟩ := @ih [] word nofun hword
        exact ⟨u ++ c :: before, after, hstands.behind hc u⟩

theorem exists_stands (h : word ∈ all t) : ∃ before after, Stands t word before after :=
  @exists_stands_of_mem_append t [] word nofun h

namespace Stands

theorem all_left (h : Stands t word before after) :
    all t = all before ++ (all (word.text ++ after)).map (·.shift before.length) := by
  conv_lhs => rw [h.text_eq]
  exact all_append (.of_left h.left _)

theorem all_upTo (h : Stands t word before after) :
    all (before ++ word.text) = all before ++ [word] := by
  have hspan : (Span.between 0 word.text.length).shift before.length = word.span := by
    rw [shift_between, h.span_eq, Nat.zero_add, Nat.add_comm]
  rw [all_append (.of_left h.left _), all_of_word h.ne_nil h.isWord, List.map_singleton, shift, hspan]

theorem all_right (h : Stands t word before after) : ∃ rest,
    all t = all (before ++ word.text) ++ rest := by
  refine ⟨(all after).map (·.shift (before ++ word.text).length), ?_⟩
  conv_lhs => rw [h.text_eq, ← List.append_assoc]
  exact all_append (.of_right h.right _)

end Stands

theorem nodup_all (t : Text) : (all t).Nodup := by
  have h := (row_all t).pairwise_start
  rw [List.pairwise_map] at h
  refine h.imp ?_
  rintro word _ hlt rfl
  exact Int.lt_irrefl _ hlt

theorem exists_stands_of_getElem? (h : (all t)[i]? = some word) :
    ∃ before after, Stands t word before after ∧ all before = (all t).take i ∧
      all (before ++ word.text) = (all t).take (i + 1) ∧
      (all (word.text ++ after)).map (·.shift before.length) = (all t).drop i := by
  obtain ⟨before, after, hstands⟩ := exists_stands (List.mem_of_getElem? h)
  obtain ⟨rest, hrest⟩ := hstands.all_right
  rw [hstands.all_upTo] at hrest
  have hlength : (all before).length = i := by
    have hget : (all t)[(all before).length]? = some word := by simp [hrest]
    have hlt : (all before).length < (all t).length := (List.getElem?_eq_some_iff.1 hget).1
    exact (List.getElem?_inj hlt (nodup_all t)).1 (hget.trans h.symm)
  refine ⟨before, after, hstands, ?_, ?_, ?_⟩
  · rw [hrest, List.append_assoc, List.take_left' hlength]
  · rw [hstands.all_upTo, hrest, List.take_left' (by rw [List.length_append, hlength]; rfl)]
  · rw [hstands.all_left, List.drop_left' hlength]

theorem Stands.start_eq (h : Stands t word before after) : word.span.start = before.length := by
  rw [h.span_eq]
  rfl

theorem Stands.stop_eq (h : Stands t word before after) :
    word.span.stop = (before ++ word.text).length := by
  rw [h.span_eq, stop_between, List.length_append]

theorem all_take_start (h : (all t)[i]? = some word) :
    all (t.take word.span.start.toNat) = (all t).take i := by
  obtain ⟨before, after, hstands, hbefore, -⟩ := exists_stands_of_getElem? h
  have htake : t.take before.length = before := by
    conv_lhs => rw [hstands.text_eq]
    exact List.take_left
  rw [hstands.start_eq, Int.toNat_natCast, htake, hbefore]

theorem all_take_stop (h : (all t)[i]? = some word) :
    all (t.take word.span.stop.toNat) = (all t).take (i + 1) := by
  obtain ⟨before, after, hstands, -, hupTo, -⟩ := exists_stands_of_getElem? h
  have htake : t.take (before ++ word.text).length = before ++ word.text := by
    conv_lhs => rw [hstands.text_eq, ← List.append_assoc]
    exact List.take_left
  rw [hstands.stop_eq, Int.toNat_natCast, htake, hupTo]

theorem all_drop_start (h : (all t)[i]? = some word) :
    (all (t.drop word.span.start.toNat)).map (·.shift word.span.start) = (all t).drop i := by
  obtain ⟨before, after, hstands, -, -, hfrom⟩ := exists_stands_of_getElem? h
  have hdrop : t.drop before.length = word.text ++ after := by
    conv_lhs => rw [hstands.text_eq]
    exact List.drop_left
  rw [hstands.start_eq, Int.toNat_natCast, hdrop, hfrom]

end Word

end GrammarCheck
