import GrammarCheck.Text.Units

namespace GrammarCheck

namespace Line

variable {c : Char} {t : Text}

def startsFrom (offset : Nat) (t : Text) : List Int := (place offset (cut t)).map (·.span.start)

theorem starts_eq (t : Text) : starts t = startsFrom 0 t := rfl

theorem head?_ne_of_not_feed (h : ∀ rest, c = '\r' → t = '\n' :: rest → False) (hc : c = '\r') :
    t.head? ≠ some '\n' := by
  intro hhead
  obtain ⟨rest, rfl⟩ := List.head?_eq_some_iff.1 hhead
  exact h rest hc rfl

theorem startsFrom_return_feed (offset : Nat) (t : Text) :
    startsFrom offset ('\r' :: '\n' :: t) = (offset : Int) :: startsFrom (offset + 2) t := rfl

theorem cut_lineEnd (hc : isLineEnd c) (hfeed : c = '\r' → t.head? ≠ some '\n') :
    cut (c :: t) = ([], [c]) :: cut t := by
  rw [cut, if_pos hc]
  rintro rest rfl rfl
  exact hfeed rfl rfl

theorem cut_singleton (hc : isLineEnd c = false) (h : cut t = []) : cut (c :: t) = [([c], [])] := by
  rw [cut, if_neg (by simp [hc]), h]
  rintro rest rfl
  cases hc

theorem cut_cons {line : Text × Text} {lines : List (Text × Text)} (hc : isLineEnd c = false)
    (h : cut t = line :: lines) : cut (c :: t) = (c :: line.1, line.2) :: lines := by
  rw [cut, if_neg (by simp [hc]), h]
  rintro rest rfl
  cases hc

theorem startsFrom_lineEnd (hc : isLineEnd c) (hfeed : c = '\r' → t.head? ≠ some '\n')
    (offset : Nat) : startsFrom offset (c :: t) = (offset : Int) :: startsFrom (offset + 1) t := by
  rw [startsFrom, cut_lineEnd hc hfeed]
  rfl

theorem startsFrom_cons (hc : isLineEnd c = false) (offset : Nat) (t : Text) :
    startsFrom offset (c :: t) = (offset : Int) :: (startsFrom (offset + 1) t).tail := by
  unfold startsFrom
  cases hmore : cut t with
  | nil =>
    rw [cut_singleton hc hmore]
    rfl
  | cons line lines =>
    have hplace : offset + (c :: line.1).length = offset + 1 + line.1.length := by
      rw [List.length_cons]
      omega
    rw [cut_cons hc hmore]
    simp only [place, List.map_cons, List.tail_cons, hplace]
    rfl

theorem exists_startsFrom (ht : t ≠ []) (offset : Nat) :
    ∃ rest, startsFrom offset t = (offset : Int) :: rest := by
  fun_cases cut t with
  | case1 => contradiction
  | case2 t => exact ⟨_, startsFrom_return_feed offset t⟩
  | case3 c t hno hline => exact ⟨_, startsFrom_lineEnd hline (head?_ne_of_not_feed hno) offset⟩
  | case4 c t hno hline | case5 c t hno hline =>
    exact ⟨_, startsFrom_cons (by simpa using hline) offset t⟩

theorem le_of_mem_place {offset : Nat} {lines : List (Text × Text)} {line : Line}
    (h : line ∈ place offset lines) : (offset : Int) ≤ line.span.start := by
  fun_induction place offset lines with
  | case1 => cases h
  | case2 offset text terminator lines ih =>
    obtain rfl | h := List.mem_cons.1 h
    · exact Int.le_refl _
    · have := ih h
      omega

theorem le_of_mem_startsFrom {offset : Nat} {start : Int} (h : start ∈ startsFrom offset t) :
    (offset : Int) ≤ start := by
  obtain ⟨line, hline, rfl⟩ := List.mem_map.1 h
  exact le_of_mem_place hline

theorem lt_of_mem_tail {offset : Nat} {start : Int} (h : start ∈ (startsFrom offset t).tail) :
    (offset : Int) < start := by
  fun_cases cut t with
  | case1 => cases h
  | case2 t =>
    rw [startsFrom_return_feed, List.tail_cons] at h
    have := le_of_mem_startsFrom h
    omega
  | case3 c t hno hline =>
    rw [startsFrom_lineEnd hline (head?_ne_of_not_feed hno), List.tail_cons] at h
    have := le_of_mem_startsFrom h
    omega
  | case4 c t hno hline | case5 c t hno hline =>
    rw [startsFrom_cons (by simpa using hline), List.tail_cons] at h
    have := le_of_mem_startsFrom (List.mem_of_mem_tail h)
    omega

end Line

end GrammarCheck
