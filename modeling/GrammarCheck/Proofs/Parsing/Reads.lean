import GrammarCheck.Grammar.Parsing.Expr

/-!
Reading of expressions as a relation: what each part of the parser reads from the tokens ahead, and
what it leaves. The parser succeeds exactly where the relation holds, so facts about parsed
expressions are proved by induction on it.
-/

namespace GrammarCheck

namespace Parsed

variable {α β : Type} {n : Nat}

theorem toExcept_eq_ok_iff {answer : Parsed α n} {a : α} {rest : List Token} :
    answer.toExcept = .ok (a, rest) ↔ ∃ h, answer = .done a rest h := by
  cases answer with
  | done a rest h =>
    simp only [toExcept, Except.ok.injEq, Prod.mk.injEq, done.injEq, exists_prop]
    constructor
    · rintro ⟨rfl, rfl⟩
      exact ⟨h, rfl, rfl⟩
    · rintro ⟨_, rfl, rfl⟩
      exact ⟨rfl, rfl⟩
  | failed failure => simp [toExcept]

theorem toExcept_map_eq_ok_iff {f : α → β} {answer : Parsed α n} {b : β} {rest : List Token} :
    (answer.map f).toExcept = .ok (b, rest) ↔
      ∃ a, answer.toExcept = .ok (a, rest) ∧ f a = b := by
  cases answer with
  | done a rest h => simp [map, toExcept, and_comm, and_left_comm]
  | failed failure => simp [map, toExcept]

end Parsed

namespace Parsing

/-- A part of an expression. Some parts go on from what is already read. -/
inductive Part
  | choice
  | alternatives (current : Expr)
  | sequence
  | items (current : Expr)
  | unary
  | repetitions (current : Expr)
  | atom

/-- `Reads part ts es rest`: from `ts` on, the part is `es`, and `rest` is left. Parts that are one
expression read a list of one. -/
inductive Reads : Part → List Token → List Expr → List Token → Prop
  | choice {ts mid rest : List Token} {e : Expr} {es : List Expr}
      (first : Reads .sequence (skipBar ts) [e] mid)
      (more : Reads (.alternatives (e.attach (barTrivia ts))) mid es rest) :
    Reads .choice ts [.join .choice es] rest
  | alternative {t : Token} {ts mid rest : List Token} {c e : Expr} {es : List Expr}
      (bar : t.kind = .bar) (head : Reads .sequence (skipTrivia ts) [e] mid)
      (more : Reads (.alternatives e) mid es rest) :
    Reads (.alternatives c) (t :: ts) (c.attach (triviaAhead ts).withoutSpace :: es) rest
  | lastAlternative {ts : List Token} {c : Expr} (noBar : ∀ t ∈ ts.head?, t.kind ≠ .bar) :
    Reads (.alternatives c) ts [c] ts
  | sequence {ts mid rest : List Token} {e : Expr} {es : List Expr}
      (first : Reads .unary ts [e] mid) (more : Reads (.items e) mid es rest) :
    Reads .sequence ts [.join .sequence es] rest
  | item {ts mid rest : List Token} {c e : Expr} {es : List Expr} (goesOn : endsSequence ts = false)
      (head : Reads .unary ts [e] mid) (more : Reads (.items e) mid es rest) :
    Reads (.items c) ts (c :: es) rest
  | lastItem {ts : List Token} {c : Expr} (ends : endsSequence ts = true) :
    Reads (.items c) ts [c] ts
  | unary {ts mid rest : List Token} {e : Expr} {es : List Expr}
      (first : Reads .atom ts [e] mid) (more : Reads (.repetitions e) mid es rest) :
    Reads .unary ts es rest
  | mark {t : Token} {ts rest : List Token} {c : Expr} {es : List Expr} {r : Repetition}
      (mark : Repetition.ofKind? t.kind = some r)
      (more : Reads (.repetitions (.repeated r c [] (triviaAhead ts))) (skipTrivia ts) es rest) :
    Reads (.repetitions c) (t :: ts) es rest
  | noMark {ts : List Token} {c : Expr}
      (noMark : ∀ t ∈ ts.head?, Repetition.ofKind? t.kind = none) :
    Reads (.repetitions c) ts [c] ts
  | group {t close : Token} {ts rest : List Token} {e : Expr} (opening : t.kind = .openParen)
      (body : Reads .choice (skipTrivia ts) [e] (close :: rest))
      (closing : close.kind = .closeParen) :
    Reads .atom (t :: ts) [(e.attach (triviaAhead ts).ifCommented).attach (triviaAhead rest)]
      (skipTrivia rest)
  | terminal {t : Token} {ts : List Token} {l : Leaf} (kind : t.kind = .terminal)
      (legal : Leaf.ofTerminal t.value = .ok l) :
    Reads .atom (t :: ts) [.leaf l (triviaAhead ts)] (skipTrivia ts)
  | reference {t : Token} {ts : List Token} (kind : t.kind = .word) :
    Reads .atom (t :: ts) [.leaf (.reference t.value) (triviaAhead ts)] (skipTrivia ts)

variable {ts rest : List Token} {c e : Expr} {es : List Expr} {l : Leaf}

theorem repetitions_reads {bound : Nat} {h : ts.length < bound}
    (hdone : (repetitions c ts bound h).toExcept = .ok (e, rest)) :
    Reads (.repetitions c) ts [e] rest := by
  fun_induction repetitions c ts bound h with
  | case1 c h =>
    obtain ⟨rfl, rfl⟩ : c = e ∧ [] = rest := by simpa [Parsed.toExcept] using hdone
    exact .noMark (by simp)
  | case2 c t ts h r hr h' ih => exact .mark hr (ih hdone)
  | case3 c t ts h hr h' =>
    obtain ⟨rfl, rfl⟩ : c = e ∧ t :: ts = rest := by simpa [Parsed.toExcept] using hdone
    exact .noMark (by simp [hr])

theorem leaf_reads {bound : Nat} {h : ts.length < bound}
    (hdone : (leaf l ts bound h).toExcept = .ok (e, rest)) :
    e = .leaf l (triviaAhead ts) ∧ rest = skipTrivia ts := by
  simp only [leaf, Parsed.toExcept, Except.ok.injEq, Prod.mk.injEq] at hdone
  exact ⟨hdone.1.symm, hdone.2.symm⟩

theorem closeGroup_eq_ok_iff {leading : Trivia} {bound : Nat} {h : ts.length < bound} :
    (closeGroup leading c ts bound h).toExcept = .ok (e, rest) ↔
      ∃ close after, ts = close :: after ∧ close.kind = .closeParen ∧
        e = (c.attach leading.ifCommented).attach (triviaAhead after) ∧ rest = skipTrivia after := by
  constructor
  · intro hdone
    unfold closeGroup at hdone
    split at hdone
    · simp only [Parsed.toExcept, Except.ok.injEq, Prod.mk.injEq] at hdone
      exact ⟨_, _, rfl, rfl, hdone.1.symm, hdone.2.symm⟩
    · simp [Parsed.toExcept] at hdone
  · rintro ⟨⟨kind, value, position⟩, after, rfl, closing, rfl, rfl⟩
    cases closing
    rfl

theorem alternatives_of_bar_eq_ok_iff {t : Token} {bound : Nat} {h : (t :: ts).length < bound}
    (bar : t.kind = .bar) :
    (alternatives c (t :: ts) bound h).toExcept = .ok (es, rest) ↔
      ∃ e mid es', (sequence (skipTrivia ts)).toExcept = .ok (e, mid) ∧
        (∃ h', (alternatives e mid bound h').toExcept = .ok (es', rest)) ∧
        c.attach (triviaAhead ts).withoutSpace :: es' = es := by
  obtain ⟨kind, value, position⟩ := t
  cases bar
  rw [alternatives.eq_def]
  dsimp only
  constructor
  · intro hdone
    split at hdone
    · simp [Parsed.toExcept] at hdone
    · rename_i e mid shorter hhead
      obtain ⟨es', hmore, rfl⟩ := Parsed.toExcept_map_eq_ok_iff.1 hdone
      exact ⟨e, mid, es', by rw [hhead]; rfl, ⟨_, hmore⟩, rfl⟩
  · rintro ⟨e, mid, es', hhead, ⟨h', hmore⟩, rfl⟩
    obtain ⟨shorter, hhead⟩ := Parsed.toExcept_eq_ok_iff.1 hhead
    rw [hhead]
    exact Parsed.toExcept_map_eq_ok_iff.2 ⟨es', hmore, rfl⟩

theorem alternatives_of_noBar {bound : Nat} {h : ts.length < bound}
    (noBar : ∀ t ∈ ts.head?, t.kind ≠ .bar) : alternatives c ts bound h = .done [c] ts h := by
  rw [alternatives.eq_def]
  split
  · exact absurd rfl (noBar _ rfl)
  · rfl

theorem atom_of_openParen_eq_ok_iff {t : Token} (opening : t.kind = .openParen) :
    (atom (t :: ts)).toExcept = .ok (e, rest) ↔
      ∃ body close after, (choice (skipTrivia ts)).toExcept = .ok (body, close :: after) ∧
        close.kind = .closeParen ∧
        e = (body.attach (triviaAhead ts).ifCommented).attach (triviaAhead after) ∧
        rest = skipTrivia after := by
  obtain ⟨kind, value, position⟩ := t
  cases opening
  rw [atom.eq_def]
  dsimp only
  constructor
  · intro hdone
    split at hdone
    · simp [Parsed.toExcept] at hdone
    · rename_i body mid h hbody
      obtain ⟨close, after, rfl, closing, rfl, rfl⟩ := closeGroup_eq_ok_iff.1 hdone
      exact ⟨body, close, after, by rw [hbody]; rfl, closing, rfl, rfl⟩
  · rintro ⟨body, close, after, hbody, closing, rfl, rfl⟩
    obtain ⟨h, hbody⟩ := Parsed.toExcept_eq_ok_iff.1 hbody
    rw [hbody]
    exact closeGroup_eq_ok_iff.2 ⟨close, after, rfl, closing, rfl, rfl⟩

theorem atom_of_terminal {t : Token} (kind : t.kind = .terminal)
    (legal : Leaf.ofTerminal t.value = .ok l) :
    atom (t :: ts) = leaf l ts (ts.length + 1) (Nat.lt_succ_self _) := by
  obtain ⟨_, value, position⟩ := t
  cases kind
  rw [atom, show Leaf.ofTerminal value = .ok l from legal]

theorem atom_of_word {t : Token} (kind : t.kind = .word) :
    atom (t :: ts) = leaf (.reference t.value) ts (ts.length + 1) (Nat.lt_succ_self _) := by
  obtain ⟨_, value, position⟩ := t
  cases kind
  rw [atom]

theorem atom_cases {t : Token} (hdone : (atom (t :: ts)).toExcept = .ok (e, rest)) :
    t.kind = .openParen ∨ (t.kind = .terminal ∧ ∃ l, Leaf.ofTerminal t.value = .ok l) ∨
      t.kind = .word := by
  generalize hts : t :: ts = us at hdone
  rw [atom.eq_def] at hdone
  split at hdone
  · cases hts
    exact .inl rfl
  · split at hdone
    · simp [Parsed.toExcept] at hdone
    · rename_i l hlegal
      cases hts
      exact .inr (.inl ⟨rfl, l, hlegal⟩)
  · cases hts
    exact .inr (.inr rfl)
  · simp [Parsed.toExcept] at hdone
  · simp [Parsed.toExcept] at hdone

mutual

theorem choice_reads (ts : List Token) {e : Expr} {rest : List Token}
    (hdone : (choice ts).toExcept = .ok (e, rest)) : Reads .choice ts [e] rest := by
  have := length_skipBar_le ts
  rw [choice] at hdone
  split at hdone
  · simp [Parsed.toExcept] at hdone
  · rename_i first mid h hfirst
    obtain ⟨es, hmore, rfl⟩ := Parsed.toExcept_map_eq_ok_iff.1 hdone
    exact .choice (sequence_reads (skipBar ts) (by rw [hfirst]; rfl))
      (alternatives_reads mid _ _ _ _ _ hmore)
termination_by 6 * ts.length + 5

theorem alternatives_reads : (ts : List Token) → (c : Expr) → (bound : Nat) →
    (h : ts.length < bound) → (es : List Expr) → (rest : List Token) →
    (alternatives c ts bound h).toExcept = .ok (es, rest) → Reads (.alternatives c) ts es rest
  | [], c, bound, h, es, rest, hdone => by
    rw [alternatives_of_noBar (by simp)] at hdone
    obtain ⟨rfl, rfl⟩ : [c] = es ∧ [] = rest := by simpa [Parsed.toExcept] using hdone
    exact .lastAlternative (by simp)
  | t :: ts, c, bound, h, es, rest, hdone => by
    have := length_skipTrivia_le ts
    by_cases hbar : t.kind = .bar
    · obtain ⟨head, mid, es', hhead, ⟨h', hmore⟩, rfl⟩ := (alternatives_of_bar_eq_ok_iff hbar).1 hdone
      obtain ⟨shorter, -⟩ := Parsed.toExcept_eq_ok_iff.1 hhead
      exact .alternative hbar (sequence_reads (skipTrivia ts) hhead)
        (alternatives_reads mid _ _ _ _ _ hmore)
    · have hnoBar : ∀ t' ∈ (t :: ts).head?, t'.kind ≠ .bar := by simpa using hbar
      rw [alternatives_of_noBar hnoBar] at hdone
      obtain ⟨rfl, rfl⟩ : [c] = es ∧ t :: ts = rest := by simpa [Parsed.toExcept] using hdone
      exact .lastAlternative hnoBar
termination_by ts => 6 * ts.length + 4
decreasing_by all_goals simp only [List.length_cons]; omega

theorem sequence_reads (ts : List Token) {e : Expr} {rest : List Token}
    (hdone : (sequence ts).toExcept = .ok (e, rest)) : Reads .sequence ts [e] rest := by
  rw [sequence] at hdone
  split at hdone
  · simp [Parsed.toExcept] at hdone
  · rename_i first mid h hfirst
    obtain ⟨es, hmore, rfl⟩ := Parsed.toExcept_map_eq_ok_iff.1 hdone
    exact .sequence (unary_reads ts (by rw [hfirst]; rfl)) (items_reads mid hmore)
termination_by 6 * ts.length + 3

theorem items_reads (ts : List Token) {c : Expr} {bound : Nat} {h : ts.length < bound}
    {es : List Expr} {rest : List Token}
    (hdone : (items c ts bound h).toExcept = .ok (es, rest)) : Reads (.items c) ts es rest := by
  rw [items] at hdone
  split at hdone
  · rename_i hends
    obtain ⟨rfl, rfl⟩ : [c] = es ∧ ts = rest := by simpa [Parsed.toExcept] using hdone
    exact .lastItem hends
  · rename_i hgoesOn
    split at hdone
    · simp [Parsed.toExcept] at hdone
    · rename_i head mid shorter hhead
      obtain ⟨es, hmore, rfl⟩ := Parsed.toExcept_map_eq_ok_iff.1 hdone
      exact .item (by simpa using hgoesOn) (unary_reads ts (by rw [hhead]; rfl))
        (items_reads mid hmore)
termination_by 6 * ts.length + 2

theorem unary_reads (ts : List Token) {e : Expr} {rest : List Token}
    (hdone : (unary ts).toExcept = .ok (e, rest)) : Reads .unary ts [e] rest := by
  rw [unary] at hdone
  split at hdone
  · simp [Parsed.toExcept] at hdone
  · rename_i first mid h hfirst
    exact .unary (atom_reads ts _ _ (by rw [hfirst]; rfl)) (repetitions_reads hdone)
termination_by 6 * ts.length + 1

theorem atom_reads : (ts : List Token) → (e : Expr) → (rest : List Token) →
    (atom ts).toExcept = .ok (e, rest) → Reads .atom ts [e] rest
  | [], e, rest, hdone => by simp [atom, Parsed.toExcept] at hdone
  | t :: ts, e, rest, hdone => by
    have := length_skipTrivia_le ts
    obtain hopening | ⟨hkind, l, hlegal⟩ | hkind := atom_cases hdone
    · obtain ⟨body, close, after, hbody, hclosing, rfl, rfl⟩ :=
        (atom_of_openParen_eq_ok_iff hopening).1 hdone
      exact .group hopening (choice_reads (skipTrivia ts) hbody) hclosing
    · rw [atom_of_terminal hkind hlegal] at hdone
      obtain ⟨rfl, rfl⟩ := leaf_reads hdone
      exact .terminal hkind hlegal
    · rw [atom_of_word hkind] at hdone
      obtain ⟨rfl, rfl⟩ := leaf_reads hdone
      exact .reference hkind
termination_by ts => 6 * ts.length
decreasing_by simp only [List.length_cons]; omega

end

def Part.Answers (ts : List Token) (es : List Expr) (rest : List Token) : Part → Prop
  | .choice => ∃ e, es = [e] ∧ (Parsing.choice ts).toExcept = .ok (e, rest)
  | .alternatives c => ∀ bound h, (Parsing.alternatives c ts bound h).toExcept = .ok (es, rest)
  | .sequence => ∃ e, es = [e] ∧ (Parsing.sequence ts).toExcept = .ok (e, rest)
  | .items c => ∀ bound h, (Parsing.items c ts bound h).toExcept = .ok (es, rest)
  | .unary => ∃ e, es = [e] ∧ (Parsing.unary ts).toExcept = .ok (e, rest)
  | .repetitions c =>
    ∃ e, es = [e] ∧ ∀ bound h, (Parsing.repetitions c ts bound h).toExcept = .ok (e, rest)
  | .atom => ∃ e, es = [e] ∧ (Parsing.atom ts).toExcept = .ok (e, rest)

theorem Reads.answers {part : Part} (h : Reads part ts es rest) : part.Answers ts es rest := by
  induction h with
  | choice _ _ ihFirst ihMore =>
    obtain ⟨e, he, hfirst⟩ := ihFirst
    obtain ⟨h, hfirst⟩ := Parsed.toExcept_eq_ok_iff.1 hfirst
    cases he
    refine ⟨_, rfl, ?_⟩
    rw [Parsing.choice, hfirst]
    exact Parsed.toExcept_map_eq_ok_iff.2 ⟨_, ihMore _ _, rfl⟩
  | @alternative t ts mid rest c e es bar _ _ ihHead ihMore =>
    obtain ⟨e, he, hhead⟩ := ihHead
    cases he
    intro bound hbound
    have hmid : mid.length < bound := by
      obtain ⟨h, -⟩ := Parsed.toExcept_eq_ok_iff.1 hhead
      have := length_skipTrivia_le ts
      simp only [List.length_cons] at hbound
      omega
    exact (alternatives_of_bar_eq_ok_iff bar).2 ⟨_, mid, es, hhead, ⟨hmid, ihMore _ _⟩, rfl⟩
  | lastAlternative noBar =>
    intro bound hbound
    rw [alternatives_of_noBar noBar]
    rfl
  | sequence _ _ ihFirst ihMore =>
    obtain ⟨e, he, hfirst⟩ := ihFirst
    obtain ⟨h, hfirst⟩ := Parsed.toExcept_eq_ok_iff.1 hfirst
    cases he
    refine ⟨_, rfl, ?_⟩
    rw [Parsing.sequence, hfirst]
    exact Parsed.toExcept_map_eq_ok_iff.2 ⟨_, ihMore _ _, rfl⟩
  | item goesOn _ _ ihHead ihMore =>
    obtain ⟨e, he, hhead⟩ := ihHead
    obtain ⟨h, hhead⟩ := Parsed.toExcept_eq_ok_iff.1 hhead
    cases he
    intro bound hbound
    rw [Parsing.items, if_neg (by simp [goesOn]), hhead]
    exact Parsed.toExcept_map_eq_ok_iff.2 ⟨_, ihMore _ _, rfl⟩
  | lastItem ends =>
    intro bound hbound
    rw [Parsing.items, if_pos ends]
    rfl
  | unary _ _ ihFirst ihMore =>
    obtain ⟨e, he, hfirst⟩ := ihFirst
    obtain ⟨h, hfirst⟩ := Parsed.toExcept_eq_ok_iff.1 hfirst
    obtain ⟨e', rfl, hmore⟩ := ihMore
    cases he
    refine ⟨e', rfl, ?_⟩
    rw [Parsing.unary, hfirst]
    exact hmore _ _
  | mark mark _ ih =>
    obtain ⟨e, rfl, hmore⟩ := ih
    refine ⟨e, rfl, fun bound hbound => ?_⟩
    rw [Parsing.repetitions, mark]
    exact hmore _ _
  | @noMark ts c noMark =>
    refine ⟨c, rfl, fun bound hbound => ?_⟩
    cases ts with
    | nil => rw [Parsing.repetitions]; rfl
    | cons t ts => rw [Parsing.repetitions, noMark t rfl]; rfl
  | group opening _ closing ih =>
    obtain ⟨e, he, hbody⟩ := ih
    cases he
    exact ⟨_, rfl, (atom_of_openParen_eq_ok_iff opening).2 ⟨_, _, _, hbody, closing, rfl, rfl⟩⟩
  | terminal kind legal =>
    refine ⟨_, rfl, ?_⟩
    rw [atom_of_terminal kind legal]
    rfl
  | reference kind =>
    refine ⟨_, rfl, ?_⟩
    rw [atom_of_word kind]
    rfl

theorem choice_eq_ok_iff : (choice ts).toExcept = .ok (e, rest) ↔ Reads .choice ts [e] rest := by
  constructor
  · exact choice_reads ts
  · intro h
    obtain ⟨e', he, hdone⟩ := h.answers
    cases he
    exact hdone

end Parsing

end GrammarCheck
