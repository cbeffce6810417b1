import GrammarCheck.Proofs.Parsing.ReadsEntries
import GrammarCheck.Proofs.Parsing.Respelling

namespace GrammarCheck

open Parsing

theorem ready_skipBar {ts : List Token} (hts : Ready ts) : Ready (skipBar ts) := by
  unfold skipBar
  split
  · exact ready_skipTrivia _
  · exact hts

theorem Ready.kind_of_head {ts : List Token} (hts : Ready ts) :
    ∀ t ∈ ts.head?, t.kind ≠ .whitespace := by
  intro t ht hkind
  have htrivia := hts t ht
  rw [Token.isTrivia, hkind] at htrivia
  cases htrivia

theorem Parsing.atom_of_badTerminal {t : Token} {ts : List Token} {fault : Fault}
    (kind : t.kind = .terminal) (illegal : Leaf.ofTerminal t.value = .error fault) :
    atom (t :: ts) = .failed ⟨fault, some t, ts⟩ := by
  obtain ⟨_, value, position⟩ := t
  cases kind
  rw [atom, show Leaf.ofTerminal value = .error fault from illegal]

theorem Parsing.atom_of_closeParen {ts : List Token}
    (h : ts.head?.map (·.kind) = some .closeParen) :
    atom ts = .failed (.ahead .unexpectedClose ts) := by
  obtain _ | ⟨⟨kind, value, position⟩, ts⟩ := ts
  · cases h
  · cases h
    rw [atom]

theorem Parsing.atom_of_other {ts : List Token}
    (h : ∀ t ∈ ts.head?,
      t.kind ≠ .openParen ∧ t.kind ≠ .closeParen ∧ t.kind ≠ .terminal ∧ t.kind ≠ .word) :
    atom ts = .failed (.unexpected .expectedAtom ts) := by
  unfold atom
  split
  · exact absurd rfl (h _ rfl).1
  · exact absurd rfl (h _ rfl).2.2.1
  · exact absurd rfl (h _ rfl).2.2.2
  · exact absurd rfl (h _ rfl).2.1
  · rfl

namespace Respelling

variable (ρ : Respelling) {α β : Type} {t : Token} {ts rest : List Token}

structure Alike (f f' : Failure) : Prop where
  message : f'.fault.message = f.fault.message
  culprit : f'.culprit = f.culprit.map ρ.token

/-- Answers on tokens and on respelled ones. A value changes by `g`, and what is left satisfies
`P`. -/
inductive Agrees (g : α → β) (P : List Token → Prop) {m n : Nat} : Parsed α m → Parsed β n → Prop
  | done {a : α} {rest : List Token} {h : rest.length < m} {h' : (ρ.tokens rest).length < n}
      (left : P rest) : Agrees g P (.done a rest h) (.done (g a) (ρ.tokens rest) h')
  | failed {f f' : Failure} (alike : ρ.Alike f f') : Agrees g P (.failed f) (.failed f')

theorem Agrees.map {ρ : Respelling} {γ δ : Type} {g : α → β} {g' : γ → δ} {k : α → γ} {k' : β → δ}
    {P : List Token → Prop} {m n : Nat} {p : Parsed α m} {p' : Parsed β n}
    (h : ρ.Agrees g P p p') (hk : ∀ a, k' (g a) = g' (k a)) :
    ρ.Agrees g' P (p.map k) (p'.map k') := by
  cases h with
  | done left =>
    rw [Parsed.map, Parsed.map, hk]
    exact .done left
  | failed alike => exact .failed alike

theorem exists_token_eq {k : Token.Kind} (h : t.kind = k) :
    ∃ value position, ρ.token t = ⟨k, value, position⟩ := by
  have hkind := ρ.kind_token t
  generalize ρ.token t = u at hkind
  obtain ⟨kind, value, position⟩ := u
  obtain rfl : kind = k := hkind.trans h
  exact ⟨value, position, rfl⟩

theorem describeGot_map (got : Option Token) :
    Fault.describeGot (got.map ρ.token) = Fault.describeGot got := by
  cases got with
  | none => rfl
  | some t =>
    obtain ⟨value, position, htoken⟩ := ρ.exists_token_eq (t := t) rfl
    have hvalue := ρ.value_token t
    rw [htoken] at hvalue
    rw [Option.map_some, htoken]
    obtain ⟨kind, _, _⟩ := t
    cases kind with
    | finish | newline => rfl
    | _ => exact congrArg Text.quoted (hvalue (by simp))

theorem alike_unexpected (fault : Option Token → Fault) {told : Text}
    (hfault : ∀ got, (fault got).message = told ++ Fault.describeGot got)
    (h : ∀ t ∈ ts.head?, t.kind ≠ .whitespace) :
    ρ.Alike (.unexpected fault ts) (.unexpected fault (ρ.tokens ts)) where
  message := by
    change (fault (ρ.tokens ts).head?).message = (fault ts.head?).message
    rw [hfault, hfault, ρ.head?_tokens h, ρ.describeGot_map]
  culprit := ρ.head?_tokens h

theorem alike_ahead (fault : Fault) (h : ∀ t ∈ ts.head?, t.kind ≠ .whitespace) :
    ρ.Alike (.ahead fault ts) (.ahead fault (ρ.tokens ts)) where
  message := rfl
  culprit := ρ.head?_tokens h

theorem skipBar_tokens (hts : Ready ts) :
    skipBar (ρ.tokens ts) = ρ.tokens (skipBar ts) ∧
      barTrivia (ρ.tokens ts) = ρ.trivia (barTrivia ts) := by
  cases ts with
  | nil => exact ⟨rfl, ρ.trivia_empty.symm⟩
  | cons t ts =>
    obtain ⟨value, position, htoken⟩ := ρ.exists_token_eq (t := t) rfl
    rw [ρ.tokens_cons (hts.kind_of_head t rfl), htoken]
    obtain ⟨kind, _, _⟩ := t
    cases kind with
    | bar =>
      refine ⟨ρ.skipTrivia_tokens ts, ?_⟩
      rw [barTrivia, barTrivia, ρ.triviaAhead_tokens, ρ.ifCommented_trivia]
    | _ =>
      refine ⟨Eq.trans ?_ (ρ.tokens_cons (hts.kind_of_head _ rfl) ts).symm, ρ.trivia_empty.symm⟩
      rw [htoken]
      rfl

theorem kind_of_head_tokens (P : Token.Kind → Prop) (hahead : ∀ t ∈ ts.head?, t.kind ≠ .whitespace)
    (h : ∀ t ∈ ts.head?, P t.kind) : ∀ t ∈ (ρ.tokens ts).head?, P t.kind := by
  intro u hu
  rw [ρ.head?_tokens hahead, Option.mem_def, Option.map_eq_some_iff] at hu
  obtain ⟨t, ht, rfl⟩ := hu
  rw [ρ.kind_token]
  exact h t ht

theorem leaf_agrees (l : Leaf) {bound bound' : Nat} (h : ts.length < bound)
    (h' : (ρ.tokens ts).length < bound') :
    ρ.Agrees ρ.expr Ready (leaf l ts bound h) (leaf l (ρ.tokens ts) bound' h') := by
  unfold leaf
  simp only [ρ.triviaAhead_tokens, ρ.skipTrivia_tokens, ← ρ.expr_leaf]
  exact .done (ready_skipTrivia ts)

theorem closeGroup_of_closeParen (leading : Trivia) (c : Expr) (hclose : t.kind = .closeParen)
    {bound : Nat} (h : (t :: ts).length < bound) :
    ∃ h', closeGroup leading c (t :: ts) bound h =
      .done ((c.attach leading.ifCommented).attach (triviaAhead ts)) (skipTrivia ts) h' := by
  obtain ⟨kind, value, position⟩ := t
  cases hclose
  exact ⟨_, rfl⟩

theorem closeGroup_of_other {leading : Trivia} {c : Expr}
    (hother : ∀ t ∈ ts.head?, t.kind ≠ .closeParen) {bound : Nat} (h : ts.length < bound) :
    closeGroup leading c ts bound h = .failed (.unexpected .unclosedGroup ts) := by
  unfold closeGroup
  split
  · exact absurd rfl (hother _ rfl)
  · rfl

theorem exists_cons_of_head {P : Token → Prop} (h : ¬ ∀ t ∈ ts.head?, ¬ P t) :
    ∃ t rest, ts = t :: rest ∧ P t := by
  cases ts with
  | nil => simp at h
  | cons t rest => exact ⟨t, rest, rfl, by simpa using h⟩

theorem closeGroup_agrees (leading : Trivia) (c : Expr) {us : List Token} (hus : us = ρ.tokens ts)
    (hts : Ready ts) {bound bound' : Nat} (h : ts.length < bound) (h' : us.length < bound') :
    ρ.Agrees ρ.expr Ready (closeGroup leading c ts bound h)
      (closeGroup (ρ.trivia leading) (ρ.expr c) us bound' h') := by
  by_cases hother : ∀ t ∈ ts.head?, t.kind ≠ .closeParen
  · subst hus
    rw [closeGroup_of_other hother, closeGroup_of_other
      (ρ.kind_of_head_tokens (· ≠ .closeParen) hts.kind_of_head hother)]
    exact .failed (ρ.alike_unexpected .unclosedGroup (fun _ => rfl) hts.kind_of_head)
  · obtain ⟨t, rest, rfl, hclose⟩ := exists_cons_of_head hother
    rw [ρ.tokens_cons (by simp [hclose])] at hus
    subst hus
    obtain ⟨hshort, hdone⟩ := closeGroup_of_closeParen leading c hclose h
    obtain ⟨hshort', hdone'⟩ := closeGroup_of_closeParen (ρ.trivia leading) (ρ.expr c)
      ((ρ.kind_token t).trans hclose) h'
    rw [hdone, hdone']
    simp only [ρ.ifCommented_trivia, ρ.triviaAhead_tokens, ρ.skipTrivia_tokens, ← ρ.expr_attach]
    exact .done (ready_skipTrivia rest)

theorem repetitions_of_noMark {c : Expr} (hno : ∀ t ∈ ts.head?, Repetition.ofKind? t.kind = none)
    {bound : Nat} (h : ts.length < bound) : repetitions c ts bound h = .done c ts h := by
  cases ts with
  | nil => rw [repetitions]
  | cons t rest => rw [repetitions, hno t rfl]

theorem repetitions_of_mark (c : Expr) {r : Repetition} (hmark : Repetition.ofKind? t.kind = some r)
    {bound : Nat} (h : (t :: ts).length < bound) :
    ∃ h', repetitions c (t :: ts) bound h =
      repetitions (.repeated r c [] (triviaAhead ts)) (skipTrivia ts) bound h' := by
  rw [repetitions, hmark]
  exact ⟨_, rfl⟩

theorem repetitions_agrees (c : Expr) {us : List Token} (hus : us = ρ.tokens ts)
    (hts : Ready ts) {bound bound' : Nat} (h : ts.length < bound) (h' : us.length < bound') :
    ρ.Agrees ρ.expr Ready (repetitions c ts bound h) (repetitions (ρ.expr c) us bound' h') := by
  fun_induction repetitions c ts bound h generalizing us with
  | case1 c h =>
    subst hus
    rw [repetitions_of_noMark (by simp [tokens])]
    exact .done hts
  | case2 c t ts h r hmark hshort ih =>
    rw [ρ.tokens_cons (hts.kind_of_head t rfl)] at hus
    subst hus
    obtain ⟨hshort', hmore⟩ := repetitions_of_mark (ρ.expr c) (by rwa [ρ.kind_token]) h'
    rw [hmore]
    simp only [ρ.triviaAhead_tokens, ← ρ.expr_repeated]
    exact ih (ρ.skipTrivia_tokens ts) (ready_skipTrivia ts) _
  | case3 c t ts h hmark hshort =>
    subst hus
    have hno := ρ.kind_of_head_tokens (Repetition.ofKind? · = none) hts.kind_of_head
      (by simpa using hmark)
    rw [repetitions_of_noMark hno]
    exact .done hts

theorem endsSequence_tokens (hts : Ready ts) : endsSequence (ρ.tokens ts) = endsSequence ts := by
  cases ts with
  | nil => rfl
  | cons t ts =>
    rw [ρ.tokens_cons (hts.kind_of_head t rfl), endsSequence, endsSequence, ρ.kind_token]

theorem alternatives_agrees_of_bar (c : Expr) (hbar : t.kind = .bar)
    (hhead : ρ.Agrees ρ.expr Ready (Parsing.sequence (skipTrivia ts))
      (Parsing.sequence (ρ.tokens (skipTrivia ts))))
    (hmore : ∀ (e : Expr) (after : List Token), after.length < (skipTrivia ts).length →
      Ready after → ∀ (bound bound' : Nat) h h', ρ.Agrees (List.map ρ.expr) Ready
        (alternatives e after bound h) (alternatives (ρ.expr e) (ρ.tokens after) bound' h'))
    {us : List Token} (hus : us = ρ.tokens (t :: ts)) {bound bound' : Nat}
    (h : (t :: ts).length < bound) (h' : us.length < bound') :
    ρ.Agrees (List.map ρ.expr) Ready (alternatives c (t :: ts) bound h)
      (alternatives (ρ.expr c) us bound' h') := by
  obtain ⟨value', position', htoken⟩ := ρ.exists_token_eq hbar
  rw [ρ.tokens_cons (by simp [hbar]), htoken] at hus
  subst hus
  obtain ⟨kind, value, position⟩ := t
  cases hbar
  rw [← ρ.skipTrivia_tokens] at hhead
  rw [alternatives.eq_def c, alternatives.eq_def (ρ.expr c)]
  dsimp only
  generalize Parsing.sequence (skipTrivia ts) = answer at hhead
  generalize Parsing.sequence (skipTrivia (ρ.tokens ts)) = answer' at hhead
  cases hhead with
  | failed alike => exact .failed alike
  | @done e after h h' left =>
    refine (hmore e after h left _ _ _ _).map fun es => ?_
    rw [ρ.triviaAhead_tokens, ρ.withoutSpace_trivia, ← ρ.expr_attach, List.map_cons]

theorem atom_agrees_of_openParen (hopen : t.kind = .openParen)
    (hbody : ρ.Agrees ρ.expr Ready (choice (skipTrivia ts)) (choice (ρ.tokens (skipTrivia ts)))) :
    ρ.Agrees ρ.expr Ready (atom (t :: ts)) (atom (ρ.token t :: ρ.tokens ts)) := by
  obtain ⟨value', position', htoken⟩ := ρ.exists_token_eq hopen
  rw [htoken]
  obtain ⟨kind, value, position⟩ := t
  cases hopen
  rw [← ρ.skipTrivia_tokens] at hbody
  rw [atom, atom]
  generalize choice (skipTrivia ts) = answer at hbody
  generalize choice (skipTrivia (ρ.tokens ts)) = answer' at hbody
  cases hbody with
  | failed alike => exact .failed alike
  | done left =>
    dsimp only
    rw [ρ.triviaAhead_tokens]
    exact ρ.closeGroup_agrees _ _ rfl left _ _

theorem atom_agrees_of_terminal (hterminal : t.kind = .terminal) :
    ρ.Agrees ρ.expr Ready (atom (t :: ts)) (atom (ρ.token t :: ρ.tokens ts)) := by
  have hvalue := ρ.value_token t (by simp [hterminal])
  have hkind := (ρ.kind_token t).trans hterminal
  cases hlegal : Leaf.ofTerminal t.value with
  | ok l =>
    rw [atom_of_terminal hterminal hlegal, atom_of_terminal hkind (hvalue ▸ hlegal)]
    exact ρ.leaf_agrees l _ _
  | error fault =>
    rw [atom_of_badTerminal hterminal hlegal, atom_of_badTerminal hkind (hvalue ▸ hlegal)]
    exact .failed ⟨rfl, rfl⟩

theorem atom_agrees_of_word (hword : t.kind = .word) :
    ρ.Agrees ρ.expr Ready (atom (t :: ts)) (atom (ρ.token t :: ρ.tokens ts)) := by
  have hvalue := ρ.value_token t (by simp [hword])
  rw [atom_of_word hword, atom_of_word ((ρ.kind_token t).trans hword), hvalue]
  exact ρ.leaf_agrees _ _ _

theorem atom_agrees_of_closeParen (hts : Ready ts)
    (hclose : ts.head?.map (·.kind) = some .closeParen) :
    ρ.Agrees ρ.expr Ready (atom ts) (atom (ρ.tokens ts)) := by
  have hclose' : (ρ.tokens ts).head?.map (·.kind) = some .closeParen := by
    rw [ρ.head?_tokens hts.kind_of_head, Option.map_map, ← hclose]
    exact congrArg (ts.head?.map ·) (funext ρ.kind_token)
  rw [atom_of_closeParen hclose, atom_of_closeParen hclose']
  exact .failed (ρ.alike_ahead _ hts.kind_of_head)

theorem atom_agrees_of_other (hts : Ready ts)
    (hother : ∀ t ∈ ts.head?,
      t.kind ≠ .openParen ∧ t.kind ≠ .closeParen ∧ t.kind ≠ .terminal ∧ t.kind ≠ .word) :
    ρ.Agrees ρ.expr Ready (atom ts) (atom (ρ.tokens ts)) := by
  rw [atom_of_other hother, atom_of_other (ρ.kind_of_head_tokens
    (fun k => k ≠ .openParen ∧ k ≠ .closeParen ∧ k ≠ .terminal ∧ k ≠ .word) hts.kind_of_head hother)]
  exact .failed (ρ.alike_unexpected .expectedAtom (fun _ => rfl) hts.kind_of_head)

theorem atom_agrees_of_ne_openParen (hts : Ready ts) (hopen : ∀ t ∈ ts.head?, t.kind ≠ .openParen) :
    ρ.Agrees ρ.expr Ready (atom ts) (atom (ρ.tokens ts)) := by
  cases ts with
  | nil => exact ρ.atom_agrees_of_other hts (by simp)
  | cons t rest =>
    by_cases hclose : t.kind = .closeParen
    · exact ρ.atom_agrees_of_closeParen hts (congrArg some hclose)
    by_cases hterminal : t.kind = .terminal
    · rw [ρ.tokens_cons (hts.kind_of_head t rfl)]
      exact ρ.atom_agrees_of_terminal hterminal
    by_cases hword : t.kind = .word
    · rw [ρ.tokens_cons (hts.kind_of_head t rfl)]
      exact ρ.atom_agrees_of_word hword
    · exact ρ.atom_agrees_of_other hts
        (by simpa using ⟨hopen t rfl, hclose, hterminal, hword⟩)

mutual

theorem choice_agrees (ts : List Token) (hts : Ready ts) :
    ρ.Agrees ρ.expr Ready (choice ts) (choice (ρ.tokens ts)) := by
  obtain ⟨hskip, hbar⟩ := ρ.skipBar_tokens hts
  have hshort := length_skipBar_le ts
  have hfirst : ρ.Agrees ρ.expr Ready (Parsing.sequence (skipBar ts))
      (Parsing.sequence (skipBar (ρ.tokens ts))) := by
    rw [hskip]
    exact sequence_agrees (skipBar ts) (ready_skipBar hts)
  rw [choice, choice, hbar]
  generalize Parsing.sequence (skipBar ts) = answer at hfirst
  generalize Parsing.sequence (skipBar (ρ.tokens ts)) = answer' at hfirst
  cases hfirst with
  | failed alike => exact .failed alike
  | @done e rest h h' left =>
    dsimp only
    rw [← ρ.expr_attach]
    exact (alternatives_agrees _ rest left rfl _ _).map fun es => (ρ.expr_join .choice es).symm
termination_by 6 * ts.length + 5

theorem alternatives_agrees (c : Expr) (ts : List Token) (hts : Ready ts) {us : List Token}
    (hus : us = ρ.tokens ts) {bound bound' : Nat} (h : ts.length < bound) (h' : us.length < bound') :
    ρ.Agrees (List.map ρ.expr) Ready (alternatives c ts bound h)
      (alternatives (ρ.expr c) us bound' h') := by
  by_cases hother : ∀ t ∈ ts.head?, t.kind ≠ .bar
  · subst hus
    rw [alternatives_of_noBar hother,
      alternatives_of_noBar (ρ.kind_of_head_tokens (· ≠ .bar) hts.kind_of_head hother)]
    exact .done hts
  · obtain ⟨t, rest, hcons, hbar⟩ := exists_cons_of_head hother
    have hlength := congrArg List.length hcons
    have hskip := length_skipTrivia_le rest
    have hhead := sequence_agrees (skipTrivia rest) (ready_skipTrivia rest)
    have hmore : ∀ (e : Expr) (after : List Token), after.length < (skipTrivia rest).length →
        Ready after → ∀ (bound bound' : Nat) h h', ρ.Agrees (List.map ρ.expr) Ready
          (alternatives e after bound h) (alternatives (ρ.expr e) (ρ.tokens after) bound' h') :=
      fun e after _ left _ _ h h' => alternatives_agrees e after left rfl h h'
    subst hcons
    exact ρ.alternatives_agrees_of_bar c hbar hhead hmore hus h h'
termination_by 6 * ts.length + 4
decreasing_by all_goals simp only [List.length_cons] at hlength; omega

theorem sequence_agrees (ts : List Token) (hts : Ready ts) :
    ρ.Agrees ρ.expr Ready (Parsing.sequence ts) (Parsing.sequence (ρ.tokens ts)) := by
  have hfirst := unary_agrees ts hts
  rw [Parsing.sequence, Parsing.sequence]
  generalize unary ts = answer at hfirst
  generalize unary (ρ.tokens ts) = answer' at hfirst
  cases hfirst with
  | failed alike => exact .failed alike
  | @done e rest h h' left =>
    exact (items_agrees e rest left rfl _ _).map fun es => (ρ.expr_join .sequence es).symm
termination_by 6 * ts.length + 3

theorem items_agrees (c : Expr) (ts : List Token) (hts : Ready ts) {us : List Token}
    (hus : us = ρ.tokens ts) {bound bound' : Nat} (h : ts.length < bound) (h' : us.length < bound') :
    ρ.Agrees (List.map ρ.expr) Ready (items c ts bound h) (items (ρ.expr c) us bound' h') := by
  subst hus
  rw [items, items, ρ.endsSequence_tokens hts]
  split
  · exact .done hts
  · have hhead := unary_agrees ts hts
    generalize unary ts = answer at hhead
    generalize unary (ρ.tokens ts) = answer' at hhead
    cases hhead with
    | failed alike => exact .failed alike
    | @done e rest h h' left =>
      exact (items_agrees e rest left rfl _ _).map fun _ => rfl
termination_by 6 * ts.length + 2

theorem unary_agrees (ts : List Token) (hts : Ready ts) :
    ρ.Agrees ρ.expr Ready (unary ts) (unary (ρ.tokens ts)) := by
  have hfirst := atom_agrees ts hts
  rw [unary, unary]
  generalize atom ts = answer at hfirst
  generalize atom (ρ.tokens ts) = answer' at hfirst
  cases hfirst with
  | failed alike => exact .failed alike
  | @done e rest h h' left => exact ρ.repetitions_agrees e rfl left _ _
termination_by 6 * ts.length + 1

theorem atom_agrees (ts : List Token) (hts : Ready ts) :
    ρ.Agrees ρ.expr Ready (atom ts) (atom (ρ.tokens ts)) := by
  by_cases hopen : ∀ t ∈ ts.head?, t.kind ≠ .openParen
  · exact ρ.atom_agrees_of_ne_openParen hts hopen
  · obtain ⟨t, rest, hcons, hopen⟩ := exists_cons_of_head hopen
    have hlength := congrArg List.length hcons
    have hskip := length_skipTrivia_le rest
    have hbody := choice_agrees (skipTrivia rest) (ready_skipTrivia rest)
    rw [hcons, ρ.tokens_cons (by simp [hopen])]
    exact ρ.atom_agrees_of_openParen hopen hbody
termination_by 6 * ts.length
decreasing_by all_goals simp only [List.length_cons] at hlength; omega

end

end Respelling

end GrammarCheck
