import GrammarCheck.Proofs.Parsing.Soundness

namespace GrammarCheck

def Ready (ts : List Token) : Prop := ∀ t ∈ ts.head?, t.isTrivia = false

theorem ready_skipTrivia (ts : List Token) : Ready (skipTrivia ts) := by
  induction ts with
  | nil => simp [Ready, skipTrivia]
  | cons t ts ih =>
    by_cases h : t.isTrivia
    · simpa [Ready, skipTrivia, h] using ih
    · simp [Ready, skipTrivia, h]

theorem Ready.eq_nil {ts : List Token} (h : Ready ts) (hts : meaning ts = []) : ts = [] := by
  cases ts with
  | nil => rfl
  | cons t ts =>
    rw [meaning_cons (h t rfl)] at hts
    cases hts

theorem Ready.eq_cons {ts : List Token} {s : Symbol} {ss : List Symbol} (h : Ready ts)
    (hts : meaning ts = s :: ss) :
    ∃ t us, ts = t :: us ∧ t.kind = s.1 ∧ t.value = s.2 ∧ meaning us = ss := by
  cases ts with
  | nil => cases hts
  | cons t us =>
    rw [meaning_cons (h t rfl)] at hts
    obtain ⟨rfl, rfl⟩ := List.cons.inj hts
    exact ⟨t, us, rfl, rfl, rfl, rfl⟩

def StartsAtom (kind : Token.Kind) : Prop := kind = .openParen ∨ kind = .terminal ∨ kind = .word

theorem Derives.exists_head {part : Nonterminal} {ss : List Symbol} {es : List Expr}
    (h : Derives part ss es) (hpart : part ≠ .choice) :
    ∃ s ss', ss = s :: ss' ∧ StartsAtom s.1 := by
  induction h with
  | choice | barredChoice => exact absurd rfl hpart
  | lastAlternative _ ih | sequence _ ih | lastItem _ ih | atom _ ih => exact ih (by decide)
  | alternative _ _ ih | item _ _ ih | repeated _ ih =>
    obtain ⟨s, ss', rfl, hs⟩ := ih (by decide)
    exact ⟨s, _, rfl, hs⟩
  | group => exact ⟨_, _, rfl, .inl rfl⟩
  | terminal => exact ⟨_, _, rfl, .inr (.inl rfl)⟩
  | reference => exact ⟨_, _, rfl, .inr (.inr rfl)⟩

def EndsChoice (ss : List Symbol) : Prop := ∀ s ∈ ss.head?, s.1 = .semicolon ∨ s.1 = .closeParen

def EndsSequence (ss : List Symbol) : Prop :=
  ∀ s ∈ ss.head?, s.1 = .bar ∨ s.1 = .semicolon ∨ s.1 = .closeParen

variable {ts : List Token} {s : Symbol} {ss R : List Symbol}

theorem EndsChoice.endsSequence (h : EndsChoice R) : EndsSequence R :=
  fun s hs => .inr (h s hs)

theorem Ready.endsSequence (h : Ready ts) (hends : EndsSequence (meaning ts)) :
    Parsing.endsSequence ts = true := by
  cases ts with
  | nil => rfl
  | cons t ts =>
    rw [meaning_cons (h t rfl)] at hends
    have hkind : t.kind = .bar ∨ t.kind = .semicolon ∨ t.kind = .closeParen := hends _ rfl
    obtain hkind | hkind | hkind := hkind <;> simp [Parsing.endsSequence, hkind]

theorem Ready.noMark (h : Ready ts)
    (hno : ∀ s ∈ (meaning ts).head?, Repetition.ofKind? s.1 = none) :
    ∀ t ∈ ts.head?, Repetition.ofKind? t.kind = none := by
  cases ts with
  | nil => simp
  | cons t ts =>
    rw [meaning_cons (h t rfl)] at hno
    simpa [Token.symbol] using hno

theorem Ready.noBar (h : Ready ts) (hends : EndsChoice (meaning ts)) :
    ∀ t ∈ ts.head?, t.kind ≠ .bar := by
  cases ts with
  | nil => simp
  | cons t ts =>
    rw [meaning_cons (h t rfl)] at hends
    have hkind : t.kind = .semicolon ∨ t.kind = .closeParen := hends _ rfl
    obtain hkind | hkind := hkind <;> simp [hkind]

theorem StartsAtom.ofKind? {kind : Token.Kind} (h : StartsAtom kind) :
    Repetition.ofKind? kind = none := by
  obtain rfl | rfl | rfl := h <;> rfl

theorem StartsAtom.endsSequence {t : Token} (h : StartsAtom t.kind) (ts : List Token) :
    Parsing.endsSequence (t :: ts) = false := by
  obtain h | h | h := h <;> simp [Parsing.endsSequence, h]

theorem StartsAtom.skipBar {t : Token} (h : StartsAtom t.kind) (ts : List Token) :
    Parsing.skipBar (t :: ts) = t :: ts := by
  obtain ⟨kind, value, position⟩ := t
  obtain rfl | rfl | rfl := h <;> rfl

theorem skipBar_of_bar {t : Token} (h : t.kind = .bar) (ts : List Token) :
    Parsing.skipBar (t :: ts) = skipTrivia ts := by
  obtain ⟨kind, value, position⟩ := t
  cases h
  rfl

theorem EndsSequence.ofKind? (h : EndsSequence ss) :
    ∀ s ∈ ss.head?, Repetition.ofKind? s.1 = none := by
  intro s hs
  obtain h | h | h := h s hs <;> simp [Repetition.ofKind?, h]

open Parsing

/-- Tokens that mean what is derived from a part, with what may stand behind that part, are read as
what is derived. A unary expression may go on with further tokenMarks. -/
def Nonterminal.IsRead (ss : List Symbol) (es : List Expr) : Nonterminal → Prop
  | .choice => ∀ ts R, Ready ts → meaning ts = ss ++ R → EndsChoice R →
    ∃ e rest, Reads .choice ts [e] rest ∧ [e.erase] = es ∧ meaning rest = R ∧ Ready rest
  | .alternatives => ∀ ts R, Ready ts → meaning ts = ss ++ R → EndsChoice R →
    ∃ e mid, Reads .sequence ts [e] mid ∧ ∀ c, c.erase = e.erase →
      ∃ es' rest, Reads (.alternatives c) mid es' rest ∧ es'.map Expr.erase = es ∧
        meaning rest = R ∧ Ready rest
  | .sequence => ∀ ts R, Ready ts → meaning ts = ss ++ R → EndsSequence R →
    ∃ e rest, Reads .sequence ts [e] rest ∧ [e.erase] = es ∧ meaning rest = R ∧ Ready rest
  | .items => ∀ ts R, Ready ts → meaning ts = ss ++ R → EndsSequence R →
    ∃ e mid es' rest, Reads .unary ts [e] mid ∧ Reads (.items e) mid es' rest ∧
      es'.map Expr.erase = es ∧ meaning rest = R ∧ Ready rest
  | .unary => ∀ ts R, Ready ts → meaning ts = ss ++ R →
    ∃ e mid, [e.erase] = es ∧ meaning mid = R ∧ Ready mid ∧
      ∀ es' rest, Reads (.repetitions e) mid es' rest → Reads .unary ts es' rest
  | .atom => ∀ ts R, Ready ts → meaning ts = ss ++ R →
    ∃ e rest, Reads .atom ts [e] rest ∧ [e.erase] = es ∧ meaning rest = R ∧ Ready rest

theorem Derives.isRead {part : Nonterminal} {es : List Expr} (h : Derives part ss es) :
    part.IsRead ss es := by
  induction h with
  | @choice ss es halts ih =>
    intro ts R hready hts hends
    obtain ⟨s, ss', rfl, hs⟩ := halts.exists_head (by decide)
    obtain ⟨t, us, rfl, hkind, -, -⟩ := hready.eq_cons hts
    have hskip := StartsAtom.skipBar (hkind ▸ hs) us
    obtain ⟨e, mid, hfirst, hmore⟩ := ih _ R hready hts hends
    obtain ⟨es', rest, hmore, hes, hrest, hready'⟩ := hmore (e.attach (barTrivia (t :: us))) (by simp)
    refine ⟨_, rest, .choice (by rwa [hskip]) hmore, ?_, hrest, hready'⟩
    rw [Expr.erase_join, hes]
  | @barredChoice v ss es halts ih =>
    intro ts R hready hts hends
    obtain ⟨t, us, rfl, hkind, -, hus⟩ := hready.eq_cons hts
    have hskip := skipBar_of_bar hkind us
    obtain ⟨e, mid, hfirst, hmore⟩ := ih _ R (ready_skipTrivia us) (by rwa [meaning_skipTrivia]) hends
    obtain ⟨es', rest, hmore, hes, hrest, hready'⟩ := hmore (e.attach (barTrivia (t :: us))) (by simp)
    refine ⟨_, rest, .choice (by rwa [hskip]) hmore, ?_, hrest, hready'⟩
    rw [Expr.erase_join, hes]
  | lastAlternative _ ih =>
    intro ts R hready hts hends
    obtain ⟨e, rest, hread, he, rfl, hready'⟩ := ih ts R hready hts hends.endsSequence
    exact ⟨e, rest, hread, fun c hc =>
      ⟨[c], rest, .lastAlternative (hready'.noBar hends), by rw [← he, ← hc]; rfl, rfl, hready'⟩⟩
  | @alternative v ss ss' e es _ _ ihHead ihMore =>
    intro ts R hready hts hends
    obtain ⟨e', mid, hread, he, hmid, hready'⟩ := ihHead ts ((.bar, v) :: (ss' ++ R)) hready
      (by simpa using hts) (by simp [EndsSequence])
    obtain ⟨t, us, rfl, hkind, -, hus⟩ := hready'.eq_cons hmid
    obtain ⟨e₂, mid₂, hhead, hmore⟩ := ihMore _ R (ready_skipTrivia us)
      (by rwa [meaning_skipTrivia]) hends
    obtain ⟨es', rest, hmore, hes, hrest, hready₂⟩ := hmore e₂ rfl
    refine ⟨e', _, hread, fun c hc => ⟨_, rest, .alternative hkind hhead hmore, ?_, hrest, hready₂⟩⟩
    rw [List.map_cons, Expr.erase_attach, hc, hes, (List.cons.inj he).1]
  | sequence _ ih =>
    intro ts R hready hts hends
    obtain ⟨e, mid, es', rest, hfirst, hmore, hes, hrest, hready'⟩ := ih ts R hready hts hends
    refine ⟨_, rest, .sequence hfirst hmore, ?_, hrest, hready'⟩
    rw [Expr.erase_join, hes]
  | lastItem _ ih =>
    intro ts R hready hts hends
    obtain ⟨e, mid, he, rfl, hready', hread⟩ := ih ts R hready hts
    exact ⟨e, mid, [e], mid, hread _ _ (.noMark (hready'.noMark hends.ofKind?)),
      .lastItem (hready'.endsSequence hends), he, rfl, hready'⟩
  | @item ss ss' e es _ hmore ihHead ihMore =>
    intro ts R hready hts hends
    obtain ⟨e', mid, he, hmid, hready', hread⟩ := ihHead ts (ss' ++ R) hready (by simpa using hts)
    obtain ⟨s, ss', rfl, hs⟩ := hmore.exists_head (by decide)
    obtain ⟨e₂, mid₂, es', rest, hfirst, hmore, hes, hrest, hready₂⟩ := ihMore mid R hready' hmid hends
    have hnoMark := hready'.noMark (by rw [hmid]; simpa using hs.ofKind?)
    obtain ⟨t, us, rfl, hkind, -, -⟩ := hready'.eq_cons hmid
    refine ⟨e', _, _, rest, hread _ _ (.noMark hnoMark),
      .item (StartsAtom.endsSequence (hkind ▸ hs) us) hfirst hmore, ?_, hrest, hready₂⟩
    rw [List.map_cons, hes, (List.cons.inj he).1]
  | atom _ ih =>
    intro ts R hready hts
    obtain ⟨e, rest, hread, he, hrest, hready'⟩ := ih ts R hready hts
    exact ⟨e, rest, he, hrest, hready', fun _ _ hmore => .unary hread hmore⟩
  | @repeated v ss e r _ ih =>
    intro ts R hready hts
    obtain ⟨e', mid, he, hmid, hready', hread⟩ := ih ts ((r.kind, v) :: R) hready (by simpa using hts)
    obtain ⟨t, us, rfl, hkind, -, rfl⟩ := hready'.eq_cons hmid
    refine ⟨.repeated r e' [] (triviaAhead us), skipTrivia us, ?_, meaning_skipTrivia us,
      ready_skipTrivia us, fun es' rest hmore => hread _ _ (.mark ?_ hmore)⟩
    · rw [Expr.erase, (List.cons.inj he).1]
    · exact Repetition.ofKind?_eq_some_iff.2 hkind
  | @group v v' ss e _ ih =>
    intro ts R hready hts
    obtain ⟨t, us, rfl, hkind, -, hus⟩ := hready.eq_cons hts
    obtain ⟨e', mid, hread, he, hmid, hready'⟩ := ih _ ((.closeParen, v') :: R) (ready_skipTrivia us)
      (by rw [meaning_skipTrivia, hus]; simp) (by simp [EndsChoice])
    obtain ⟨close, after, rfl, hclose, -, rfl⟩ := hready'.eq_cons hmid
    exact ⟨_, _, .group hkind hread hclose, by simpa using he, meaning_skipTrivia after,
      ready_skipTrivia after⟩
  | @terminal text l legal =>
    intro ts R hready hts
    obtain ⟨t, us, rfl, hkind, rfl, rfl⟩ := hready.eq_cons hts
    exact ⟨_, _, .terminal hkind (Leaf.ofTerminal_eq_ok_iff.2 legal), rfl, meaning_skipTrivia us,
      ready_skipTrivia us⟩
  | reference =>
    intro ts R hready hts
    obtain ⟨t, us, rfl, hkind, rfl, rfl⟩ := hready.eq_cons hts
    exact ⟨_, _, .reference hkind, rfl, meaning_skipTrivia us, ready_skipTrivia us⟩

namespace Derives

theorem kinds {part : Nonterminal} {es : List Expr} (h : Derives part ss es) :
    ∀ s ∈ ss, s.1.isTrivia = false ∧ s.1 ≠ .semicolon := by
  induction h with
  | choice _ ih | lastAlternative _ ih | sequence _ ih | lastItem _ ih | atom _ ih => exact ih
  | barredChoice _ ih => exact List.forall_mem_cons.2 ⟨⟨rfl, nofun⟩, ih⟩
  | alternative _ _ ih ih' =>
    exact List.forall_mem_append.2 ⟨ih, List.forall_mem_cons.2 ⟨⟨rfl, nofun⟩, ih'⟩⟩
  | item _ _ ih ih' => exact List.forall_mem_append.2 ⟨ih, ih'⟩
  | @repeated v ss e r _ ih =>
    exact List.forall_mem_append.2 ⟨ih, List.forall_mem_singleton.2 (by cases r <;> exact ⟨rfl, nofun⟩)⟩
  | group _ ih =>
    exact List.forall_mem_append.2 ⟨List.forall_mem_cons.2 ⟨⟨rfl, nofun⟩, ih⟩,
      List.forall_mem_singleton.2 ⟨rfl, nofun⟩⟩
  | terminal | reference => exact List.forall_mem_singleton.2 ⟨rfl, nofun⟩

/-- The grammar of the notation is unambiguous. -/
theorem unique {d d' : Expr} (h : Derives .choice ss [d]) (h' : Derives .choice ss [d']) :
    d = d' := by
  let tokens : List Token := ss.map fun s => ⟨s.1, s.2, ⟨1, 1⟩⟩
  have htrivia : ∀ t ∈ tokens, t.isTrivia = false := by
    intro t ht
    obtain ⟨s, hs, rfl⟩ := List.mem_map.1 ht
    exact (h.kinds s hs).1
  have hready : Ready tokens := fun t ht => htrivia t (List.mem_of_mem_head? ht)
  have hmeaning : meaning tokens = ss ++ [] := by
    have hfilter : tokens.filter (!·.isTrivia) = tokens :=
      List.filter_eq_self.2 fun t ht => by simp [htrivia t ht]
    rw [meaning, hfilter, List.map_map, List.append_nil]
    exact List.map_id ss
  obtain ⟨e, rest, hread, he, -, -⟩ := h.isRead tokens [] hready hmeaning (by simp [EndsChoice])
  obtain ⟨e', rest', hread', he', -, -⟩ := h'.isRead tokens [] hready hmeaning (by simp [EndsChoice])
  have hsame := (choice_eq_ok_iff.2 hread).symm.trans (choice_eq_ok_iff.2 hread')
  cases hsame
  exact (List.cons.inj (he.symm.trans he')).1

end Derives

end GrammarCheck
