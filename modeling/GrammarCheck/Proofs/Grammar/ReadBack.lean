import GrammarCheck.Proofs.Parsing.Ahead

namespace GrammarCheck

open Parsing

def Joint.head : Joint → Part
  | .choice => .sequence
  | .sequence => .unary

def Joint.tail (current : Expr) : Joint → Part
  | .choice => .alternatives current
  | .sequence => .items current

inductive Joint.GoesOn : Joint → List Token → List Token → Prop
  | bar {t : Token} {ts : List Token} (kind : t.kind = .bar)
      (plain : (triviaAhead ts).withoutSpace = {}) : GoesOn .choice (t :: ts) (skipTrivia ts)
  | item {ts : List Token} (goesOn : endsSequence ts = false) : GoesOn .sequence ts ts

def Joint.Ends : Joint → List Token → Prop
  | .choice, ts => ∀ t ∈ ts.head?, t.kind ≠ .bar
  | .sequence, ts => endsSequence ts = true

inductive ReadsParts (j : Joint) : List Token → List Expr → List Token → Prop
  | last {ts rest : List Token} {e : Expr} (head : Reads j.head ts [e] rest) :
    ReadsParts j ts [e] rest
  | cons {ts mid next rest : List Token} {e : Expr} {es : List Expr}
      (head : Reads j.head ts [e] mid) (goesOn : j.GoesOn mid next)
      (more : ReadsParts j next es rest) : ReadsParts j ts (e :: es) rest

def ReadsOperand (ts : List Token) (es : List Expr) (rest : List Token) : Prop :=
  ∃ e, es = [e] ∧ ∀ es' rest', Reads (.repetitions e) rest es' rest' → Reads .unary ts es' rest'

variable {j : Joint} {ts mid next rest : List Token} {e : Expr} {es es' : List Expr}
  {ss ss' : List Symbol} {newline : Text}

namespace ReadsParts

theorem append (h : ReadsParts j ts es mid) (hgoesOn : j.GoesOn mid next)
    (h' : ReadsParts j next es' rest) : ReadsParts j ts (es ++ es') rest := by
  induction h with
  | last head => exact .cons head hgoesOn h'
  | cons head goesOn _ ih => exact .cons head goesOn (ih hgoesOn)

theorem exists_tail (h : ReadsParts j ts es rest) (hends : j.Ends rest) :
    ∃ e mid, Reads j.head ts [e] mid ∧ Reads (j.tail e) mid es rest := by
  induction h with
  | last head =>
    refine ⟨_, _, head, ?_⟩
    cases j with
    | choice => exact .lastAlternative hends
    | sequence => exact .lastItem hends
  | @cons ts mid next rest e es head goesOn _ ih =>
    obtain ⟨e', mid', hhead, htail⟩ := ih hends
    refine ⟨e, _, head, ?_⟩
    cases goesOn with
    | bar kind plain =>
      have hmore := Reads.alternative (c := e) kind hhead htail
      rwa [plain, Expr.attach_empty] at hmore
    | item goesOn => exact .item goesOn hhead htail

end ReadsParts

def ReadsAs (R : List Token → List Expr → List Token → Prop) (follows : List Symbol → Prop)
    (ss : List Symbol) (es : List Expr) : Prop :=
  ∀ ts behind, Ready ts → follows behind → tokenMarks ts = ss ++ behind →
    ∃ ds rest, R ts ds rest ∧ ds.map Expr.withoutSpace = es ∧ Ready rest ∧ tokenMarks rest = behind

def EndsLayout (ss : List Symbol) : Prop := ∀ s ∈ ss.head?, s.1.isTrivia = false

def Joint.Follows : Joint → List Symbol → Prop
  | .choice, ss => EndsSequence ss
  | .sequence, ss => EndsLayout ss ∧ ∀ s ∈ ss.head?, Repetition.ofKind? s.1 = none

def Opens (ss : List Symbol) : Prop := ∃ s ss', ss = s :: ss' ∧ StartsAtom s.1

theorem EndsSequence.endsLayout (h : EndsSequence ss) : EndsLayout ss := by
  intro s hs
  obtain h | h | h := h s hs <;> simp [h, Token.Kind.isTrivia]

theorem EndsSequence.follows (h : EndsSequence ss) (j : Joint) : j.Follows ss := by
  cases j with
  | choice => exact h
  | sequence => exact ⟨h.endsLayout, h.ofKind?⟩

theorem StartsAtom.isTrivia {kind : Token.Kind} (h : StartsAtom kind) : kind.isTrivia = false := by
  obtain rfl | rfl | rfl := h <;> rfl

namespace Opens

theorem append (h : Opens ss) (ss' : List Symbol) : Opens (ss ++ ss') := by
  obtain ⟨s, tail, rfl, hs⟩ := h
  exact ⟨s, tail ++ ss', rfl, hs⟩

theorem enclose (h : Opens ss) (inParens : Bool) : Opens (encloseSymbols inParens ss) := by
  cases inParens with
  | false => exact h
  | true => exact ⟨_, _, rfl, .inl rfl⟩

theorem endsLayout (h : Opens ss) : EndsLayout ss := by
  obtain ⟨s, ss', rfl, hs⟩ := h
  intro s' hs'
  obtain rfl := Option.some.inj hs'
  exact hs.isTrivia

theorem startsAtom (h : Opens ss) (hready : Ready ts) (hts : tokenMarks ts = ss) :
    ∀ t ∈ ts.head?, StartsAtom t.kind := by
  obtain ⟨s, ss', rfl, hs⟩ := h
  obtain ⟨t, us, rfl, rfl, -⟩ := hready.exists_cons hts
  intro u hu
  obtain rfl := Option.some.inj hu
  exact hs

theorem follows_separator (h : Opens ss) (j : Joint) : j.Follows (j.separator ++ ss) := by
  cases j with
  | choice => simp [Joint.Follows, Joint.separator, EndsSequence]
  | sequence =>
    obtain ⟨s, ss', rfl, hs⟩ := h
    refine ⟨Opens.endsLayout ⟨s, ss', rfl, hs⟩, fun s' hs' => ?_⟩
    obtain rfl := Option.some.inj hs'
    exact hs.ofKind?

end Opens

theorem skip_none (hss : EndsLayout ss) (h : tokenMarks ts = ss) :
    (triviaAhead ts).withoutSpace = {} ∧ tokenMarks (skipTrivia ts) = ss := by
  have hlayout : tokenMarks ts = layoutMarks [] [] ++ ss := h
  exact skip_layout hss hlayout

namespace ReadsAs

theorem operand_parts (h : ReadsAs ReadsOperand EndsLayout ss es) :
    ReadsAs (ReadsParts .sequence) (Joint.Follows .sequence) ss es := by
  intro ts behind hready hfollows hts
  obtain ⟨ds, rest, ⟨d, rfl, hread⟩, hds, hready', hrest⟩ := h ts behind hready hfollows.1 hts
  refine ⟨[d], rest, .last (hread _ _ (.noMark (hready'.noMark ?_))), hds, hready', hrest⟩
  rw [hready'.head?_meaning, hrest]
  exact hfollows.2

theorem sequence_parts (h : ReadsAs (ReadsParts .sequence) (Joint.Follows .sequence) ss es) :
    ReadsAs (ReadsParts .choice) EndsSequence ss [.join .sequence es] := by
  intro ts behind hready hends hts
  obtain ⟨ds, rest, hread, hds, hready', hrest⟩ := h ts behind hready (hends.follows _) hts
  have hends' : endsSequence rest = true :=
    hready'.endsSequence (by rwa [EndsSequence, hready'.head?_meaning, hrest])
  obtain ⟨d, mid, hhead, htail⟩ := hread.exists_tail hends'
  exact ⟨_, rest, .last (.sequence hhead htail), by simp [Expr.withoutSpace_join, hds], hready',
    hrest⟩

theorem choice (h : ReadsAs (ReadsParts .choice) EndsSequence ss es) (hopens : Opens ss) :
    ReadsAs (Reads .choice) EndsChoice ss [.join .choice es] := by
  intro ts behind hready hends hts
  obtain ⟨ds, rest, hread, hds, hready', hrest⟩ := h ts behind hready hends.endsSequence hts
  have hends' : ∀ t ∈ rest.head?, t.kind ≠ .bar :=
    hready'.noBar (by rwa [EndsChoice, hready'.head?_meaning, hrest])
  obtain ⟨d, mid, hhead, htail⟩ := hread.exists_tail hends'
  obtain ⟨s, ss', rfl, hs⟩ := hopens
  obtain ⟨t, us, rfl, rfl, -⟩ := hready.exists_cons hts
  have hbar : barTrivia (t :: us) = {} := by
    obtain ⟨kind, value, position⟩ := t
    obtain rfl | rfl | rfl : StartsAtom kind := hs <;> rfl
  have hchoice : Reads .choice (t :: us) [.join .choice ds] rest :=
    .choice (by rwa [StartsAtom.skipBar hs]) (by rwa [hbar, Expr.attach_empty])
  exact ⟨_, rest, hchoice, by simp [Expr.withoutSpace_join, hds], hready', hrest⟩

theorem parens (h : ReadsAs (Reads .choice) EndsChoice ss [e]) (hopens : Opens ss)
    (layouts : List Trivia) :
    ReadsAs ReadsOperand EndsLayout (encloseSymbols true ss ++ layoutMarks newline layouts)
      [e.attach (.merge layouts)] := by
  intro ts behind hready hends hts
  obtain ⟨t, us, rfl, hsymbol, hus⟩ := hready.exists_cons hts
  have hopening : t.kind = .openParen := congrArg Prod.fst hsymbol
  have hus' : tokenMarks us =
      ss ++ ((.closeParen, [')']) :: (layoutMarks newline layouts ++ behind)) := by
    simpa using hus
  obtain ⟨hleading, hskip⟩ := skip_none (hopens.append _).endsLayout hus'
  obtain ⟨ds, rest, hread, hds, hready', hrest⟩ :=
    h _ _ (ready_skipTrivia us) (by simp [EndsChoice]) hskip
  obtain ⟨d, rfl, hd⟩ := List.map_eq_singleton_iff.1 hds
  obtain ⟨close, after, rfl, hclose, hafter⟩ := hready'.exists_cons hrest
  obtain ⟨htrailing, hbehind⟩ := skip_layout hends hafter
  have hatom := Reads.group hopening hread (congrArg Prod.fst hclose)
  have hplain : (triviaAhead us).ifCommented = {} := by
    rw [Trivia.ifCommented, hleading]
    exact ite_self _
  rw [hplain, Expr.attach_empty] at hatom
  refine ⟨_, _, ⟨_, rfl, fun _ _ => .unary hatom⟩, ?_, ready_skipTrivia after, hbehind⟩
  simp [Expr.withoutSpace_attach, hd, htrailing]

theorem mark (h : ReadsAs ReadsOperand EndsLayout ss [e]) (newline : Text) (r : Repetition)
    (layouts : List Trivia) :
    ReadsAs ReadsOperand EndsLayout (ss ++ (r.kind, [r.mark]) :: layoutMarks newline layouts)
      [.repeated r e [] (.merge layouts)] := by
  intro ts behind hready hends hts
  have hkind : r.kind.isTrivia = false := r.isTrivia_kind
  obtain ⟨ds, mid, ⟨d, rfl, hread⟩, hds, hready', hmid⟩ :=
    h ts ((r.kind, [r.mark]) :: (layoutMarks newline layouts ++ behind)) hready
      (by simp [EndsLayout, hkind]) (by simpa using hts)
  obtain ⟨t, us, rfl, hsymbol, hus⟩ := hready'.exists_cons hmid
  obtain ⟨htrailing, hbehind⟩ := skip_layout hends hus
  have hmark : Repetition.ofKind? t.kind = some r :=
    Repetition.ofKind?_eq_some_iff.2 (congrArg Prod.fst hsymbol)
  refine ⟨_, _, ⟨_, rfl, fun es' rest' hmore => hread _ _ (.mark hmark hmore)⟩, ?_,
    ready_skipTrivia us, hbehind⟩
  simp [Expr.withoutSpace, htrailing, (List.cons.inj hds).1]

theorem leaf {l : Leaf} (hl : l.Printable) (layouts : List Trivia) :
    ReadsAs ReadsOperand EndsLayout (l.symbol :: layoutMarks newline layouts)
      [.leaf l (.merge layouts)] := by
  intro ts behind hready hends hts
  obtain ⟨t, us, rfl, hsymbol, hus⟩ := hready.exists_cons hts
  obtain ⟨htrailing, hbehind⟩ := skip_layout hends hus
  have hatom : Reads .atom (t :: us) [.leaf l (triviaAhead us)] (skipTrivia us) := by
    obtain ⟨kind, value, position⟩ := t
    cases hl with
    | terminal _ notAngled oneQuote =>
      cases hsymbol
      exact .terminal rfl (Leaf.ofTerminal_eq_ok_iff.2 (.plain notAngled oneQuote))
    | special _ nonempty noQuestion =>
      cases hsymbol
      exact .terminal rfl (Leaf.ofTerminal_eq_ok_iff.2 (.special nonempty noQuestion))
    | reference =>
      cases hsymbol
      exact .reference rfl
  refine ⟨_, _, ⟨_, rfl, fun _ _ => .unary hatom⟩, ?_, ready_skipTrivia us, hbehind⟩
  simp [Expr.withoutSpace, htrailing]

theorem append (h : ReadsAs (ReadsParts j) j.Follows ss es)
    (h' : ReadsAs (ReadsParts j) j.Follows ss' es') (hopens : Opens ss') :
    ReadsAs (ReadsParts j) j.Follows (ss ++ (j.separator ++ ss')) (es ++ es') := by
  intro ts behind hready hfollows hts
  obtain ⟨ds, mid, hread, hds, hready', hmid⟩ :=
    h ts (j.separator ++ (ss' ++ behind)) hready ((hopens.append behind).follows_separator j)
      (by simpa using hts)
  have hgoesOn : ∃ next, j.GoesOn mid next ∧ Ready next ∧ tokenMarks next = ss' ++ behind := by
    cases j with
    | choice =>
      obtain ⟨t, us, rfl, hsymbol, hus⟩ := hready'.exists_cons hmid
      obtain ⟨hplain, hskip⟩ := skip_none (hopens.append behind).endsLayout hus
      exact ⟨_, .bar (congrArg Prod.fst hsymbol) hplain, ready_skipTrivia us, hskip⟩
    | sequence =>
      obtain ⟨s, tail, rfl, hs⟩ := hopens
      obtain ⟨t, us, rfl, rfl, hus⟩ := hready'.exists_cons hmid
      exact ⟨_, .item (StartsAtom.endsSequence hs us), hready', hmid⟩
  obtain ⟨next, hgoesOn, hready'', hnext⟩ := hgoesOn
  obtain ⟨ds', rest, hread', hds', hready₃, hrest⟩ := h' next behind hready'' hfollows hnext
  exact ⟨ds ++ ds', rest, hread.append hgoesOn hread', by rw [List.map_append, hds, hds'], hready₃,
    hrest⟩

end ReadsAs

namespace Expr

/-- The symbols of an expression are read back as an operand and as parts of a group, with any
layouts behind them. -/
structure ReadsBack (newline : Text) (e : Expr) : Prop where
  operand (behind : List Trivia) :
    ReadsAs ReadsOperand EndsLayout
      (encloseSymbols e.isGroup (e.printedMarks newline) ++ layoutMarks newline behind)
      [if e.isGroup then (e.reread []).attach (.merge behind) else e.reread behind]
  parts (j : Joint) (behind : List Trivia) :
    ReadsAs (ReadsParts j) j.Follows
      (encloseSymbols (j.encloses e) (e.printedMarks newline) ++ layoutMarks newline behind)
      (e.rereadParts j behind)

theorem Printable.opens (h : Printable e) (newline : Text) : Opens (e.printedMarks newline) := by
  induction h with
  | @leaf l after leaf _ =>
    refine ⟨_, _, rfl, ?_⟩
    cases leaf with
    | terminal | special => exact .inr (.inl rfl)
    | reference => exact .inr (.inr rfl)
  | @repeated r body after _ _ ih => exact (ih.enclose body.isGroup).append _
  | @group j items after nonempty _ _ ih =>
    obtain ⟨e, es, rfl⟩ := List.exists_cons_of_ne_nil nonempty
    exact (((ih e List.mem_cons_self).enclose (j.encloses e)).append _).append _

theorem ReadsBack.of_operand (hgroup : e.isGroup = false)
    (hparts : ∀ j behind, e.rereadParts j behind = [e.reread behind])
    (h : ∀ behind, ReadsAs ReadsOperand EndsLayout
      (e.printedMarks newline ++ layoutMarks newline behind) [e.reread behind]) :
    ReadsBack newline e where
  operand behind := by
    rw [hgroup]
    exact h behind
  parts j behind := by
    have hencloses : j.encloses e = false := by
      cases e <;> cases j <;> first | rfl | cases hgroup
    rw [hencloses, hparts]
    cases j with
    | choice => exact (h behind).operand_parts.sequence_parts
    | sequence => exact (h behind).operand_parts

theorem parts_spread (h : ∀ x ∈ e :: es, ReadsBack newline x)
    (hopens : ∀ x ∈ e :: es, Opens (x.printedMarks newline)) (j : Joint) (behind : List Trivia) :
    ReadsAs (ReadsParts j) j.Follows
      (encloseSymbols (j.encloses e) (e.printedMarks newline) ++
        printedMarks.further newline j es ++ layoutMarks newline behind)
      (rereadParts.spread j behind (e :: es)) := by
  induction es generalizing e with
  | nil =>
    have hlast := (h e List.mem_cons_self).parts j behind
    simpa [printedMarks.further, rereadParts.spread] using hlast
  | cons e' es ih =>
    have hfirst := (h e List.mem_cons_self).parts j []
    have hmore := ih (fun x hx => h x (List.mem_cons_of_mem _ hx))
      (fun x hx => hopens x (List.mem_cons_of_mem _ hx))
    have hopens' := hopens e' (List.mem_cons_of_mem _ List.mem_cons_self)
    have happend := hfirst.append hmore (((hopens'.enclose (j.encloses e')).append _).append _)
    simpa [printedMarks.further, rereadParts.spread] using happend

theorem Printable.readsBack (h : Printable e) (newline : Text) : ReadsBack newline e := by
  induction h with
  | @leaf l after leaf _ =>
    exact .of_operand rfl (fun _ _ => rfl) fun behind => ReadsAs.leaf leaf (after :: behind)
  | @repeated r body after _ _ ih =>
    refine .of_operand rfl (fun _ _ => rfl) fun behind => ?_
    have hbody : (if body.isGroup then (body.reread []).attach (.merge []) else body.reread []) =
        body.reread [] := by
      have hmerge : Trivia.merge [] = {} := rfl
      rw [hmerge, attach_empty, ite_self]
    have hmark := (ih.operand []).mark newline r (after :: behind)
    rw [hbody] at hmark
    simpa [printedMarks, reread, rereadParts, join] using hmark
  | @group k items after nonempty printable comment ih =>
    have hopens : Opens ((Expr.group k items [] after).printedMarks newline) :=
      Printable.opens (.group nonempty printable comment) newline
    obtain ⟨e, es, rfl⟩ := List.exists_cons_of_ne_nil nonempty
    have hinner : ∀ behind, ReadsAs (ReadsParts k) k.Follows
        ((Expr.group k (e :: es) [] after).printedMarks newline ++ layoutMarks newline behind)
        (rereadParts.spread k (after :: behind) (e :: es)) := by
      intro behind
      have hparts :=
        parts_spread ih (fun x hx => (printable x hx).opens newline) k (after :: behind)
      simpa [printedMarks] using hparts
    -- what follows the group goes to its last item, unless parentheses are closed before it
    have hinner' := hinner []
    rw [layoutMarks_nil, List.append_nil] at hinner'
    cases k with
    | choice =>
      have hchoice := hinner'.choice hopens
      refine ⟨fun behind => hchoice.parens hopens behind, fun j behind => ?_⟩
      cases j with
      | choice => exact hinner behind
      | sequence => exact (hchoice.parens hopens behind).operand_parts
    | sequence =>
      have hchoice := hinner'.sequence_parts.choice hopens
      refine ⟨fun behind => hchoice.parens hopens behind, fun j behind => ?_⟩
      cases j with
      | choice => exact (hinner behind).sequence_parts
      | sequence => exact hinner behind

theorem Printable.reads (h : Printable e) (newline : Text) :
    ReadsAs (Reads .choice) EndsChoice (e.printedMarks newline) [e.reread []] := by
  have hparts := (h.readsBack newline).parts .choice []
  rw [layoutMarks_nil, List.append_nil] at hparts
  exact hparts.choice (h.opens newline)

end Expr

end GrammarCheck
