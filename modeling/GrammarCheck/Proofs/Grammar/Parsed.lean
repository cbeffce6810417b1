import GrammarCheck.Proofs.Grammar.Symbols
import GrammarCheck.Proofs.Notation.SoundTokens
import GrammarCheck.Proofs.Parsing.Acceptance

namespace GrammarCheck

namespace Trivia

variable {s t : Trivia} {ts : List Token}

def Apart (text : Text) : Prop := text = [] ∨ ∃ before, text = before ++ [' ']

theorem oneLine_append_of_apart {text comment : Text} (h : OneLine text) (hapart : Apart text)
    (hcomment : OneLine comment) : OneLine (text ++ comment) := by
  obtain rfl | ⟨before, rfl⟩ := hapart
  · exact hcomment
  · rw [List.append_assoc]
    exact (h.of_start (List.prefix_append _ _)).append_space hcomment

/-- Comments of layout stay on one line and never close a comment elsewhere: between any two there
is a line end. -/
theorem oneLine_foldl_add (hts : SoundTokens ts) (hs : OneLine s.comment)
    (hapart : Apart s.comment ∨ ∀ u ∈ ts.head?, u.kind = .newline) :
    OneLine (ts.foldl add s).comment := by
  induction hts generalizing s with
  | nil => exact hs
  | @cons u ts sound lineEnds _ ih =>
    rw [List.foldl_cons]
    by_cases hcomment : u.kind = .comment
    · obtain ⟨text, hvalue, htext⟩ := sound.comment hcomment
      have hapart' : Apart s.comment := hapart.resolve_right fun hline => by
        rw [hline u rfl] at hcomment
        cases hcomment
      have hadd : (s.add u).comment = s.comment ++ text := by simp [add, hcomment, hvalue]
      refine ih ?_ (.inr (lineEnds hcomment))
      rw [hadd]
      exact oneLine_append_of_apart hs hapart' htext
    by_cases hnewline : u.kind = .newline
    · have hadd : (s.add u).comment = if s.comment.isEmpty then [] else s.comment ++ [' '] := by
        simp [add, hnewline]
      have hnext : OneLine (s.add u).comment ∧ Apart (s.add u).comment := by
        rw [hadd]
        split
        · exact ⟨.nil, .inl rfl⟩
        · exact ⟨hs.append_space .nil, .inr ⟨_, rfl⟩⟩
      exact ih hnext.1 (.inl hnext.2)
    · have hadd : (s.add u).comment = s.comment := by
        unfold add
        split
        · contradiction
        · contradiction
        · split <;> rfl
      have hapart' : Apart s.comment := hapart.resolve_right fun hline => hnewline (hline u rfl)
      exact ih (by rwa [hadd]) (.inl (by rwa [hadd]))

theorem oneLine_triviaAhead (hts : SoundTokens ts) : OneLine (triviaAhead ts).comment :=
  (oneLine_foldl_add (hts.of_start (List.takeWhile_prefix _)) .nil (.inl (.inl rfl))).of_start
    (Text.trimRight_prefix _)

theorem oneLine_append (hs : OneLine s.comment) (ht : OneLine t.comment) :
    OneLine (s ++ t).comment := by
  change OneLine (append s t).comment
  unfold append
  dsimp only
  split
  · rename_i hempty
    rw [Bool.or_eq_true, List.isEmpty_iff, List.isEmpty_iff] at hempty
    obtain hempty | hempty := hempty
    · rwa [hempty, List.nil_append]
    · rwa [hempty, List.append_nil]
  · exact hs.append_space ht

/-- Layout as the parser leaves it: a comment ends its line. -/
structure Tidy (t : Trivia) : Prop where
  comment : OneLine t.comment
  trimmed : t.comment.trimRight = t.comment
  endsLine : t.comment ≠ [] → t.newline

theorem tidy_triviaAhead (hts : SoundTokens ts) : (triviaAhead ts).Tidy where
  comment := oneLine_triviaAhead hts
  trimmed := Text.trimRight_trimRight _
  endsLine hcomment := by
    have hne : ((ts.takeWhile Token.isTrivia).foldl add {}).comment ≠ [] := by
      intro hempty
      apply hcomment
      rw [triviaAhead, ofTokens]
      dsimp only
      rw [hempty]
      rfl
    simp [triviaAhead, ofTokens, hne]

namespace Tidy

theorem empty : Tidy {} := ⟨.nil, rfl, by simp⟩

theorem withoutSpace (h : t.Tidy) : t.withoutSpace.Tidy := ⟨h.comment, h.trimmed, h.endsLine⟩

theorem ifCommented (h : t.Tidy) : t.ifCommented.Tidy := by
  unfold Trivia.ifCommented
  split
  · exact .empty
  · exact h.withoutSpace

theorem append (hs : s.Tidy) (ht : t.Tidy) : (s ++ t).Tidy := by
  refine ⟨oneLine_append hs.comment ht.comment, ?_, ?_⟩
  · change (Trivia.append s t).comment.trimRight = (Trivia.append s t).comment
    unfold Trivia.append
    dsimp only
    split
    · rename_i hempty
      rw [Bool.or_eq_true, List.isEmpty_iff, List.isEmpty_iff] at hempty
      obtain hempty | hempty := hempty
      · rw [hempty, List.nil_append, ht.trimmed]
      · rw [hempty, List.append_nil, hs.trimmed]
    · rename_i hboth
      have hne : t.comment ≠ [] := fun hempty => hboth (by simp [hempty])
      rw [List.append_cons, Text.trimRight_append ht.trimmed hne]
  · intro hcomment
    change (s.newline || t.newline) = true
    rw [Bool.or_eq_true]
    by_cases hempty : s.comment = []
    · refine .inr (ht.endsLine fun hempty' => hcomment ?_)
      change (Trivia.append s t).comment = []
      simp [Trivia.append, hempty, hempty']
    · exact .inl (hs.endsLine hempty)

end Tidy

end Trivia

open Parsing

variable {e : Expr} {es : List Expr} {t : Token} {ts rest : List Token} {part : Part}

inductive Expr.Tidy : Expr → Prop
  | leaf {l : Leaf} {after : Trivia} (leaf : l.Printable) (layout : after.Tidy) :
    Tidy (.leaf l after)
  | repeated {r : Repetition} {body : Expr} {after : Trivia} (tidy : Tidy body)
      (layout : after.Tidy) : Tidy (.repeated r body [] after)
  | group {j : Joint} {items : List Expr} {after : Trivia} (many : 2 ≤ items.length)
      (tidy : ∀ e ∈ items, Tidy e) (layout : after.Tidy) : Tidy (.group j items [] after)

namespace Expr.Tidy

theorem printable (h : e.Tidy) : e.Printable := by
  induction h with
  | leaf leaf layout => exact .leaf leaf layout.comment
  | repeated _ layout ih => exact .repeated ih layout.comment
  | group many _ layout ih =>
    exact .group (List.ne_nil_of_length_pos (Nat.lt_of_lt_of_le Nat.two_pos many)) ih layout.comment

theorem attach (h : e.Tidy) {t : Trivia} (ht : t.Tidy) : (e.attach t).Tidy := by
  cases h with
  | leaf leaf layout => exact .leaf leaf (layout.append ht)
  | repeated tidy layout => exact .repeated tidy (layout.append ht)
  | group many tidy layout => exact .group many tidy (layout.append ht)

theorem join (j : Joint) (hne : es ≠ []) (h : ∀ e ∈ es, e.Tidy) : (join j es).Tidy := by
  match es with
  | [] => contradiction
  | [e] => exact h e List.mem_cons_self
  | _ :: _ :: _ => exact .group (by simp) h .empty

end Expr.Tidy

theorem Leaf.printable_of_legal {text : Text} {l : Leaf} (h : LegalTerminal text l)
    (hline : ∀ c ∈ text, isLineEnd c = false) : l.Printable := by
  cases h with
  | special nonempty noQuestion =>
    exact .special (fun c hc => hline c (by simp [hc])) nonempty noQuestion
  | plain notAngled oneQuote => exact .terminal hline notAngled oneQuote

theorem Parsing.Reads.ne_nil (h : Reads part ts es rest) : es ≠ [] := by
  induction h with
  | unary _ _ _ ih | mark _ _ ih => exact ih
  | _ => simp

def Parsing.Part.CurrentTidy : Part → Prop
  | .alternatives c | .items c | .repetitions c => c.Tidy
  | _ => True

theorem tidy_barTrivia (hts : SoundTokens ts) : (barTrivia ts).Tidy := by
  unfold barTrivia
  split
  · cases hts with
    | cons _ _ more => exact (Trivia.tidy_triviaAhead more).ifCommented
  · exact .empty

theorem SoundTokens.skipTrivia (h : SoundTokens ts) : SoundTokens (skipTrivia ts) :=
  h.of_suffix (skipTrivia_suffix ts)

theorem SoundTokens.sound (h : SoundTokens ts) : ∀ t ∈ ts, t.Sound := by
  induction h with
  | nil => simp
  | cons sound _ _ ih => exact List.forall_mem_cons.2 ⟨sound, ih⟩

theorem Parsing.Reads.tidy (h : Reads part ts es rest) (hts : SoundTokens ts)
    (hcurrent : part.CurrentTidy) : ∀ e ∈ es, e.Tidy := by
  induction h with
  | @choice ts mid rest e es first more ihFirst ihMore =>
    have hbar := hts.of_suffix (skipBar_suffix ts)
    have he := ihFirst hbar trivial e List.mem_cons_self
    have hes := ihMore (hbar.of_suffix first.suffix) (he.attach (tidy_barTrivia hts))
    exact List.forall_mem_singleton.2 (.join .choice more.ne_nil hes)
  | @alternative t ts mid rest c e es _ head _ ihHead ihMore =>
    have he := ihHead hts.tail.skipTrivia trivial e List.mem_cons_self
    have hes := ihMore (hts.tail.skipTrivia.of_suffix head.suffix) he
    exact List.forall_mem_cons.2
      ⟨hcurrent.attach (Trivia.tidy_triviaAhead hts.tail).withoutSpace, hes⟩
  | lastAlternative | lastItem | noMark => exact List.forall_mem_singleton.2 hcurrent
  | @sequence ts mid rest e es first more ihFirst ihMore =>
    have he := ihFirst hts trivial e List.mem_cons_self
    have hes := ihMore (hts.of_suffix first.suffix) he
    exact List.forall_mem_singleton.2 (.join .sequence more.ne_nil hes)
  | @item ts mid rest c e es _ head _ ihHead ihMore =>
    have he := ihHead hts trivial e List.mem_cons_self
    exact List.forall_mem_cons.2 ⟨hcurrent, ihMore (hts.of_suffix head.suffix) he⟩
  | @unary ts mid rest e es first _ ihFirst ihMore =>
    have he := ihFirst hts trivial e List.mem_cons_self
    exact ihMore (hts.of_suffix first.suffix) he
  | mark _ _ ih =>
    exact ih hts.tail.skipTrivia (.repeated hcurrent (Trivia.tidy_triviaAhead hts.tail))
  | @group t close ts rest e _ body _ ih =>
    have he := ih hts.tail.skipTrivia trivial e List.mem_cons_self
    have hrest := (hts.tail.skipTrivia.of_suffix body.suffix).tail
    exact List.forall_mem_singleton.2
      ((he.attach (Trivia.tidy_triviaAhead hts.tail).ifCommented).attach
        (Trivia.tidy_triviaAhead hrest))
  | terminal kind legal =>
    cases hts with
    | cons sound _ more =>
      exact List.forall_mem_singleton.2 (.leaf (Leaf.printable_of_legal
        (Leaf.ofTerminal_eq_ok_iff.1 legal) (sound.terminal kind)) (Trivia.tidy_triviaAhead more))
  | reference kind =>
    cases hts with
    | cons sound _ more =>
      exact List.forall_mem_singleton.2
        (.leaf (.reference (sound.word kind)) (Trivia.tidy_triviaAhead more))

/-- An entry as the parser leaves it. Its comment may hold the mark that no single one holds. -/
structure Production.Tidy (p : Production) : Prop where
  name : ∀ rule, p.rule = some rule → Bareword rule.name
  body : ∀ rule, p.rule = some rule → rule.body.Tidy
  comment : ∀ c ∈ p.comment, isLineEnd c = false

theorem noLineEnd_remarks (hts : SoundTokens ts) : ∀ c ∈ remarks ts, isLineEnd c = false := by
  intro c hc
  obtain ⟨t, ht, hc⟩ := List.mem_flatMap.1 hc
  obtain ⟨ht, hkind⟩ := List.mem_filter.1 ht
  have hsound := hts.sound t ((List.takeWhile_prefix isRemark).subset ht)
  obtain ⟨text, hvalue, htext⟩ := hsound.comment (by simpa using hkind)
  rw [hvalue] at hc
  exact htext.noLineEnd c hc

theorem Parsing.ReadsProduction.tidy {p : Production} (h : ReadsProduction (t :: ts) p rest)
    (hts : SoundTokens (t :: ts)) (hkind : t.kind = .word) : p.Tidy ∧ rest <:+ t :: ts := by
  have hparts : ∀ {breaks after mid : List Token} {colon : Token} {e : Expr},
      ts = breaks ++ colon :: after → Reads .choice (skipTrivia after) [e] mid →
      e.Tidy ∧ (∀ c ∈ (triviaAhead after).comment, isLineEnd c = false) ∧ mid <:+ t :: ts := by
    rintro breaks after mid colon e rfl hread
    have hafter : after <:+ t :: (breaks ++ colon :: after) :=
      ((List.suffix_cons _ _).trans (List.suffix_append _ _)).trans (List.suffix_cons _ _)
    have hskip := (skipTrivia_suffix after).trans hafter
    exact ⟨hread.tidy (hts.of_suffix hskip) trivial e List.mem_cons_self,
      (Trivia.tidy_triviaAhead (hts.of_suffix hafter)).comment.noLineEnd,
      hread.suffix.trans hskip⟩
  have hname : Bareword t.value := (hts.sound t List.mem_cons_self).word hkind
  cases h with
  | closed _ _ body =>
    obtain ⟨hbody, hleading, hsuffix⟩ := hparts rfl body
    have hrest := (List.suffix_cons _ _).trans hsuffix
    refine ⟨⟨?_, ?_, ?_⟩, (skips_skipRemarks _).suffix.trans hrest⟩
    · rintro _ ⟨⟩
      exact hname
    · rintro _ ⟨⟩
      exact hbody
    · exact List.forall_mem_append.2 ⟨hleading, noLineEnd_remarks (hts.of_suffix hrest)⟩
  | last _ _ body =>
    obtain ⟨hbody, hleading, hsuffix⟩ := hparts rfl body
    refine ⟨⟨?_, ?_, hleading⟩, hsuffix⟩
    · rintro _ ⟨⟩
      exact hname
    · rintro _ ⟨⟩
      exact hbody

theorem Parsing.ReadsHeader.bareword {n : Text} (h : ReadsHeader ts n rest) (hts : SoundTokens ts) :
    Bareword n := by
  cases h with
  | mk _ isName => exact (hts.sound _ (by simp)).word isName

theorem Parsing.ReadsEntries.tidy {name : Option Text} {ps : List Production}
    (h : ReadsEntries ts name ps) (hts : SoundTokens ts) :
    (∀ n ∈ name, Bareword n) ∧ ∀ p ∈ ps, p.Tidy := by
  induction h with
  | nil => simp
  | @comment t _ _ _ kind _ ih =>
    obtain ⟨hname, hps⟩ := ih (hts.tail.of_suffix (skips_lineEnd _).suffix)
    obtain ⟨text, hvalue, htext⟩ := (hts.sound t List.mem_cons_self).comment kind
    refine ⟨hname, List.forall_mem_cons.2 ⟨⟨by simp, by simp, ?_⟩, hps⟩⟩
    rw [hvalue]
    exact htext.noLineEnd
  | newline _ _ ih =>
    obtain ⟨hname, hps⟩ := ih hts.tail
    exact ⟨hname, List.forall_mem_cons.2 ⟨⟨by simp, by simp, by simp⟩, hps⟩⟩
  | whitespace _ _ ih => exact ih hts.tail
  | header _ _ head _ ih =>
    obtain ⟨hname, hps⟩ := ih (hts.of_suffix head.suffix)
    refine ⟨fun n hn => ?_, hps⟩
    obtain hn | ⟨-, hn⟩ := Option.or_eq_some_iff.1 hn
    · exact hname n hn
    · obtain rfl := Option.some.inj hn
      exact head.bareword hts
  | production kind _ rule _ ih =>
    obtain ⟨hp, hsuffix⟩ := rule.tidy hts kind
    obtain ⟨hname, hps⟩ := ih (hts.of_suffix hsuffix)
    exact ⟨hname, List.forall_mem_cons.2 ⟨hp, hps⟩⟩

namespace Grammar

variable {source name text : Text} {g : Grammar}

structure Tidy (g : Grammar) : Prop where
  newline : IsNewline g.newline
  productions : ∀ p ∈ g.productions, p.Tidy

theorem isNewline_newlineOf (hts : SoundTokens ts) : IsNewline (newlineOf ts) := by
  rw [newlineOf]
  cases hfind : ts.find? (·.kind == .newline) with
  | none => exact .inl rfl
  | some t =>
    have hkind : t.kind = .newline := by simpa using List.find?_some hfind
    exact (hts.sound t (List.mem_of_find?_eq_some hfind)).newline hkind

theorem tidy_of_ofText (h : ofText source name text = .ok g) : g.Tidy := by
  obtain ⟨ts, n, ps, htext, hread, rfl⟩ := ofText_eq_ok_iff.1 h
  have hts := TokenList.sound_ofText htext
  exact ⟨isNewline_newlineOf hts, (hread.tidy hts).2⟩

theorem name_of_ofText (h : ofText source name text = .ok g) : g.name = name ∨ Bareword g.name := by
  obtain ⟨ts, n, ps, htext, hread, rfl⟩ := ofText_eq_ok_iff.1 h
  cases n with
  | none => exact .inl rfl
  | some n => exact .inr ((hread.tidy (TokenList.sound_ofText htext)).1 n rfl)

theorem printable_of_ofText (h : ofText source name text = .ok g) :
    ∀ p ∈ g.productions, ∀ rule, p.rule = some rule → rule.body.Printable :=
  fun p hp rule hrule => (((tidy_of_ofText h).productions p hp).body rule hrule).printable

end Grammar

end GrammarCheck
