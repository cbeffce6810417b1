import GrammarCheck.Proofs.Grammar.Lines
import GrammarCheck.Proofs.Parsing.Completeness

namespace GrammarCheck

open Parsing

variable {t line : Token} {ts us rest breaks gap : List Token} {e : Expr} {es : List Expr}
  {part : Part} {p : Production} {ps ps' : List Production} {name name' : Option Text}

theorem skipTrivia_append (h : skipTrivia ts ≠ []) (us : List Token) :
    skipTrivia (ts ++ us) = skipTrivia ts ++ us := by
  rw [skipTrivia, List.dropWhile_append, if_neg (by simpa [skipTrivia] using h), skipTrivia]

theorem triviaAhead_append (h : skipTrivia ts ≠ []) (us : List Token) :
    triviaAhead (ts ++ us) = triviaAhead ts := by
  have htake : (ts ++ us).takeWhile Token.isTrivia = ts.takeWhile Token.isTrivia := by
    rw [List.takeWhile_append, if_neg]
    intro hlength
    apply h
    have hwhole := (List.takeWhile_prefix Token.isTrivia (l := ts)).eq_of_length hlength
    have hsplit := List.takeWhile_append_dropWhile (p := Token.isTrivia) (l := ts)
    rwa [hwhole, List.append_right_eq_self] at hsplit
  rw [triviaAhead, htake, triviaAhead]

theorem skipBar_append (h : skipBar ts ≠ []) (us : List Token) :
    skipBar (ts ++ us) = skipBar ts ++ us ∧ barTrivia (ts ++ us) = barTrivia ts := by
  cases ts with
  | nil => exact absurd rfl h
  | cons t ts =>
    obtain ⟨kind, value, position⟩ := t
    cases kind with
    | bar => exact ⟨skipTrivia_append h us, congrArg Trivia.ifCommented (triviaAhead_append h us)⟩
    | _ => exact ⟨rfl, rfl⟩

theorem endsSequence_append (h : ts ≠ []) (us : List Token) :
    endsSequence (ts ++ us) = endsSequence ts := by
  cases ts with
  | nil => contradiction
  | cons => rfl

theorem forall_head_append {P : Token → Prop} (hne : ts ≠ []) (h : ∀ t ∈ ts.head?, P t)
    (us : List Token) : ∀ t ∈ (ts ++ us).head?, P t := by
  cases ts with
  | nil => contradiction
  | cons => exact h

/-- A part that leaves some token looks at nothing behind it. -/
theorem Parsing.Reads.append (h : Reads part ts es rest) (hrest : rest ≠ []) (us : List Token) :
    Reads part (ts ++ us) es (rest ++ us) := by
  induction h with
  | @choice ts mid rest e es first more ihFirst ihMore =>
    have hmid := more.suffix.ne_nil hrest
    obtain ⟨hskip, htrivia⟩ := skipBar_append (first.suffix.ne_nil hmid) us
    have hfirst := ihFirst hmid
    have hmore := ihMore hrest
    rw [← hskip] at hfirst
    rw [← htrivia] at hmore
    exact .choice hfirst hmore
  | @alternative t ts mid rest c e es bar head more ihHead ihMore =>
    have hmid := more.suffix.ne_nil hrest
    have hskip := head.suffix.ne_nil hmid
    have hhead := ihHead hmid
    rw [← skipTrivia_append hskip] at hhead
    rw [← triviaAhead_append hskip us]
    exact .alternative bar hhead (ihMore hrest)
  | lastAlternative noBar => exact .lastAlternative (forall_head_append hrest noBar us)
  | sequence _ more ihFirst ihMore =>
    exact .sequence (ihFirst (more.suffix.ne_nil hrest)) (ihMore hrest)
  | item goesOn head more ihHead ihMore =>
    have hmid := more.suffix.ne_nil hrest
    refine .item ?_ (ihHead hmid) (ihMore hrest)
    rwa [endsSequence_append (head.suffix.ne_nil hmid)]
  | lastItem ends => exact .lastItem (by rwa [endsSequence_append hrest])
  | unary _ more ihFirst ihMore =>
    exact .unary (ihFirst (more.suffix.ne_nil hrest)) (ihMore hrest)
  | @mark t ts rest c es r mark more ih =>
    have hskip := more.suffix.ne_nil hrest
    have hmore := ih hrest
    rw [← triviaAhead_append hskip us, ← skipTrivia_append hskip] at hmore
    exact .mark mark hmore
  | noMark noMark => exact .noMark (forall_head_append hrest noMark us)
  | @group t close ts rest e opening body closing ih =>
    have hskip := body.suffix.ne_nil (List.cons_ne_nil close rest)
    have hbody := ih (List.cons_ne_nil close rest)
    rw [← skipTrivia_append hskip] at hbody
    rw [← skipTrivia_append hrest, ← triviaAhead_append hrest us, ← triviaAhead_append hskip us]
    exact .group opening hbody closing
  | @terminal t ts l kind legal =>
    rw [← skipTrivia_append hrest, ← triviaAhead_append hrest us]
    exact .terminal kind legal
  | @reference t ts kind =>
    rw [← skipTrivia_append hrest, ← triviaAhead_append hrest us]
    exact .reference kind

def Parsing.EndsClosed (ts : List Token) : Prop := ∀ s ∈ (meaning ts).getLast?, s.1 = .semicolon

theorem Parsing.EndsClosed.of_suffix (h : EndsClosed ts) (hus : us <:+ ts) : EndsClosed us := by
  obtain ⟨before, rfl⟩ := hus
  intro s hs
  apply h
  rw [meaning_append, List.getLast?_append, Option.mem_def.1 hs]
  rfl

def content (ps : List Production) : List Production := ps.filter (!·.isBlank)

theorem content_cons (p : Production) (ps : List Production) :
    content (p :: ps) = content [p] ++ content ps :=
  List.filter_append [p] ps

def Parsing.ReadsContent (ts : List Token) (name : Option Text) (ps : List Production) : Prop :=
  ∃ qs, ReadsEntries ts name qs ∧ content qs = ps

namespace Parsing.ReadsContent

theorem cons (h : ReadsContent us name ps)
    (hentry : ∀ {qs}, ReadsEntries us name qs → ReadsEntries ts name (p :: qs)) :
    ReadsContent ts name (content [p] ++ ps) := by
  obtain ⟨qs, hqs, rfl⟩ := h
  exact ⟨p :: qs, hentry hqs, content_cons p qs⟩

theorem newline (kind : t.kind = .newline) (h : ReadsContent ts name ps) :
    ReadsContent (t :: ts) name ps :=
  h.cons (p := {}) (.newline kind)

theorem whitespace (kind : t.kind = .whitespace) (h : ReadsContent ts name ps) :
    ReadsContent (t :: ts) name ps := by
  obtain ⟨qs, hqs, hcontent⟩ := h
  exact ⟨qs, .whitespace kind hqs, hcontent⟩

end Parsing.ReadsContent

section Line

variable (isNewline : line.kind = .newline)
include isNewline

end Line

end GrammarCheck
