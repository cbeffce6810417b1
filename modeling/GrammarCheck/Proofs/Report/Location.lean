import GrammarCheck.Proofs.Document.WellFormed
import GrammarCheck.Proofs.Text.Coordinates
import GrammarCheck.Proofs.Text.Lookup
import GrammarCheck.Report.Location

namespace GrammarCheck

def Text.searchIn {α : Type} (t : Text) (search : Text → α → Option Span) (sought : Option α) :
    Option Span → Option Span
  | none => sought.bind (search t)
  | some r => (sought.bind (search (r.slice t))).map (·.shift r.start)

def Text.findTarget (t : Text) (target : SectionTarget) : Option Span :=
  t.findSection target.level target.title

structure Matches where
  heading : Option Span
  paragraph : Option Span
  words : Option Span

variable {α : Type} {t filename : Text} {search : Text → α → Option Span} {sought : Option α}
  {within : Option Span} {s : Span}

namespace Matches

def of (t : Text) (target : Option SectionTarget) (paragraph span : Option (List Text)) : Matches :=
  let heading := t.searchIn Text.findTarget target none
  let block := t.searchIn Text.findParagraph paragraph heading
  ⟨heading, block, t.searchIn Text.findWords span (block.or heading)⟩

def last? (found : Matches) : Option (Precision × Span) :=
  (found.words.map (Precision.span, ·)).or
    ((found.paragraph.map (Precision.paragraph, ·)).or (found.heading.map (Precision.heading, ·)))

theorem last?_eq_none_iff {found : Matches} :
    found.last? = none ↔ found.heading = none ∧ found.paragraph = none ∧ found.words = none := by
  rw [last?, Option.or_eq_none_iff, Option.or_eq_none_iff, Option.map_eq_none_iff,
    Option.map_eq_none_iff, Option.map_eq_none_iff]
  tauto

end Matches

/-- As much of the places of the first and the last character as the match is precise. -/
def Location.between (filename : Text) (first last : Int × Int) : Precision → Location
  | .heading => { filename, startLine := some first.1 }
  | .paragraph => { filename, startLine := some first.1, endLine := some last.1 }
  | .span => ⟨filename, some first.1, some first.2, some last.1, some last.2⟩

structure Location.Leads (t filename : Text) (found : Matches) (precision : Precision) (s : Span)
    (location : Location) : Prop where
  proper : s.Proper t.length
  inHeading : ∀ r ∈ found.heading, r.Covers s
  inParagraph : ∀ r ∈ found.paragraph, r.Covers s
  places : ∃ first last : Int × Int, location = between filename first last precision ∧
    t.IsAt s.start first ∧ t.IsAt (s.stop - 1) last ∧
    1 ≤ first.1 ∧ first.1 ≤ last.1 ∧ last.1 ≤ (Line.all t).length ∧ 1 ≤ first.2 ∧ 1 ≤ last.2 ∧
    (first.1 < last.1 ∨ first.1 = last.1 ∧ first.2 ≤ last.2)

theorem exists_mapM_eq_ok {α β ε : Type} {f : α → Except ε β} {x : Option α}
    (h : ∀ a ∈ x, ∃ b, f a = .ok b) : ∃ y, x.mapM f = .ok y := by
  cases x with
  | none => exact ⟨none, rfl⟩
  | some a =>
    obtain ⟨b, hb⟩ := h a rfl
    refine ⟨some b, ?_⟩
    rw [Option.mapM_some, hb]
    rfl

theorem mapM_some_eq_ok {α β ε : Type} {f : α → Except ε β} {a : α} {y : Option β}
    (h : (some a).mapM f = .ok y) : ∃ b, f a = .ok b ∧ y = some b := by
  rw [Option.mapM_some] at h
  cases hb : f a with
  | error e => simp [hb] at h
  | ok b =>
    rw [hb] at h
    exact ⟨b, rfl, (Except.ok.inj h).symm⟩

def Text.FindsProper (search : Text → α → Option Span) : Prop :=
  ∀ t a s, search t a = some s → s.Proper t.length

theorem Text.findsProper_findTarget : FindsProper findTarget :=
  fun _ _ _ => proper_of_findSection

theorem Text.findsProper_findParagraph : FindsProper findParagraph :=
  fun _ _ _ => proper_of_findParagraph

theorem Text.findsProper_findWords : FindsProper findWords :=
  fun _ _ _ => proper_of_findWords

theorem Text.proper_of_searchIn (hsearch : FindsProper search)
    (hwithin : ∀ r ∈ within, r.Proper t.length) (h : t.searchIn search sought within = some s) :
    s.Proper t.length ∧ ∀ r ∈ within, r.Covers s := by
  cases within with
  | none =>
    obtain ⟨a, -, hs⟩ := Option.bind_eq_some_iff.1 h
    exact ⟨hsearch t a s hs, nofun⟩
  | some r =>
    obtain ⟨s, hmatch, rfl⟩ := Option.map_eq_some_iff.1 h
    obtain ⟨a, -, hs⟩ := Option.bind_eq_some_iff.1 hmatch
    obtain ⟨hproper, hcovers⟩ := (hwithin r rfl).shift (hsearch _ a s hs)
    refine ⟨hproper, ?_⟩
    rintro _ ⟨⟩
    exact hcovers

namespace Scope

variable {scope : Scope}

/-- The scope is the part of a text that is matched, or the whole text. -/
structure Sees (scope : Scope) (t : Text) (within : Option Span) : Prop where
  buffer : scope.buffer = (within.map (·.slice t)).getD t
  base : scope.base = (within.map (·.start)).getD 0
  proper : ∀ r ∈ within, r.Proper t.length

theorem sees_whole (t : Text) : (whole t).Sees t none := ⟨rfl, rfl, nofun⟩

theorem Sees.searchIn_eq (h : scope.Sees t within) (search : Text → α → Option Span)
    (sought : Option α) :
    t.searchIn search sought within =
      (sought.bind (search scope.buffer)).map (·.shift scope.base) := by
  rw [h.buffer, h.base]
  cases within with
  | none =>
    simp only [Option.map_none, Option.getD_none, Span.shift_zero, Option.map_id']
    rfl
  | some r => rfl

theorem Sees.hit (h : scope.Sees t within) (hs : s.Proper scope.buffer.length)
    (precision : Precision) :
    (scope.narrow precision (some s)).Sees t (some (s.shift scope.base)) := by
  obtain ⟨buffer, base, found⟩ := scope
  obtain ⟨rfl, rfl, hproper⟩ := h
  cases within with
  | none =>
    refine ⟨?_, ?_, ?_⟩
    · simp [Scope.narrow, Span.shift_zero]
    · simp [Scope.narrow, Span.shift_zero]
    · rintro _ ⟨⟩
      simpa [Span.shift_zero] using hs
  | some r =>
    have hr := hproper r rfl
    refine ⟨hr.slice_slice hs, Int.add_comm .., ?_⟩
    rintro _ ⟨⟩
    exact (hr.shift hs).1

theorem Sees.narrow (h : scope.Sees t within) (hsearch : Text.FindsProper search)
    (sought : Option α) (precision : Precision) :
    let hit := t.searchIn search sought within
    let next := scope.narrow precision (sought.bind (search scope.buffer))
    next.Sees t (hit.or within) ∧ next.found = (hit.map (precision, ·)).or scope.found := by
  dsimp only
  rw [h.searchIn_eq]
  cases hs : sought.bind (search scope.buffer) with
  | none => exact ⟨h, rfl⟩
  | some s =>
    obtain ⟨a, -, ha⟩ := Option.bind_eq_some_iff.1 hs
    exact ⟨h.hit (hsearch _ a s ha) precision, rfl⟩

theorem Sees.narrowHeading (h : scope.Sees t within) (target : Option SectionTarget) :
    let hit := t.searchIn Text.findTarget target within
    ∃ next, scope.narrowHeading target = next ∧ next.Sees t (hit.or within) ∧
      next.found = (hit.map (Precision.heading, ·)).or scope.found := by
  refine ⟨_, ?_, h.narrow Text.findsProper_findTarget target .heading⟩
  cases target <;> rfl

theorem Sees.narrowParagraph (h : scope.Sees t within) {paragraph : Option Block}
    {ws : Option (List Text)} (hws : paragraph.mapM Block.words = .ok ws) :
    let hit := t.searchIn Text.findParagraph ws within
    ∃ next, scope.narrowParagraph paragraph = .ok next ∧ next.Sees t (hit.or within) ∧
      next.found = (hit.map (Precision.paragraph, ·)).or scope.found := by
  refine ⟨_, ?_, h.narrow Text.findsProper_findParagraph ws .paragraph⟩
  cases paragraph with
  | none =>
    cases hws
    rfl
  | some block =>
    obtain ⟨found, hfound, rfl⟩ := mapM_some_eq_ok hws
    rw [Scope.narrowParagraph, hfound]
    rfl

theorem Sees.narrowSpan (h : scope.Sees t within) {span : Option Inline} {ws : Option (List Text)}
    (hws : span.mapM Inline.words = .ok ws) :
    let hit := t.searchIn Text.findWords ws within
    ∃ next, scope.narrowSpan span = .ok next ∧ next.Sees t (hit.or within) ∧
      next.found = (hit.map (Precision.span, ·)).or scope.found := by
  refine ⟨_, ?_, h.narrow Text.findsProper_findWords ws .span⟩
  cases span with
  | none =>
    cases hws
    rfl
  | some i =>
    obtain ⟨found, hfound, rfl⟩ := mapM_some_eq_ok hws
    rw [Scope.narrowSpan, hfound]
    rfl

end Scope

namespace Location

variable {found : Matches} {precision : Precision}

structure Nested (t : Text) (found : Matches) : Prop where
  heading : ∀ r ∈ found.heading, r.Proper t.length
  paragraph : ∀ s ∈ found.paragraph, s.Proper t.length ∧ ∀ r ∈ found.heading, r.Covers s
  words : ∀ s ∈ found.words, s.Proper t.length ∧ ∀ r ∈ found.paragraph.or found.heading, r.Covers s

theorem nested_of (t : Text) (target : Option SectionTarget) (paragraph span : Option (List Text)) :
    Nested t (.of t target paragraph span) := by
  have hheading : ∀ r ∈ (Matches.of t target paragraph span).heading, r.Proper t.length := by
    intro r hr
    obtain ⟨target, -, h⟩ := Option.bind_eq_some_iff.1 hr
    exact Text.proper_of_findSection h
  have hparagraph : ∀ s ∈ (Matches.of t target paragraph span).paragraph, s.Proper t.length ∧
      ∀ r ∈ (Matches.of t target paragraph span).heading, r.Covers s :=
    fun s hs => Text.proper_of_searchIn Text.findsProper_findParagraph hheading hs
  refine ⟨hheading, hparagraph, ?_⟩
  intro s hs
  refine Text.proper_of_searchIn Text.findsProper_findWords ?_ hs
  intro r hr
  obtain hr | ⟨-, hr⟩ := Option.or_eq_some_iff.1 hr
  · exact (hparagraph r hr).1
  · exact hheading r hr

theorem Nested.last? (h : Nested t found) (hlast : found.last? = some (precision, s)) :
    s.Proper t.length ∧ (∀ r ∈ found.heading, r.Covers s) ∧ ∀ r ∈ found.paragraph, r.Covers s := by
  obtain ⟨heading, paragraph, words⟩ := found
  cases words with
  | some s' =>
    cases hlast
    obtain ⟨hproper, hcovers⟩ := h.words s rfl
    cases paragraph with
    | none => exact ⟨hproper, hcovers, nofun⟩
    | some p =>
      have hp := hcovers p rfl
      refine ⟨hproper, fun r hr => ((h.paragraph p rfl).2 r hr).trans hp, ?_⟩
      rintro _ ⟨⟩
      exact hp
  | none =>
    cases paragraph with
    | some p =>
      cases hlast
      obtain ⟨hproper, hcovers⟩ := h.paragraph s rfl
      refine ⟨hproper, hcovers, ?_⟩
      rintro _ ⟨⟩
      exact .refl s
    | none =>
      obtain ⟨r, rfl, hr⟩ := Option.map_eq_some_iff.1 hlast
      cases hr
      refine ⟨h.heading s rfl, ?_, nofun⟩
      rintro _ ⟨⟩
      exact .refl s

theorem exists_find_eq_ok {paragraph : Option Block} {span : Option Inline}
    {blockWords spanWords : Option (List Text)} (filename t : Text) (target : Option SectionTarget)
    (hblock : paragraph.mapM Block.words = .ok blockWords)
    (hspan : span.mapM Inline.words = .ok spanWords) :
    ∃ scope : Scope, find filename t target paragraph span = .ok (scope.location filename t) ∧
      scope.found = (Matches.of t target blockWords spanWords).last? := by
  obtain ⟨first, hfirst, hsees, hheading⟩ := (Scope.sees_whole t).narrowHeading target
  obtain ⟨second, hsecond, hsees, hparagraph⟩ := hsees.narrowParagraph hblock
  obtain ⟨third, hthird, -, hwords⟩ := hsees.narrowSpan hspan
  refine ⟨third, ?_, ?_⟩
  · rw [find, hfirst, hsecond]
    change second.narrowSpan span >>= _ = _
    rw [hthird]
    rfl
  · rw [hwords, hparagraph, hheading, Option.or_none, Scope.whole, Option.or_none]
    rfl

theorem leads_of_nested (h : Nested t found) {scope : Scope} (hfound : scope.found = found.last?)
    (hlast : found.last? = some (precision, s)) (filename : Text) :
    Leads t filename found precision s (scope.location filename t) := by
  obtain ⟨hproper, hheading, hparagraph⟩ := h.last? hlast
  have hnonneg := hproper.nonneg
  have hlt := hproper.lt
  have ht : t ≠ [] := by
    rintro rfl
    have hle := hproper.le
    rw [List.length_nil] at hle
    omega
  have hfirst : t.IsAt s.start (t.lineCol s.start) := Text.isAt_lineCol ht hnonneg
  have hend : t.IsAt (s.stop - 1) (t.lineCol (s.stop - 1)) := Text.isAt_lineCol ht (by omega)
  refine ⟨hproper, hheading, hparagraph, _, _, ?_, hfirst, hend, ?_⟩
  · have hmax : max (s.stop - 1) s.start = s.stop - 1 := by omega
    rw [Scope.location, hfound, hlast]
    dsimp only
    rw [hmax]
    cases precision <;> rfl
  · have hfirst' := hfirst.line_bounds
    have hend' := hend.line_bounds
    have hle := hfirst.le_of_le hend (by omega)
    refine ⟨hfirst'.1, ?_, hend'.2.1, hfirst'.2.2, hend'.2.2, hle⟩
    omega

/-- An element made of supported nodes always has a location: the file alone where nothing matches,
and else the lines and columns of a range that lies inside the matches before it. -/
theorem find_leads {paragraph : Option Block} {span : Option Inline}
    (hparagraph : ∀ block ∈ paragraph, block.Supported) (hspan : ∀ i ∈ span, i.Supported)
    (filename t : Text) (target : Option SectionTarget) :
    ∃ blockWords spanWords location, paragraph.mapM Block.words = .ok blockWords ∧
      span.mapM Inline.words = .ok spanWords ∧
      find filename t target paragraph span = .ok location ∧
      let found := Matches.of t target blockWords spanWords
      (found.heading = none ∧ found.paragraph = none ∧ found.words = none ∧
        location = { filename }) ∨
      ∃ precision s, found.last? = some (precision, s) ∧
        Leads t filename found precision s location := by
  obtain ⟨blockWords, hblock⟩ := exists_mapM_eq_ok fun block h => (hparagraph block h).words_eq_ok
  obtain ⟨spanWords, hwords⟩ := exists_mapM_eq_ok fun i h => (hspan i h).words_eq_ok
  obtain ⟨scope, hfind, hfound⟩ := exists_find_eq_ok filename t target hblock hwords
  refine ⟨blockWords, spanWords, _, hblock, hwords, hfind, ?_⟩
  have hnested := nested_of t target blockWords spanWords
  generalize Matches.of t target blockWords spanWords = found at hfound hnested ⊢
  cases hlast : found.last? with
  | none =>
    left
    obtain ⟨hheading, hparagraph, hspan⟩ := Matches.last?_eq_none_iff.1 hlast
    refine ⟨hheading, hparagraph, hspan, ?_⟩
    rw [Scope.location, hfound, hlast]
  | some last =>
    right
    obtain ⟨precision, s⟩ := last
    exact ⟨precision, s, hlast, leads_of_nested hnested hfound hlast filename⟩

theorem find_leads_second_line :
    let t := "# T\n\nSee the\n**goto** here\n".toList
    let word : Inline := .strong [.text "goto".toList]
    let block : Block :=
      .paragraph [.text "See the".toList, .lineBreak true, word, .text " here".toList]
    (word.Supported ∧ block.Supported) ∧ ∃ blockWords spanWords precision s,
      (some block).mapM Block.words = .ok blockWords ∧
      (some word).mapM Inline.words = .ok spanWords ∧
      Leads t ['f'] (.of t (some ⟨1, ['T']⟩) blockWords spanWords) precision s
        ⟨['f'], some 4, some 3, some 4, some 9⟩ := by
  intro t word block
  have hword : word.Supported := .strong (by simpa using Inline.Supported.text)
  have hblock : block.Supported := by
    refine .paragraph ?_
    simp only [List.forall_mem_cons]
    exact ⟨.text, .lineBreak, hword, .text, fun _ h => absurd h List.not_mem_nil⟩
  have hfound : (find ['f'] t (some ⟨1, ['T']⟩) (some block) (some word)).toOption =
      some ⟨['f'], some 4, some 3, some 4, some 9⟩ := by decide +kernel
  refine ⟨⟨hword, hblock⟩, ?_⟩
  obtain ⟨blockWords, spanWords, location, hblockWords, hspanWords, hfind, hleads⟩ :=
    @find_leads (some block) (some word) (by simpa using hblock) (by simpa using hword) ['f'] t
      (some ⟨1, ['T']⟩)
  rw [hfind] at hfound
  obtain rfl := Option.some.inj hfound
  obtain ⟨-, -, -, hbare⟩ | ⟨precision, s, -, hleads⟩ := hleads
  · cases hbare
  · exact ⟨blockWords, spanWords, precision, s, hblockWords, hspanWords, hleads⟩

end Location

end GrammarCheck
