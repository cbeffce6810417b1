import GrammarCheck.Proofs.Grammar.Differences
import GrammarCheck.Proofs.Spec.Steps
import GrammarCheck.Spec.Check

/-!
Where a rule that is defined more than once is looked for. A comparison takes the last definition,
while the report and the link of a difference lead to the first block that has one.
-/

namespace GrammarCheck

namespace Grammar

variable {g g' : Grammar} {start : Text} {d : Difference}

theorem last?_of_mismatch (h : d ∈ g.compare g' start) (hkind : d.kind = .mismatch) :
    ∃ q, g'.last? d.name = some q ∧ d.copyText = some (q.print defaultNewline) := by
  have hmem : d ∈ Difference.ofKind .mismatch (g.compare g' start) :=
    List.mem_filter.2 ⟨h, decide_eq_true hkind⟩
  rw [ofKind_mismatch_compare] at hmem
  obtain ⟨name, -, hd⟩ := List.mem_filterMap.1 hmem
  rw [mismatch?] at hd
  split at hd
  · rename_i p q hp hq
    split at hd
    · cases hd
    · cases hd
      exact ⟨q, hq, rfl⟩
  · cases hd

end Grammar

namespace Spec

variable {settings : Settings} {documents : List Document} {counter counter' : BookmarkCounter}
  {s : Spec} {f : Fragment} {fs : List Fragment} {name : Text}

namespace Fragment

def productions (f : Fragment) : List Production :=
  match Grammar.ofText (Grammar.sourceName (some f.filename) []) [] f.code with
  | .error _ => []
  | .ok g => g.productions

def linked (f : Fragment) : List Production := f.productions.map (linkTo f.within)

theorem mem_linked {p : Production} :
    p ∈ f.linked ↔ ∃ q ∈ f.productions, linkTo f.within q = p := List.mem_map

end Fragment

structure Gathered (s : Spec) : Prop where
  names : ∀ f ∈ s.fragments, f.names = f.productions.filterMap (·.name)
  productions : s.grammar.productions = s.fragments.flatMap Fragment.linked

theorem Gathered.step {d : Document} {block : Block} {r r' : Reader} (h : Gathered r.spec)
    (hstep : Reader.Step d r block r') : Gathered r'.spec := by
  cases hstep with
  | passed | untitled | tooDeep | dropped | counted => exact ⟨h.names, h.productions⟩
  | @parsed code language g reports _ parses _ =>
    have hproductions : (r.gathered d code language g).productions = g.productions := by
      simp only [Fragment.productions, Reader.gathered, parses]
    refine ⟨?_, ?_⟩
    · intro f hf
      obtain hf | hf := List.mem_append.1 hf
      · exact h.names f hf
      · obtain rfl := List.mem_singleton.1 hf
        rw [hproductions]
        rfl
    · rw [Reader.withFragment, List.flatMap_append, List.flatMap_singleton, h.productions,
        Fragment.linked, hproductions]
      rfl

theorem gathered_of_read (h : read documents settings counter = .ok (s, counter')) :
    Gathered s := by
  obtain ⟨r, rfl, -, hr⟩ := read_keeps (fun _ r => Gathered r.spec) ⟨nofun, rfl⟩
    (fun _ _ _ h => ⟨h.names, h.productions⟩) (fun _ _ _ _ _ _ _ hstep h => h.step hstep) h
  exact hr

theorem contains_names (ps : List Production) (name : Text) :
    (ps.filterMap (·.name)).contains name = (ps.find? (·.name == some name)).isSome := by
  rw [Bool.eq_iff_iff, List.find?_isSome]
  simp

theorem find?_flatMap_linked (hnames : ∀ f ∈ fs, f.names = f.productions.filterMap (·.name))
    (h : fs.find? (·.names.contains name) = some f) :
    ∃ p ∈ f.productions, (fs.flatMap Fragment.linked).find? (·.name == some name) =
      some (linkTo f.within p) := by
  induction fs with
  | nil => cases h
  | cons g fs ih =>
    have hlinked : g.linked.find? (·.name == some name) =
        (g.productions.find? (·.name == some name)).map (linkTo g.within) := List.find?_map ..
    rw [List.find?_cons, hnames g List.mem_cons_self, contains_names] at h
    rw [List.flatMap_cons, List.find?_append, hlinked]
    cases hfind : g.productions.find? (·.name == some name) with
    | none =>
      rw [hfind] at h
      exact ih (fun f hf => hnames f (List.mem_cons_of_mem g hf)) h
    | some p =>
      rw [hfind] at h
      cases h
      exact ⟨p, List.mem_of_find?_eq_some hfind, rfl⟩

theorem Gathered.find?_eq (h : Gathered s) (hfind : s.find? name = some f) :
    ∃ p ∈ f.productions, s.grammar.find? name = some (linkTo f.within p) := by
  rw [Grammar.find?, h.productions]
  exact find?_flatMap_linked h.names hfind

theorem Gathered.exists_of_mem (h : Gathered s) {p : Production} (hp : p ∈ s.grammar.productions) :
    ∃ f ∈ s.fragments, ∃ q ∈ f.productions, linkTo f.within q = p := by
  rw [h.productions] at hp
  obtain ⟨f, hf, hp⟩ := List.mem_flatMap.1 hp
  exact ⟨f, hf, Fragment.mem_linked.1 hp⟩

theorem Gathered.mem_of_mem (h : Gathered s) (hf : f ∈ s.fragments) {p : Production}
    (hp : p ∈ f.productions) : linkTo f.within p ∈ s.grammar.productions := by
  rw [h.productions]
  exact List.mem_flatMap.2 ⟨f, hf, Fragment.mem_linked.2 ⟨p, hp, rfl⟩⟩

theorem Gathered.find?_isSome (h : Gathered s) {p : Production} (hp : p ∈ s.grammar.productions)
    (hname : p.name = some name) : ∃ f, s.find? name = some f := by
  obtain ⟨f, hf, q, hq, rfl⟩ := h.exists_of_mem hp
  apply Option.isSome_iff_exists.1
  rw [Spec.find?, List.find?_isSome]
  refine ⟨f, hf, List.contains_iff_mem.2 ?_⟩
  rw [h.names f hf]
  exact List.mem_filterMap.2 ⟨q, hq, hname⟩

end Spec

namespace Check

open Spec

variable {settings : Settings} {documents : List Document} {counter counter' : BookmarkCounter}
  {authority : Option Grammar} {check : Check} {d : Difference} {f : Fragment} {name text : Text}

/-- A rule is looked for where it has this text: in the block that a report locates it in, and at
the end of the links of the authority. -/
structure PointsAt (check : Check) (name text : Text) : Prop where
  located : ∃ f, check.spec.find? name = some f ∧
    ∃ p ∈ f.productions, p.name = some name ∧ p.print defaultNewline = text
  linked : ∀ g ∈ check.authority, ∀ q ∈ g.productions, q.name = some name →
    ∃ p ∈ check.spec.grammar.productions, p.name = some name ∧ p.print defaultNewline = text ∧
      q.link = p.link ∧ q.linkName = p.linkName

theorem eq_of_run (h : run documents authority settings counter = .ok (check, counter')) :
    read documents settings counter = .ok (check.spec, counter') ∧
      check.authority = authority.map (·.link check.spec.grammar) ∧
      check.differences =
        (authority.map (·.compare check.spec.grammar settings.startProduction)).getD [] := by
  rw [run] at h
  cases hread : read documents settings counter with
  | error stopped => simp [hread, bind, Except.bind] at h
  | ok result =>
    obtain ⟨s, counter''⟩ := result
    simp only [hread, bind, Except.bind] at h
    cases authority with
    | none =>
      cases h
      exact ⟨rfl, rfl, rfl⟩
    | some g =>
      simp only [ofSpec] at h
      cases hreport : report s g (g.compare s.grammar settings.startProduction) with
      | error node => simp [hreport, bind, Except.bind] at h
      | ok reports =>
        rw [hreport] at h
        cases h
        exact ⟨rfl, rfl, rfl⟩

theorem link_of_mem_link {g g' : Grammar} {p q : Production} (hq : q ∈ (g.link g').productions)
    (hname : q.name = some name) (hfind : g'.find? name = some p) :
    q.link = p.link ∧ q.linkName = p.linkName := by
  obtain ⟨q, -, rfl⟩ := List.mem_map.1 hq
  cases hq' : q.name with
  | none => simp [hq'] at hname
  | some other =>
    simp only [hq'] at hname
    obtain rfl : other = name := Option.some.inj (hq'.symm.trans hname)
    simp [hfind]

theorem link_of_find? (h : Gathered check.spec)
    (hauthority : check.authority = authority.map (·.link check.spec.grammar))
    (hfind : check.spec.find? name = some f) :
    ∀ g ∈ check.authority, ∀ q ∈ g.productions, q.name = some name →
      q.link = (linkTo f.within q).link ∧ q.linkName = (linkTo f.within q).linkName := by
  intro g hg q hq hname
  rw [hauthority] at hg
  obtain ⟨g, -, rfl⟩ := Option.map_eq_some_iff.1 hg
  obtain ⟨first, -, hfirst⟩ := h.find?_eq hfind
  have hlink := link_of_mem_link hq hname hfirst
  exact hlink

theorem PointsAt.of_located (h : Gathered check.spec)
    (hauthority : check.authority = authority.map (·.link check.spec.grammar))
    (hfind : check.spec.find? name = some f)
    (hlocated : ∃ p ∈ f.productions, p.name = some name ∧ p.print defaultNewline = text) :
    PointsAt check name text := by
  refine ⟨⟨f, hfind, hlocated⟩, ?_⟩
  intro g hg q hq hname
  obtain ⟨p, hp, hpname, hprint⟩ := hlocated
  obtain ⟨hlink, hlinkName⟩ := link_of_find? h hauthority hfind g hg q hq hname
  exact ⟨linkTo f.within p, h.mem_of_mem (List.mem_of_find?_eq_some hfind) hp, hpname, hprint,
    hlink, hlinkName⟩

/-- A mismatch shows the last definition of a rule. The report is located at the first block that
defines it and the authority is linked there, so they lead to what was compared just if that block
has a definition of the same text: always, if it is the only one to define the rule. -/
theorem mismatch_points_at (hrun : run documents authority settings counter = .ok (check, counter'))
    (hd : d ∈ check.differences) (hkind : d.kind = .mismatch) :
    ∃ f last, check.spec.find? d.name = some f ∧ check.spec.grammar.last? d.name = some last ∧
      d.copyText = some (last.print defaultNewline) ∧
      (∀ g ∈ check.authority, ∀ q ∈ g.productions, q.name = some d.name →
        q.link = some ((f.within.map (·.url)).getD [])) ∧
      (PointsAt check d.name (last.print defaultNewline) ↔
        ∃ p ∈ f.productions, p.name = some d.name ∧
          p.print defaultNewline = last.print defaultNewline) ∧
      ((∀ f' ∈ check.spec.fragments, d.name ∈ f'.names → f' = f) →
        PointsAt check d.name (last.print defaultNewline)) := by
  obtain ⟨hread, hauthority, hdifferences⟩ := eq_of_run hrun
  have hgathered := gathered_of_read hread
  rw [hdifferences] at hd
  cases authority with
  | none => cases hd
  | some g =>
    obtain ⟨last, hlast, htext⟩ := Grammar.last?_of_mismatch hd hkind
    have hmem := (Grammar.exists_rule_of_last? hlast).1
    have hname : last.name = some d.name := by simpa using List.find?_some hlast
    obtain ⟨f, hfind⟩ := hgathered.find?_isSome hmem hname
    have hlinks := link_of_find? hgathered hauthority hfind
    refine ⟨f, last, hfind, hlast, htext, fun g hg q hq hname => (hlinks g hg q hq hname).1,
      ⟨?_, .of_located hgathered hauthority hfind⟩, ?_⟩
    · rintro ⟨⟨f', hfind', hlocated⟩, -⟩
      rw [hfind] at hfind'
      exact Option.some.inj hfind' ▸ hlocated
    · intro honly
      obtain ⟨f', hf', p, hp, rfl⟩ := hgathered.exists_of_mem hmem
      obtain rfl := honly f' hf' (by
        rw [hgathered.names f' hf']
        exact List.mem_filterMap.2 ⟨p, hp, hname⟩)
      exact .of_located hgathered hauthority hfind ⟨p, hp, hname, rfl⟩

theorem mismatch_points_at_only_block :
    ∃ (document : Document) (g : Grammar) (check : Check) (counter' : BookmarkCounter)
      (d : Difference),
      document.blocks = [.heading 1 (.run [.text ['A']]),
        .code "a:c;b:a;".toList (some "antlr".toList)] ∧
      run [document] (some g) {} {} = .ok (check, counter') ∧ d ∈ check.differences ∧
      d.kind = .mismatch ∧
      ∃ f last, check.spec.find? d.name = some f ∧ check.spec.grammar.last? d.name = some last ∧
        d.copyText = some (last.print defaultNewline) ∧
        (∀ g ∈ check.authority, ∀ q ∈ g.productions, q.name = some d.name →
          q.link = some ((f.within.map (·.url)).getD [])) ∧
        (PointsAt check d.name (last.print defaultNewline) ↔
          ∃ p ∈ f.productions, p.name = some d.name ∧
            p.print defaultNewline = last.print defaultNewline) ∧
        ((∀ f' ∈ check.spec.fragments, d.name ∈ f'.names → f' = f) →
          PointsAt check d.name (last.print defaultNewline)) := by
  let document : Document := ⟨['x'], [], [.heading 1 (.run [.text ['A']]),
    .code "a:c;b:a;".toList (some "antlr".toList)]⟩
  let g : Grammar := ⟨[], [{ rule := some ⟨['a'], .leaf (.reference ['b']) {}⟩ }], ['\n']⟩
  have hdifferences : (run [document] (some g) {} {}).toOption.map (·.1.differences) =
      some [⟨.mismatch, ['a'], some "a:\tb;\r\n".toList, some "a:\tc;\r\n".toList⟩,
        ⟨.extraInCopy, ['b'], none, none⟩] := by
    decide +kernel
  obtain ⟨⟨check, counter'⟩, hresult, hdifferences⟩ := Option.map_eq_some_iff.1 hdifferences
  have hrun := eq_ok_of_toOption hresult
  have hd : (⟨.mismatch, ['a'], some "a:\tb;\r\n".toList, some "a:\tc;\r\n".toList⟩ :
      Difference) ∈ check.differences := by
    rw [hdifferences]
    exact List.mem_cons_self
  exact ⟨document, g, check, counter', _, rfl, hrun, hd, rfl, mismatch_points_at hrun hd rfl⟩

/-- With a definition in each of two blocks, the report of the later one leads to the earlier. -/
theorem mismatch_points_elsewhere :
    ∃ (document : Document) (g : Grammar) (check : Check) (counter' : BookmarkCounter)
      (d : Difference) (text : Text),
      document.blocks = [.heading 1 (.run [.text ['A']]),
        .code "a:b;".toList (some "antlr".toList), .heading 1 (.run [.text ['B']]),
        .code "a:c;".toList (some "antlr".toList)] ∧
      run [document] (some g) {} {} = .ok (check, counter') ∧ d ∈ check.differences ∧
      d.kind = .mismatch ∧ d.copyText = some text ∧
      (¬∃ f, check.spec.find? d.name = some f ∧
        ∃ p ∈ f.productions, p.name = some d.name ∧ p.print defaultNewline = text) ∧
      ∃ g' ∈ check.authority, ∃ q ∈ g'.productions, q.name = some d.name ∧
        ∀ p ∈ check.spec.grammar.productions, p.print defaultNewline = text → q.link ≠ p.link := by
  let document : Document := ⟨['x'], [], [.heading 1 (.run [.text ['A']]),
    .code "a:b;".toList (some "antlr".toList), .heading 1 (.run [.text ['B']]),
    .code "a:c;".toList (some "antlr".toList)]⟩
  let g : Grammar := ⟨[], [{ rule := some ⟨['a'], .leaf (.reference ['b']) {}⟩ }], ['\n']⟩
  have hdifferences : (run [document] (some g) {} {}).toOption.map (·.1.differences) =
      some [⟨.mismatch, ['a'], some "a:\tb;\r\n".toList, some "a:\tc;\r\n".toList⟩] := by
    decide +kernel
  have hfound : (run [document] (some g) {} {}).toOption.map (fun result =>
        (result.1.spec.find? ['a']).map (·.productions.map (·.print defaultNewline))) =
      some (some ["a:\tb;\r\n".toList]) := by
    decide +kernel
  have hlinked : (run [document] (some g) {} {}).toOption.map (fun result =>
        result.1.authority.map (·.productions.map fun q => (q.name, q.link))) =
      some (some [(some ['a'], some "x#a".toList)]) := by
    decide +kernel
  have hproductions : (run [document] (some g) {} {}).toOption.map (fun result =>
        result.1.spec.grammar.productions.map fun p => (p.print defaultNewline, p.link)) =
      some [("a:\tb;\r\n".toList, some "x#a".toList),
        ("a:\tc;\r\n".toList, some "x#b".toList)] := by
    decide +kernel
  obtain ⟨⟨check, counter'⟩, hresult, hdifferences⟩ := Option.map_eq_some_iff.1 hdifferences
  rw [hresult] at hfound hlinked hproductions
  have hfound := Option.some.inj hfound
  have hlinked := Option.some.inj hlinked
  have hproductions := Option.some.inj hproductions
  dsimp only at hdifferences hfound hlinked hproductions
  refine ⟨document, g, check, counter', ⟨.mismatch, ['a'], _, _⟩, _, rfl, eq_ok_of_toOption hresult,
    by rw [hdifferences]; exact List.mem_cons_self, rfl, rfl, ?_, ?_⟩
  · rintro ⟨f, hfind, p, hp, -, hprint⟩
    rw [hfind] at hfound
    have hmem : p.print defaultNewline ∈ ["a:\tb;\r\n".toList] :=
      Option.some.inj hfound ▸ List.mem_map_of_mem hp
    rw [hprint] at hmem
    exact absurd hmem (by decide)
  · obtain ⟨g', hg', hrules⟩ := Option.map_eq_some_iff.1 hlinked
    obtain ⟨q, hq, hrule⟩ := List.map_eq_singleton_iff.1 hrules
    obtain ⟨hname, hlink⟩ := Prod.mk.inj hrule
    refine ⟨g', hg', q, hq ▸ List.mem_singleton_self q, hname, ?_⟩
    intro p hp hprint hsame
    have hmem : (p.print defaultNewline, p.link) ∈
        [("a:\tb;\r\n".toList, some "x#a".toList), ("a:\tc;\r\n".toList, some "x#b".toList)] :=
      hproductions ▸ List.mem_map_of_mem hp
    rw [hprint, ← hsame, hlink] at hmem
    exact absurd hmem (by decide)

end Check

end GrammarCheck
