import GrammarCheck.Proofs.Grammar.Comparison
import GrammarCheck.Proofs.Grammar.Spacing

namespace GrammarCheck

theorem eraseDups_concat (names : List Text) (name : Text) :
    (names ++ [name]).eraseDups =
      if name ∈ names then names.eraseDups else names.eraseDups ++ [name] := by
  rw [List.eraseDups_append]
  by_cases h : name ∈ names <;> simp [List.removeAll, h, List.eraseDups_cons]

theorem map_filterMap_of_key {α β : Type} {f : α → Option β} {key : β → α} (xs : List α)
    (h : ∀ x, ∀ y ∈ f x, key y = x) :
    (xs.filterMap f).map key = xs.filter fun x => (f x).isSome := by
  induction xs with
  | nil => rfl
  | cons x xs ih =>
    cases hx : f x with
    | none => simp [hx, ih]
    | some y => simp [hx, ih, h x y hx]

namespace Difference

def swap (d : Difference) : Difference :=
  { d with authorityText := d.copyText, copyText := d.authorityText }

def ofKind (kind : Kind) (ds : List Difference) : List Difference := ds.filter (·.kind = kind)

@[simp] theorem ofKind_append (kind : Kind) (ds ds' : List Difference) :
    ofKind kind (ds ++ ds') = ofKind kind ds ++ ofKind kind ds' := List.filter_append ..

theorem ofKind_eq_self {kind : Kind} {ds : List Difference} (h : ∀ d ∈ ds, d.kind = kind) :
    ofKind kind ds = ds :=
  List.filter_eq_self.2 fun d hd => decide_eq_true (h d hd)

theorem ofKind_eq_nil {kind kind' : Kind} {ds : List Difference} (h : ∀ d ∈ ds, d.kind = kind)
    (hne : kind ≠ kind') : ofKind kind' ds = [] := by
  apply List.filter_eq_nil_iff.2
  intro d hd
  simpa [h d hd] using hne

def ofNames (kind : Kind) (names : List Text) : List Difference :=
  names.map fun name => { kind, name }

theorem kind_of_mem_ofNames {kind : Kind} {names : List Text} {d : Difference}
    (h : d ∈ ofNames kind names) : d.kind = kind := by
  obtain ⟨_, -, rfl⟩ := List.mem_map.1 h
  rfl

theorem names_ofNames (kind : Kind) (names : List Text) :
    (ofNames kind names).map (·.name) = names := by
  simp [ofNames, Function.comp_def]

end Difference

namespace RuleTable

theorem names_foldl_insert (ps : List Production) (table : RuleTable) (names : List Text)
    (h : table.names = names.eraseDups) :
    (ps.foldl insert table).names = (names ++ ps.filterMap (·.name)).eraseDups := by
  induction ps generalizing table names with
  | nil => simpa using h
  | cons p ps ih =>
    rw [List.foldl_cons]
    cases hname : p.name with
    | none =>
      rw [insert, hname, List.filterMap_cons_none hname]
      exact ih table names h
    | some name =>
      rw [List.filterMap_cons_some hname, List.append_cons]
      apply ih
      rw [RuleTable.names] at h
      rw [insert, hname, RuleTable.names, names_put, eraseDups_concat, h]
      simp only [List.mem_eraseDups]

theorem names_ofGrammar (g : Grammar) : (ofGrammar g).names = g.ruleNames.eraseDups :=
  names_foldl_insert g.productions ⟨[]⟩ [] rfl

end RuleTable

namespace Grammar

open Difference

variable {g g' : Grammar} {start name : Text} {d : Difference}

def distinctNames (g : Grammar) : List Text := g.ruleNames.eraseDups

theorem nodup_distinctNames (g : Grammar) : g.distinctNames.Nodup := by
  rw [distinctNames, ← RuleTable.names_ofGrammar]
  exact RuleTable.nodup_names_ofGrammar g

theorem mem_distinctNames : name ∈ g.distinctNames ↔ name ∈ g.ruleNames := List.mem_eraseDups

theorem last?_isSome_iff : (g.last? name).isSome ↔ name ∈ g.ruleNames := by
  rw [last?, List.find?_isSome]
  simp [ruleNames]

theorem last?_eq_none_iff : g.last? name = none ↔ name ∉ g.ruleNames := by
  rw [← last?_isSome_iff, Option.not_isSome_iff_eq_none]

def mismatch? (g g' : Grammar) (name : Text) : Option Difference :=
  match g.last? name, g'.last? name with
  | some p, some q =>
    if p.print defaultNewline = q.print defaultNewline then none
    else some ⟨.mismatch, name, some (p.print defaultNewline), some (q.print defaultNewline)⟩
  | _, _ => none

theorem mismatch?_eq_some (h : g.mismatch? g' name = some d) :
    name ∈ g.ruleNames ∧ name ∈ g'.ruleNames ∧ d.kind = .mismatch ∧ d.name = name := by
  rw [mismatch?] at h
  split at h
  · rename_i p q hp hq
    split at h
    · cases h
    · cases h
      exact ⟨last?_isSome_iff.1 (by simp [hp]), last?_isSome_iff.1 (by simp [hq]), rfl, rfl⟩
  · cases h

theorem mismatch?_swap (g g' : Grammar) (name : Text) :
    g'.mismatch? g name = (g.mismatch? g' name).map swap := by
  rw [mismatch?, mismatch?]
  cases g.last? name with
  | none => cases g'.last? name <;> rfl
  | some p =>
    cases g'.last? name with
    | none => rfl
    | some q =>
      by_cases h : p.print defaultNewline = q.print defaultNewline
      · simp [h]
      · simp [h, Ne.symm h, swap]

def common (g g' : Grammar) : List Text := g.distinctNames.filter (· ∈ g'.ruleNames)

theorem mem_common : name ∈ g.common g' ↔ name ∈ g.ruleNames ∧ name ∈ g'.ruleNames := by
  simp [common, mem_distinctNames]

theorem common_perm (g g' : Grammar) : (g'.common g).Perm (g.common g') := by
  apply (List.perm_ext_iff_of_nodup (g'.nodup_distinctNames.filter _)
    (g.nodup_distinctNames.filter _)).2
  intro name
  exact mem_common.trans (and_comm.trans mem_common.symm)

theorem filterMap_common (g g' : Grammar) :
    (g.common g').filterMap (g.mismatch? g') = g.distinctNames.filterMap (g.mismatch? g') := by
  rw [common, List.filterMap_filter]
  apply List.filterMap_congr
  intro name _
  split
  · rfl
  · rename_i habsent
    cases h : g.mismatch? g' name with
    | none => rfl
    | some d => exact absurd (decide_eq_true (mismatch?_eq_some h).2.1) habsent

def absentFrom (g g' : Grammar) (start : Text) : List Text :=
  g.distinctNames.filter fun name => name ≠ start ∧ name ∉ g'.ruleNames

theorem mem_absentFrom :
    name ∈ g.absentFrom g' start ↔ name ∈ g.ruleNames ∧ name ≠ start ∧ name ∉ g'.ruleNames := by
  simp [absentFrom, mem_distinctNames]

theorem mismatches_eq (g g' : Grammar) :
    (RuleTable.ofGrammar g).mismatches (RuleTable.ofGrammar g') =
      g.distinctNames.filterMap (g.mismatch? g') := by
  rw [distinctNames, ← RuleTable.names_ofGrammar, RuleTable.names, List.filterMap_map]
  apply List.filterMap_congr
  intro entry hentry
  obtain ⟨name, p⟩ := entry
  simp only [Function.comp_apply, mismatch?, last?_of_mem hentry, find?_ruleTable]
  cases g'.last? name <;> rfl

theorem lacking_eq (g g' : Grammar) (start : Text) :
    (RuleTable.ofGrammar g).lacking start (RuleTable.ofGrammar g') = g.absentFrom g' start := by
  rw [RuleTable.lacking, RuleTable.names_ofGrammar, absentFrom, distinctNames]
  apply List.filter_congr
  intro name _
  rw [find?_ruleTable, Bool.eq_iff_iff]
  simp [last?_eq_none_iff]

theorem compare_eq (g g' : Grammar) (start : Text) :
    g.compare g' start =
      g.distinctNames.filterMap (g.mismatch? g') ++
      ofNames .missingInCopy (g.absentFrom g' start) ++
      ofNames .extraInCopy (g'.absentFrom g start) := by
  rw [Grammar.compare, mismatches_eq, lacking_eq, lacking_eq]
  rfl

theorem kind_of_mem_mismatches
    (h : d ∈ g.distinctNames.filterMap (g.mismatch? g')) : d.kind = .mismatch := by
  obtain ⟨name, -, hd⟩ := List.mem_filterMap.1 h
  exact (mismatch?_eq_some hd).2.2.1

theorem ofKind_mismatch_compare (g g' : Grammar) (start : Text) :
    ofKind .mismatch (g.compare g' start) = g.distinctNames.filterMap (g.mismatch? g') := by
  rw [compare_eq, ofKind_append, ofKind_append,
    ofKind_eq_self fun _ => kind_of_mem_mismatches,
    ofKind_eq_nil (fun _ => kind_of_mem_ofNames) (by decide),
    ofKind_eq_nil (fun _ => kind_of_mem_ofNames) (by decide), List.append_nil, List.append_nil]

theorem ofKind_missing_compare (g g' : Grammar) (start : Text) :
    ofKind .missingInCopy (g.compare g' start) =
      ofNames .missingInCopy (g.absentFrom g' start) := by
  rw [compare_eq, ofKind_append, ofKind_append,
    ofKind_eq_nil (fun _ => kind_of_mem_mismatches) (by decide),
    ofKind_eq_self fun _ => kind_of_mem_ofNames,
    ofKind_eq_nil (fun _ => kind_of_mem_ofNames) (by decide), List.nil_append, List.append_nil]

theorem ofKind_extra_compare (g g' : Grammar) (start : Text) :
    ofKind .extraInCopy (g.compare g' start) = ofNames .extraInCopy (g'.absentFrom g start) := by
  rw [compare_eq, ofKind_append, ofKind_append,
    ofKind_eq_nil (fun _ => kind_of_mem_mismatches) (by decide),
    ofKind_eq_nil (fun _ => kind_of_mem_ofNames) (by decide),
    ofKind_eq_self fun _ => kind_of_mem_ofNames, List.nil_append, List.nil_append]

theorem names_mismatches (g g' : Grammar) :
    (g.distinctNames.filterMap (g.mismatch? g')).map (·.name) =
      g.distinctNames.filter fun name => (g.mismatch? g' name).isSome :=
  map_filterMap_of_key _ fun _ _ hd => (mismatch?_eq_some hd).2.2.2

theorem nodup_names_compare (g g' : Grammar) (start : Text) :
    ((g.compare g' start).map (·.name)).Nodup := by
  have hmismatch : ∀ name ∈ g.distinctNames.filter fun name => (g.mismatch? g' name).isSome,
      name ∈ g.ruleNames ∧ name ∈ g'.ruleNames := by
    intro name hname
    obtain ⟨d, hd⟩ := Option.isSome_iff_exists.1 (List.mem_filter.1 hname).2
    exact ⟨(mismatch?_eq_some hd).1, (mismatch?_eq_some hd).2.1⟩
  rw [compare_eq, List.map_append, List.map_append, names_mismatches, names_ofNames, names_ofNames]
  apply List.nodup_append.2
  refine ⟨List.nodup_append.2 ⟨g.nodup_distinctNames.filter _, g.nodup_distinctNames.filter _, ?_⟩,
    g'.nodup_distinctNames.filter _, ?_⟩
  · rintro name hname _ habsent rfl
    exact (mem_absentFrom.1 habsent).2.2 (hmismatch name hname).2
  · rintro name hname _ hextra rfl
    obtain ⟨-, -, hnot⟩ := mem_absentFrom.1 hextra
    obtain hname | hname := List.mem_append.1 hname
    · exact hnot (hmismatch name hname).1
    · exact hnot (mem_absentFrom.1 hname).1

theorem mismatches_swap_perm (g g' : Grammar) :
    (g'.distinctNames.filterMap (g'.mismatch? g)).Perm
      ((g.distinctNames.filterMap (g.mismatch? g')).map swap) := by
  rw [← filterMap_common g' g, ← filterMap_common g g', List.map_filterMap]
  simp only [← mismatch?_swap]
  exact (common_perm g g').filterMap _

/-- A comparison reports the names on which the last rules differ, then the names that the copy
lacks, then the names that only the copy has. No name comes twice, and the comparison the other way
round has the same mismatches with the sides swapped, and missing and extra rules change places. -/
theorem compare_exact (g g' : Grammar) (start : Text) :
    g.compare g' start =
        g.distinctNames.filterMap (g.mismatch? g') ++
        ofNames .missingInCopy (g.absentFrom g' start) ++
        ofNames .extraInCopy (g'.absentFrom g start) ∧
      ((g.compare g' start).map (·.name)).Nodup ∧
      (ofKind .extraInCopy (g'.compare g start)).map (·.name) =
        (ofKind .missingInCopy (g.compare g' start)).map (·.name) ∧
      (ofKind .missingInCopy (g'.compare g start)).map (·.name) =
        (ofKind .extraInCopy (g.compare g' start)).map (·.name) ∧
      (ofKind .mismatch (g'.compare g start)).Perm
        ((ofKind .mismatch (g.compare g' start)).map swap) := by
  refine ⟨compare_eq g g' start, nodup_names_compare g g' start, ?_, ?_, ?_⟩
  · rw [ofKind_extra_compare, ofKind_missing_compare, names_ofNames, names_ofNames]
  · rw [ofKind_missing_compare, ofKind_extra_compare, names_ofNames, names_ofNames]
  · rw [ofKind_mismatch_compare, ofKind_mismatch_compare]
    exact mismatches_swap_perm g g'

end Grammar

end GrammarCheck
