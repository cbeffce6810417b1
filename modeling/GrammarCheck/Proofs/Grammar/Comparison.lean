import GrammarCheck.Grammar.Comparison
import GrammarCheck.Proofs.Grammar.Parsed
import GrammarCheck.Proofs.Grammar.Printed

namespace GrammarCheck

variable {newline r r' name : Text} {e e' : Expr} {p q : Production}

/-- Expressions printed up to a semicolon are told apart by their normal forms. -/
theorem Expr.Printable.normal_eq_of_print (h : e.Printable) (h' : e'.Printable)
    (hnewline : IsNewline newline)
    (hprint : e.print newline ++ ';' :: r = e'.print newline ++ ';' :: r') :
    e.normal = e'.normal ∧ r = r' := by
  have hends : ∀ r : Text, EndsWord (';' :: r) := fun r => by simp [EndsWord, Text.stopsWord]
  obtain ⟨d, hd, hnormal⟩ := h.derives
  obtain ⟨d', hd', hnormal'⟩ := h'.derives
  have hlexed := (h.spells hnewline).lexed (';' :: r) fun _ => hends r
  have hlexed' := (h'.spells hnewline).lexed (';' :: r') fun _ => hends r'
  rw [← hprint] at hlexed'
  obtain ⟨hsymbols, hrest⟩ := hlexed.unique_upTo_semicolon hlexed'
    (fun s hs => (hd.kinds s hs).2) (fun s hs => (hd'.kinds s hs).2)
  rw [← hsymbols] at hd'
  rw [← hnormal, ← hnormal', hd.unique hd']
  exact ⟨rfl, hrest⟩

namespace Production

def opening (newline : Text) (startsOnNewline : Bool) : Text :=
  if startsOnNewline then newline ++ ['\t', '|', ' '] else ['\t']

def closing (newline comment : Text) : Text :=
  (if comment.isEmpty then [] else ' ' :: ' ' :: '/' :: '/' :: comment) ++ newline

theorem print_of_rule {rule : Rule} (h : p.rule = some rule) :
    p.print newline = rule.name ++ (':' :: (opening newline p.startsOnNewline ++
      (rule.body.print newline ++ ';' :: closing newline p.comment))) := by
  simp [print, h, opening, closing]

theorem opening_injective (hnewline : IsNewline newline) {b b' : Bool}
    (h : opening newline b ++ r = opening newline b' ++ r') : b = b' ∧ r = r' := by
  have hne : ∀ x y : Text, newline ++ x ≠ '\t' :: y := by
    intro x y
    obtain rfl | rfl | rfl := hnewline <;> simp
  cases b <;> cases b'
  · exact ⟨rfl, List.append_cancel_left h⟩
  · exact absurd (by simpa [opening] using h.symm) (hne _ r)
  · exact absurd (by simpa [opening] using h) (hne _ r')
  · exact ⟨rfl, List.append_cancel_left h⟩

theorem closing_injective {c c' : Text} (h : closing newline c = closing newline c') : c = c' := by
  have hcancel := List.append_cancel_right h
  cases c <;> cases c' <;> simp_all

theorem eq_of_print {rule rule' : Rule} (hp : p.rule = some rule) (hq : q.rule = some rule')
    (hname : rule.name = rule'.name) (hbody : rule.body.Printable) (hbody' : rule'.body.Printable)
    (hnewline : IsNewline newline) (h : p.print newline = q.print newline) :
    rule.body.normal = rule'.body.normal ∧ p.comment = q.comment ∧
      p.startsOnNewline = q.startsOnNewline := by
  rw [print_of_rule hp, print_of_rule hq, hname] at h
  obtain ⟨hstarts, hrest⟩ :=
    opening_injective hnewline (List.cons.inj (List.append_cancel_left h)).2
  obtain ⟨hnormal, hclosing⟩ := hbody.normal_eq_of_print hbody' hnewline hrest
  exact ⟨hnormal, closing_injective hclosing, hstarts⟩

end Production

namespace RuleTable

theorem mem_of_find? {table : RuleTable} (h : table.find? name = some p) :
    (name, p) ∈ table.entries := by
  obtain ⟨before, after, hentries, -⟩ := List.lookup_eq_some_iff.1 h
  rw [hentries]
  simp

theorem names_put (name : Text) (p : Production) (entries : List (Text × Production)) :
    (put name p entries).map (·.1) =
      if name ∈ entries.map (·.1) then entries.map (·.1) else entries.map (·.1) ++ [name] := by
  induction entries with
  | nil => rfl
  | cons entry entries ih =>
    obtain ⟨other, q⟩ := entry
    by_cases h : other = name
    · simp [put, h]
    · rw [put, if_neg h, List.map_cons, ih]
      simp only [List.map_cons, List.mem_cons, Ne.symm h, false_or]
      split <;> rfl

theorem nodup_names_insert {table : RuleTable} (h : table.names.Nodup) (p : Production) :
    (table.insert p).names.Nodup := by
  unfold insert
  split
  · exact h
  · rename_i name _
    rw [names, names_put]
    split
    · exact h
    · rename_i hnew
      exact List.nodup_append.2 ⟨h, by simp, by simpa using fun a ha => ne_of_mem_of_not_mem ha hnew⟩

theorem nodup_names_ofGrammar (g : Grammar) : (ofGrammar g).names.Nodup :=
  List.foldlRecOn (motive := fun table : RuleTable => table.names.Nodup) g.productions insert
    List.nodup_nil fun _ h p _ => nodup_names_insert h p

theorem find?_of_mem {table : RuleTable} (h : table.names.Nodup) (hmem : (name, p) ∈ table.entries) :
    table.find? name = some p := by
  obtain ⟨before, after, hentries⟩ := List.append_of_mem hmem
  refine List.lookup_eq_some_iff.2 ⟨before, after, hentries, ?_⟩
  rw [names, hentries, List.map_append, List.map_cons, List.nodup_append] at h
  intro entry hentry
  exact bne_iff_ne.2 (h.2.2 _ (List.mem_map_of_mem hentry) _ List.mem_cons_self).symm

theorem find?_insert (table : RuleTable) (p : Production) (name : Text) :
    (table.insert p).find? name = if p.name = some name then some p else table.find? name := by
  unfold insert
  cases h : p.name with
  | none => simp
  | some other => simpa [find?, eq_comm] using lookup_put other name p table.entries

theorem find?_foldl_insert (ps : List Production) (table : RuleTable) (name : Text) :
    (ps.foldl insert table).find? name =
      (ps.reverse.find? (·.name == some name)).or (table.find? name) := by
  induction ps generalizing table with
  | nil => rfl
  | cons p ps ih =>
    rw [List.foldl_cons, ih, find?_insert, List.reverse_cons, List.find?_append, Option.or_assoc]
    congr 1
    by_cases h : p.name = some name <;> simp [h]

end RuleTable

namespace Grammar

variable {g g' : Grammar} {start : Text}

def last? (g : Grammar) (name : Text) : Option Production :=
  g.productions.reverse.find? (·.name == some name)

theorem find?_ruleTable (g : Grammar) (name : Text) :
    (RuleTable.ofGrammar g).find? name = g.last? name :=
  (RuleTable.find?_foldl_insert g.productions ⟨[]⟩ name).trans Option.or_none

theorem print_eq_of_compare (hp : g.last? name = some p) (hq : g'.last? name = some q)
    (h : ∀ d ∈ g.compare g' start, d.name = name → d.kind ≠ .mismatch) :
    p.print defaultNewline = q.print defaultNewline := by
  rw [← find?_ruleTable] at hp hq
  apply Decidable.byContradiction
  intro hne
  have hmem : ⟨.mismatch, name, some (p.print defaultNewline), some (q.print defaultNewline)⟩ ∈
      (RuleTable.ofGrammar g).mismatches (RuleTable.ofGrammar g') := by
    refine List.mem_filterMap.2 ⟨(name, p), RuleTable.mem_of_find? hp, ?_⟩
    simp [hq, hne]
  exact h _ (List.mem_append_left _ (List.mem_append_left _ hmem)) rfl rfl

theorem exists_rule_of_last? (hp : g.last? name = some p) :
    p ∈ g.productions ∧ ∃ body, p.rule = some ⟨name, body⟩ := by
  refine ⟨List.mem_reverse.1 (List.mem_of_find?_eq_some hp), ?_⟩
  have hname : p.name = some name := by simpa using List.find?_some hp
  obtain ⟨⟨n, body⟩, hrule, rfl⟩ := Option.map_eq_some_iff.1 hname
  exact ⟨body, hrule⟩

/-- No mismatch is missed: rules of one name that a comparison of parsed grammars does not report
have bodies of the same normal form, the same comment and the same start. -/
theorem same_rules_of_compare {source source' default default' text text' : Text}
    (hg : ofText source default text = .ok g) (hg' : ofText source' default' text' = .ok g')
    (hp : g.last? name = some p) (hq : g'.last? name = some q)
    (h : ∀ d ∈ g.compare g' start, d.name = name → d.kind ≠ .mismatch) :
    p.body.map Expr.normal = q.body.map Expr.normal ∧ p.comment = q.comment ∧
      p.startsOnNewline = q.startsOnNewline := by
  obtain ⟨hmem, body, hrule⟩ := exists_rule_of_last? hp
  obtain ⟨hmem', body', hrule'⟩ := exists_rule_of_last? hq
  have hbody := printable_of_ofText hg p hmem _ hrule
  have hbody' := printable_of_ofText hg' q hmem' _ hrule'
  obtain ⟨hnormal, hcomment, hstarts⟩ :=
    Production.eq_of_print hrule hrule' rfl hbody hbody' (.inl rfl)
    (print_eq_of_compare hp hq h)
  exact ⟨by simp [Production.body, hrule, hrule', hnormal], hcomment, hstarts⟩

theorem same_rules_of_compare_parens :
    ∃ g g' p q, ofText [] [] "a:b c|d;//x".toList = .ok g ∧
      ofText [] [] "a:b(c)|d;//x".toList = .ok g' ∧
      g.last? ['a'] = some p ∧ g'.last? ['a'] = some q ∧
      (∀ d ∈ g.compare g' defaultStart, d.name = ['a'] → d.kind ≠ .mismatch) ∧
      p.body.map Expr.normal = q.body.map Expr.normal ∧ p.comment = q.comment ∧
      p.startsOnNewline = q.startsOnNewline := by
  let p : Production :=
    { rule := some ⟨['a'], .group .choice
        [.group .sequence [.leaf (.reference ['b']) { whitespace := [' '] },
          .leaf (.reference ['c']) {}] [] {}, .leaf (.reference ['d']) {}] [] {}⟩
      comment := ['x'] }
  let q : Production :=
    { rule := some ⟨['a'], .group .choice
        [.group .sequence [.leaf (.reference ['b']) {}, .leaf (.reference ['c']) {}] [] {},
          .leaf (.reference ['d']) {}] [] {}⟩
      comment := ['x'] }
  have hg : ofText [] [] "a:b c|d;//x".toList = .ok ⟨[], [p], ['\r', '\n']⟩ := by
    with_unfolding_all rfl
  have hg' : ofText [] [] "a:b(c)|d;//x".toList = .ok ⟨[], [q], ['\r', '\n']⟩ := by
    with_unfolding_all rfl
  have hp : last? ⟨[], [p], ['\r', '\n']⟩ ['a'] = some p := rfl
  have hq : last? ⟨[], [q], ['\r', '\n']⟩ ['a'] = some q := rfl
  have hnone : ∀ d ∈ compare ⟨[], [p], ['\r', '\n']⟩ ⟨[], [q], ['\r', '\n']⟩ defaultStart,
      d.name = ['a'] → d.kind ≠ .mismatch := by
    decide +kernel
  exact ⟨_, _, p, q, hg, hg', hp, hq, hnone, same_rules_of_compare hg hg' hp hq hnone⟩

end Grammar

end GrammarCheck
