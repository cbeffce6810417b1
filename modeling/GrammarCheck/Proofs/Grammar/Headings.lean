import GrammarCheck.Proofs.Grammar.PrintedTwice

namespace GrammarCheck

variable {p : Production} {ps : List Production} {part : Text → Text}

namespace Production

def heading (part : Text → Text) (p : Production) : Option (Text × Text × Bool) :=
  p.rule.map fun rule => (rule.name, part p.comment, p.startsOnNewline)

theorem heading_withoutSpace (p : Production) : p.withoutSpace.heading part = p.heading part := by
  simp [heading, withoutSpace, Option.map_map, Function.comp_def]

theorem heading_reread (p : Production) : (p.reread part).heading id = p.heading part := by
  cases hrule : p.rule <;> simp [heading, reread, hrule]

theorem heading_of_isBlank (h : p.isBlank) : p.heading part = none := by
  simp [heading, Option.isNone_iff_eq_none.1 (Bool.and_eq_true_iff.1 h).1]

end Production

namespace Grammar

def headings : List Production → List (Text × Text × Bool)
  | [] => []
  | p :: ps =>
    (p.heading (if ps.all Production.isBlank then Text.trimRight else id)).toList ++ headings ps

namespace Line

def production? : Line → Option Production
  | .header _ => none
  | .entry p => some p

end Line

theorem headings_of_isBlank (h : ∀ p ∈ ps, p.isBlank) : headings ps = [] := by
  induction ps with
  | nil => rfl
  | cons p ps ih =>
    rw [List.forall_mem_cons] at h
    rw [headings, Production.heading_of_isBlank h.1, ih h.2]
    rfl

theorem headings_append_cons (hp : p.isBlank = false) (before : List Production)
    (hafter : ∀ p ∈ ps, p.isBlank) :
    headings (before ++ p :: ps) =
      before.filterMap (·.heading id) ++ (p.heading Text.trimRight).toList := by
  induction before with
  | nil =>
    rw [List.nil_append, headings, if_pos (List.all_eq_true.2 hafter), headings_of_isBlank hafter,
      List.append_nil]
    rfl
  | cons q before ih =>
    have hnot : (before ++ p :: ps).all Production.isBlank = false := by simp [hp]
    rw [List.cons_append, headings, if_neg (by simp [hnot]), ih, ← List.append_assoc,
      List.filterMap_cons]
    cases q.heading id <;> rfl

variable {g g' : Grammar} {source source' text : Text}

theorem filterMap_production?_lines (g : Grammar) :
    g.lines.filterMap Line.production? = g.productions := by
  have hentries : (g.productions.map Line.entry).filterMap Line.production? = g.productions := by
    rw [List.filterMap_map]
    exact List.filterMap_some
  rw [lines, List.filterMap_append, hentries]
  split <;> rfl

theorem isBlank_production? {ls : List Line} (h : ∀ l ∈ ls, l.isBlank) :
    ∀ p ∈ ls.filterMap Line.production?, p.isBlank := by
  intro p hp
  obtain ⟨l, hl, hproduction⟩ := List.mem_filterMap.1 hp
  cases l with
  | header => cases hproduction
  | entry q =>
    cases hproduction
    exact h _ hl

theorem headings_reread (p : Production) :
    (Line.reread part (.entry p)).filterMap (·.heading id) = (p.heading part).toList := by
  simp only [Line.reread, List.filterMap_cons, p.heading_reread]
  cases p.heading part <;> rfl

theorem headings_flatMap_reread (ls : List Line) :
    (ls.flatMap (Line.reread part)).filterMap (·.heading id) =
      (ls.filterMap Line.production?).filterMap (·.heading part) := by
  induction ls with
  | nil => rfl
  | cons l ls ih =>
    rw [List.flatMap_cons, List.filterMap_append, ih]
    cases l with
    | header => rfl
    | entry p =>
      rw [List.filterMap_cons_some (f := Line.production?) rfl, List.filterMap_cons,
        headings_reread]
      cases p.heading part <;> rfl

theorem eq_nil_of_header {before after : List Line} {n : Text}
    (h : g.lines = before ++ .header n :: after) : before = [] := by
  have hnot : Line.header n ∉ g.productions.map Line.entry := by
    intro hmem
    obtain ⟨_, -, heq⟩ := List.mem_map.1 hmem
    cases heq
  cases before with
  | nil => rfl
  | cons l before =>
    have htail : Line.header n ∈ g.lines.tail := by
      rw [h, List.cons_append, List.tail_cons]
      exact List.mem_append_right _ List.mem_cons_self
    rw [lines] at htail
    split at htail
    · exact absurd (List.mem_of_mem_tail htail) hnot
    · exact absurd htail hnot

theorem headings_of_kept {qs : List Production} (h : Kept g.lines (qs.map Production.withoutSpace)) :
    qs.filterMap (·.heading id) = headings g.productions := by
  have hqs : (qs.map Production.withoutSpace).filterMap (·.heading id) =
      qs.filterMap (·.heading id) := by
    rw [List.filterMap_map]
    exact List.filterMap_congr fun q _ => q.heading_withoutSpace
  rw [← hqs, ← filterMap_production?_lines]
  generalize qs.map Production.withoutSpace = read at h
  cases h with
  | none hblank =>
    rw [headings_of_isBlank (isBlank_production? hblank)]
    rfl
  | @within before init after last heq hbefore hfirst hlast hafter =>
    rw [List.filterMap_append, headings_flatMap_reread]
    cases last with
    | header n =>
      rw [← List.append_assoc] at heq
      obtain ⟨rfl, rfl⟩ := List.append_eq_nil_iff.1 (eq_nil_of_header heq)
      rw [heq]
      exact (headings_of_isBlank (isBlank_production? hafter)).symm
    | entry p =>
      have hlines : g.lines.filterMap Line.production? =
          (before.filterMap Line.production? ++ init.filterMap Line.production?) ++
            p :: after.filterMap Line.production? := by
        rw [heq, List.filterMap_append, List.filterMap_append, List.append_assoc]
        rfl
      have hnone : (before.filterMap Line.production?).filterMap (·.heading id) = [] :=
        List.filterMap_eq_nil_iff.2 fun q hq =>
          Production.heading_of_isBlank (isBlank_production? hbefore q hq)
      rw [hlines, headings_append_cons hlast _ (isBlank_production? hafter), List.filterMap_append,
        hnone, List.nil_append, headings_reread]

/-- The text of a parsed grammar is read back exactly if no comment holds the mark that no comment
may hold, and then with the same name and headings. -/
theorem reread_iff (h : ofText source [] text = .ok g) (source' : Text) :
    ((∃ g', ofText source' [] g.print = .ok g') ↔
        ∀ p ∈ g.productions, Text.closesGroup p.comment = false) ∧
      ∀ g', ofText source' [] g.print = .ok g' →
        g'.name = g.name ∧ g'.productions.filterMap (·.heading id) = headings g.productions := by
  constructor
  · constructor
    · rintro ⟨g', hg'⟩ p hp
      exact ((Printable.of_reread h hg').productions p hp).comment.noClose
    · intro hcomments
      have hprintable := (tidy_of_ofText h).printable (name_of_ofText h) hcomments
      obtain ⟨g', hg', -⟩ := hprintable.exists_ofText source'
      exact ⟨g', hg'⟩
  · intro g' hg'
    obtain ⟨g'', hg'', hname, hkept, -⟩ := (Printable.of_reread h hg').exists_ofText source'
    obtain rfl := Except.ok.inj (hg'.symm.trans hg'')
    exact ⟨hname, headings_of_kept hkept⟩

theorem reread_iff_comments :
    ∃ g, ofText [] [] "r: //x\na; //y \n\ns: 'b'".toList = .ok g ∧
      ((∃ g', ofText [] [] g.print = .ok g') ↔
        ∀ p ∈ g.productions, Text.closesGroup p.comment = false) ∧
      ∀ g', ofText [] [] g.print = .ok g' →
        g'.name = g.name ∧ g'.productions.filterMap (·.heading id) = headings g.productions := by
  have hprint : (ofText [] [] "r: //x\na; //y \n\ns: 'b'".toList).toOption.map print =
      some "r:\n\t| a;  //xy \n\ns:\t'b';\n".toList := by decide +kernel
  obtain ⟨g, hg, -⟩ := exists_ofText_of_map hprint
  exact ⟨g, hg, reread_iff hg []⟩

/-- The comments of a rule are put together without a space, which can give the mark that no comment
may hold. -/
theorem reread_refuses_glued_comments :
    ∃ g, ofText [] [] "r: //*\na; //)".toList = .ok g ∧
      ∀ g', ofText [] [] g.print ≠ .ok g' := by
  have hprint : (ofText [] [] "r: //*\na; //)".toList).toOption.map print =
      some "r:\n\t| a;  //*)\n".toList := by decide +kernel
  have hrefused : (ofText [] [] "r:\n\t| a;  //*)\n".toList).toOption.isNone := by decide +kernel
  obtain ⟨g, hg, hprinted⟩ := exists_ofText_of_map hprint
  refine ⟨g, hg, fun g' hg' => ?_⟩
  rw [← hprinted, hg'] at hrefused
  cases hrefused

end Grammar

end GrammarCheck
