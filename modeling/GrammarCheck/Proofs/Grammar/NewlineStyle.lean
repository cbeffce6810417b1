import GrammarCheck.Proofs.Grammar.ColouredLines
import GrammarCheck.Proofs.Notation.Tokenized

/-!
The newline that a grammar records. It is the first line end of the text without the blanks around
it, so that line ends among these blanks are lost.
-/

namespace GrammarCheck

namespace Text

variable {c : Char} {t u newline : Text}

def lineEnds (t : Text) : List Text := ((Line.cut t).map (·.2)).filter (· ≠ [])

theorem lineEnds_cons (hc : isLineEnd c = false) (t : Text) : lineEnds (c :: t) = lineEnds t := by
  rw [lineEnds, lineEnds]
  cases hcut : Line.cut t with
  | nil =>
    rw [Line.cut_singleton hc hcut]
    rfl
  | cons line lines =>
    rw [Line.cut_cons hc hcut]
    rfl

theorem lineEnds_append_of_plain (hu : ∀ c ∈ u, isLineEnd c = false) (t : Text) :
    lineEnds (u ++ t) = lineEnds t := by
  induction u with
  | nil => rfl
  | cons c u ih =>
    obtain ⟨hc, hu⟩ := List.forall_mem_cons.1 hu
    rw [List.cons_append, lineEnds_cons hc, ih hu]

theorem lineEnds_newline (hnewline : IsNewline newline)
    (hwhole : newline = ['\r'] → t.head? ≠ some '\n') :
    lineEnds (newline ++ t) = newline :: lineEnds t := by
  have hne := hnewline.ne_nil
  rw [lineEnds, Line.cut_terminator hnewline hwhole, List.map_cons,
    List.filter_cons_of_pos (by simpa using hne), lineEnds]

/-- Texts have their line ends apart unless a carriage return and its line feed are parted. -/
theorem lineEnds_append (h : t.getLast? ≠ some '\r' ∨ u.head? ≠ some '\n') :
    lineEnds (t ++ u) = lineEnds t ++ lineEnds u := by
  fun_induction Line.cut t with
  | case1 => rfl
  | case2 t ih =>
    have hmore := ih (h.imp_left fun h => getLast?_ne_of_cons (getLast?_ne_of_cons h))
    have hends : ∀ v, lineEnds ('\r' :: '\n' :: v) = ['\r', '\n'] :: lineEnds v :=
      fun _ => lineEnds_newline (.inl rfl) (by simp)
    rw [List.cons_append, List.cons_append, hends, hends, hmore, List.cons_append]
  | case3 c t hno hline ih =>
    have hmore := ih (h.imp_left getLast?_ne_of_cons)
    have hnewline : IsNewline [c] := .inr (by simpa using isLineEnd_iff.1 hline)
    have hhead : c = '\r' → t.head? ≠ some '\n' := Line.head?_ne_of_not_feed hno
    have hhead' : c = '\r' → (t ++ u).head? ≠ some '\n' := by
      rintro rfl
      exact head?_append_ne h (hhead rfl)
    have hends := lineEnds_newline hnewline fun heq => hhead (List.singleton_inj.1 heq)
    have hends' := lineEnds_newline hnewline fun heq => hhead' (List.singleton_inj.1 heq)
    rw [List.singleton_append] at hends hends'
    rw [List.cons_append, hends, hends', hmore, List.cons_append]
  | case4 c t hno hline _ _ _ _ ih | case5 c t hno hline _ ih =>
    have hc : isLineEnd c = false := by simpa using hline
    rw [List.cons_append, lineEnds_cons hc, lineEnds_cons hc, ih (h.imp_left getLast?_ne_of_cons)]

theorem takeWhile_append_trim (t : Text) : t.trimRight.takeWhile isBlank ++ t.trim = t.trimRight :=
  List.takeWhile_append_dropWhile

theorem trimRight_append_drop (t : Text) : t.trimRight ++ t.drop t.trimRight.length = t := by
  have hstart := trimRight_prefix t
  exact List.prefix_iff_eq_append.1 hstart

theorem lineEnds_trim (t : Text) :
    t.lineEnds = lineEnds (t.trimRight.takeWhile isBlank) ++
      (t.trim.lineEnds ++ lineEnds (t.drop t.trimRight.length)) := by
  have hhead : t.trim.head? ≠ some '\n' := fun h => by
    cases isBlank_head_trim t '\n' h
  have hlast : t.trimRight.getLast? ≠ some '\r' := fun h => by
    cases isBlank_getLast_trimRight t '\r' h
  calc t.lineEnds = lineEnds (t.trimRight ++ t.drop t.trimRight.length) := by
        rw [trimRight_append_drop]
    _ = t.trimRight.lineEnds ++ lineEnds (t.drop t.trimRight.length) :=
        lineEnds_append (.inl hlast)
    _ = _ := by
        rw [← List.append_assoc, ← lineEnds_append (.inr hhead), takeWhile_append_trim]

end Text

/-- What a text is read as has its line ends among the symbols, all of them and in order. -/
theorem Tokenized.lineEnds_eq {t : Text} {ss : List Symbol} (h : Tokenized t ss []) :
    (ss.filter (·.1 == .newline)).map (·.2) = t.lineEnds := by
  generalize hend : [] = r at h
  induction h with
  | nil =>
    subst hend
    rfl
  | @space t r ss hblanks _ ih =>
    have hplain : ∀ c ∈ t.leadingSpace, isLineEnd c = false := fun c hc => by
      have hspace : isSpace c := List.all_eq_true.1 List.all_takeWhile c hc
      exact (isSpace_iff.1 hspace).2
    have ht : t = t.leadingSpace ++ t.dropWhile isSpace := List.takeWhile_append_dropWhile.symm
    rw [List.filter_cons_of_neg (by simp), ih hend, ht, Text.lineEnds_append_of_plain hplain, ← ht]
  | @token c t r value ss kind extra hfirst _ ih =>
    by_cases hkind : kind = .newline
    · subst hkind
      rw [List.filter_cons_of_pos rfl, List.map_cons, ih hend]
      obtain ⟨u, rfl, rfl, rfl, rfl⟩ | ⟨hhead, rfl, rfl, rfl⟩ | ⟨rfl, rfl, rfl⟩ :=
        Lexeme.newline_cases hfirst
      · exact (Text.lineEnds_newline (.inl rfl) nofun).symm
      · exact (Text.lineEnds_newline (.inr (.inl rfl)) fun _ => hhead).symm
      · exact (Text.lineEnds_newline (.inr (.inr rfl)) nofun).symm
    · have hplain := Lexeme.noLineEnd_of_first hfirst hkind
      have ht : c :: t = (c :: t.take extra) ++ t.drop extra := by simp
      rw [List.filter_cons_of_neg (by simpa using hkind), ih hend, ht,
        Text.lineEnds_append_of_plain hplain]

theorem eq_head?_append_iff {newline default : Text} {before inside behind : List Text}
    (h : newline = inside.head?.getD default) :
    newline = (before ++ (inside ++ behind)).head?.getD default ↔
      (∀ e ∈ before.head?, e = newline) ∧
        (before = [] → inside = [] → ∀ e ∈ behind.head?, e = newline) := by
  cases before with
  | cons e before => simp [eq_comm]
  | nil =>
    cases inside with
    | cons e inside => simp [h]
    | nil =>
      cases behind with
      | cons e behind => simp [eq_comm]
      | nil => simp [h]

namespace Grammar

variable {source name text : Text} {g : Grammar}

theorem newline_of_ofText (h : ofText source name text = .ok g) :
    g.newline = text.trim.lineEnds.head?.getD defaultNewline := by
  obtain ⟨ts, n, ps, htokens, -, rfl⟩ := ofText_eq_ok_iff.1 h
  have hread := TokenList.exists_ofText_iff.1 ⟨ts, htokens, rfl⟩
  change newlineOf ts.tokens = _
  rw [← hread.lineEnds_eq, List.filter_map, List.map_map, List.head?_map, List.head?_filter]
  rfl

theorem noLineEnd_name (h : ofText source name text = .ok g)
    (hname : ∀ c ∈ name, isLineEnd c = false) : ∀ c ∈ g.name, isLineEnd c = false := by
  obtain heq | hword := name_of_ofText h
  · rwa [heq]
  · exact fun c hc => not_isLineEnd_of_plain (hword.plain c hc).1

theorem exists_printed_lines (h : ofText source name text = .ok g)
    (hname : ∀ c ∈ name, isLineEnd c = false) :
    ∃ texts : List Text, (∀ line ∈ texts, ∀ c ∈ line, isLineEnd c = false) ∧
      g.print = Line.unite (texts.map (·, g.newline)) := by
  have htidy := tidy_of_ofText h
  have hspaced := spaced_of_ofText h
  obtain ⟨ls, -, hprint, hls, -⟩ := exists_closed_lines (f := id) fun p hp =>
    (htidy.productions p hp).alike (fun _ _ => rfl) (fun _ hl => hl.alike_none) (hspaced p hp)
  have hproductions : g.productions.map (·.mapLeaves id) = g.productions :=
    congrArg productions (mapLeaves_id g)
  rw [hproductions, text_closed_eq_unite] at hprint
  have hlines : ∀ line ∈ ls.map lineText, ∀ c ∈ line, isLineEnd c = false :=
    List.forall_mem_map.2 hls
  rw [print, hprint]
  by_cases hempty : g.name.isEmpty
  · exact ⟨ls.map lineText, hlines, by rw [if_pos hempty, List.nil_append]⟩
  · have hkeyword : ∀ c ∈ "grammar ".toList, isLineEnd c = false := by simp [isLineEnd]
    have hheader : ∀ c ∈ "grammar ".toList ++ g.name ++ [';'], isLineEnd c = false :=
      List.forall_mem_append.2 ⟨List.forall_mem_append.2 ⟨hkeyword, noLineEnd_name h hname⟩,
        List.forall_mem_singleton.2 rfl⟩
    refine ⟨_ :: ls.map lineText, List.forall_mem_cons.2 ⟨hheader, hlines⟩, ?_⟩
    rw [if_neg hempty, List.map_cons, Line.unite_cons, List.append_assoc]

theorem newline_of_mem_cut_print (h : ofText source name text = .ok g)
    (hname : ∀ c ∈ name, isLineEnd c = false) : ∀ line ∈ Line.cut g.print, line.2 = g.newline := by
  obtain ⟨texts, htexts, hprint⟩ := exists_printed_lines h hname
  rw [hprint, (Line.isCut_of_newline (tidy_of_ofText h).newline htexts).cut_unite]
  exact List.forall_mem_map.2 fun _ _ => rfl

/-- A grammar records the first line end of its text without the blanks around it, and all its printed
lines end in what it records. That is the first line end of the whole text unless another one comes
among the blanks: in front, or behind a text that has none of its own. -/
theorem newline_eq_first_of_trim (h : ofText source name text = .ok g) :
    let before := text.trimRight.takeWhile isBlank
    let behind := text.drop text.trimRight.length
    text = before ++ (text.trim ++ behind) ∧
      g.newline = text.trim.lineEnds.head?.getD defaultNewline ∧
      (g.newline = text.lineEnds.head?.getD defaultNewline ↔
        (∀ e ∈ (Text.lineEnds before).head?, e = g.newline) ∧
        (Text.lineEnds before = [] → text.trim.lineEnds = [] →
          ∀ e ∈ (Text.lineEnds behind).head?, e = g.newline)) ∧
      ((∀ c ∈ name, isLineEnd c = false) → ∀ line ∈ Line.cut g.print, line.2 = g.newline) := by
  intro before behind
  refine ⟨?_, newline_of_ofText h, ?_, newline_of_mem_cut_print h⟩
  · rw [← List.append_assoc, Text.takeWhile_append_trim, Text.trimRight_append_drop]
  · rw [Text.lineEnds_trim]
    exact eq_head?_append_iff (newline_of_ofText h)

theorem newline_eq_first_of_trim_return :
    ∃ g, ofText [] [] "\na:b;\rc:d;\n".toList = .ok g ∧ g.newline = ['\r'] ∧
      g.newline ≠ (Text.lineEnds "\na:b;\rc:d;\n".toList).head?.getD defaultNewline ∧
      ∀ line ∈ Line.cut g.print, line.2 = ['\r'] := by
  have hread : (ofText [] [] "\na:b;\rc:d;\n".toList).toOption.map print =
      some "a:\tb;\rc:\td;\r".toList := by decide +kernel
  obtain ⟨g, hg, -⟩ := exists_ofText_of_map hread
  obtain ⟨-, hnewline, hfirst, hprint⟩ := newline_eq_first_of_trim hg
  have hreturn : g.newline = ['\r'] := hnewline.trans (by decide +kernel)
  refine ⟨g, hg, hreturn, fun heq => ?_, fun line hline => (hprint nofun line hline).trans hreturn⟩
  have hfeed : ['\n'] = g.newline := (hfirst.1 heq).1 ['\n'] (by decide +kernel)
  rw [hreturn] at hfeed
  exact absurd hfeed (by decide)

/-- The line feed of a single line is trimmed away, and the line printed with another line end. -/
theorem newline_ne_only_lineEnd :
    ∃ g, ofText [] [] "r:\ta;\n".toList = .ok g ∧
      g.newline ≠ (Text.lineEnds "r:\ta;\n".toList).head?.getD defaultNewline ∧
      g.print = "r:\ta;\r\n".toList := by
  have hread : (ofText [] [] "r:\ta;\n".toList).toOption.map (fun g => (g.newline, g.print)) =
      some (['\r', '\n'], "r:\ta;\r\n".toList) := by decide +kernel
  obtain ⟨g, hg, hpair⟩ := exists_ofText_of_map hread
  obtain ⟨hnewline, hprint⟩ := Prod.mk.inj hpair
  refine ⟨g, hg, ?_, hprint⟩
  rw [hnewline]
  decide +kernel

end Grammar

end GrammarCheck
