import GrammarCheck.Document.Words

namespace GrammarCheck

inductive Inline.Supported : Inline → Prop
  | text {content : Text} : Supported (.text content)
  | strong {content : List Inline} (areSupported : ∀ item ∈ content, Supported item) :
    Supported (.strong content)
  | emphasis {content : List Inline} (areSupported : ∀ item ∈ content, Supported item) :
    Supported (.emphasis content)
  | code {content : Text} : Supported (.code content)
  | link {content : List Inline} {url : Text} {title : Option Text}
      (areSupported : ∀ item ∈ content, Supported item) : Supported (.link content url title)
  | image {alt url : Text} {title : Option Text} : Supported (.image alt url title)
  | lineBreak {soft : Bool} : Supported (.lineBreak soft)
  | run {items : List Inline} (areSupported : ∀ item ∈ items, Supported item) :
    Supported (.run items)

inductive Block.Supported : Block → Prop
  | heading {level : Int} {content : Inline} (isSupported : content.Supported) :
    Supported (.heading level content)
  | paragraph {content : List Inline} (areSupported : ∀ item ∈ content, item.Supported) :
    Supported (.paragraph content)
  | code {content : Text} {language : Option Text} : Supported (.code content language)
  | quote {children : List Block} (areSupported : ∀ block ∈ children, Supported block) :
    Supported (.quote children)
  | list {ordered : Bool} {items : List (List Block)}
      (areSupported : ∀ item ∈ items, ∀ block ∈ item, Supported block) :
    Supported (.list ordered items)
  | table {header : Option (List (List Inline))} {rows : List (List (List Inline))}
      (areSupported :
        ∀ row ∈ header.toList ++ rows, ∀ cell ∈ row, ∀ item ∈ cell, item.Supported) :
    Supported (.table header rows)
  | thematicBreak : Supported .thematicBreak

inductive Inline.WellFormed : Inline → Prop
  | text {content : Text} : WellFormed (.text content)
  | strong {content : List Inline} (areWellFormed : ∀ item ∈ content, WellFormed item) :
    WellFormed (.strong content)
  | emphasis {content : List Inline} (areWellFormed : ∀ item ∈ content, WellFormed item) :
    WellFormed (.emphasis content)
  | code {content : Text} : WellFormed (.code content)
  | link {content : List Inline} {url : Text} {title : Option Text}
      (areWellFormed : ∀ item ∈ content, WellFormed item) : WellFormed (.link content url title)
  | image {alt url : Text} {title : Option Text} : WellFormed (.image alt url title)
  | lineBreak {soft : Bool} : WellFormed (.lineBreak soft)

inductive Block.WellFormed : Block → Prop
  | heading {level : Int} {content : List Inline} (isLevel : 1 ≤ level)
      (areWellFormed : ∀ item ∈ content, item.WellFormed) :
    WellFormed (.heading level (.run content))
  | paragraph {content : List Inline} (areWellFormed : ∀ item ∈ content, item.WellFormed) :
    WellFormed (.paragraph content)
  | code {content : Text} {language : Option Text} : WellFormed (.code content language)
  | quote {children : List Block} (areWellFormed : ∀ block ∈ children, WellFormed block) :
    WellFormed (.quote children)
  | list {ordered : Bool} {items : List (List Block)}
      (areWellFormed : ∀ item ∈ items, ∀ block ∈ item, WellFormed block) :
    WellFormed (.list ordered items)
  | table {header : Option (List (List Inline))} {rows : List (List (List Inline))}
      (areWellFormed :
        ∀ row ∈ header.toList ++ rows, ∀ cell ∈ row, ∀ item ∈ cell, item.WellFormed) :
    WellFormed (.table header rows)
  | thematicBreak : WellFormed .thematicBreak

def Document.WellFormed (d : Document) : Prop := ∀ block ∈ d.blocks, block.WellFormed

namespace Inline

theorem words_all_eq_ok {items : List Inline} (h : ∀ item ∈ items, ∃ ws, item.words = .ok ws) :
    ∃ ws, words.all items = .ok ws := by
  induction items with
  | nil => exact ⟨[], rfl⟩
  | cons item items ih =>
    obtain ⟨ws, hws⟩ := h item List.mem_cons_self
    obtain ⟨ws', hws'⟩ := ih fun x hx => h x (List.mem_cons_of_mem item hx)
    refine ⟨ws ++ ws', ?_⟩
    rw [words.all, hws, hws']
    rfl

theorem Supported.words_eq_ok {i : Inline} (h : i.Supported) : ∃ ws, i.words = .ok ws := by
  induction h with
  | text | code => exact ⟨_, by rw [words]⟩
  | image | lineBreak => exact ⟨[], by rw [words]⟩
  | strong _ ih | emphasis _ ih | run _ ih =>
    rw [words]
    exact words_all_eq_ok ih
  | link _ ih =>
    obtain ⟨ws, hws⟩ := words_all_eq_ok ih
    rw [words, hws]
    exact ⟨_, rfl⟩

theorem WellFormed.supported {i : Inline} (h : i.WellFormed) : i.Supported := by
  induction h with
  | text => exact .text
  | strong _ ih => exact .strong ih
  | emphasis _ ih => exact .emphasis ih
  | code => exact .code
  | link _ ih => exact .link ih
  | image => exact .image
  | lineBreak => exact .lineBreak

theorem WellFormed.words_eq_ok {i : Inline} (h : i.WellFormed) : ∃ ws, i.words = .ok ws :=
  h.supported.words_eq_ok

end Inline

namespace Block

variable {block : Block} {blocks : List Block}

theorem mem_walk_all {x : Block} : x ∈ walk.all blocks ↔ ∃ block ∈ blocks, x ∈ block.walk := by
  induction blocks with
  | nil => simp [walk.all]
  | cons block blocks ih => simp [walk.all, ih]

theorem mem_walk_allItems {x : Block} {items : List (List Block)} :
    x ∈ walk.allItems items ↔ ∃ item ∈ items, ∃ block ∈ item, x ∈ block.walk := by
  induction items with
  | nil => simp [walk.allItems]
  | cons item items ih => simp [walk.allItems, ih, mem_walk_all]

theorem words_all_eq_ok (h : ∀ block ∈ blocks, ∃ ws, block.words = .ok ws) :
    ∃ ws, words.all blocks = .ok ws := by
  induction blocks with
  | nil => exact ⟨[], rfl⟩
  | cons block blocks ih =>
    obtain ⟨ws, hws⟩ := h block List.mem_cons_self
    obtain ⟨ws', hws'⟩ := ih fun x hx => h x (List.mem_cons_of_mem block hx)
    exact ⟨ws ++ ws', by rw [words.all, hws, hws']; rfl⟩

theorem words_allItems_eq_ok {items : List (List Block)}
    (h : ∀ item ∈ items, ∀ block ∈ item, ∃ ws, block.words = .ok ws) :
    ∃ ws, words.allItems items = .ok ws := by
  induction items with
  | nil => exact ⟨[], rfl⟩
  | cons item items ih =>
    obtain ⟨ws, hws⟩ := words_all_eq_ok (h item List.mem_cons_self)
    obtain ⟨ws', hws'⟩ := ih fun x hx => h x (List.mem_cons_of_mem item hx)
    exact ⟨ws ++ ws', by rw [words.allItems, hws, hws']; rfl⟩

theorem Supported.words_eq_ok (h : block.Supported) : ∃ ws, block.words = .ok ws := by
  induction h with
  | heading isSupported =>
    rw [words]
    exact isSupported.words_eq_ok
  | paragraph areSupported =>
    rw [words]
    exact Inline.words_all_eq_ok fun item hitem => (areSupported item hitem).words_eq_ok
  | code => exact ⟨_, by rw [words]⟩
  | quote _ ih =>
    rw [words]
    exact words_all_eq_ok ih
  | list _ ih =>
    rw [words]
    exact words_allItems_eq_ok ih
  | table areSupported =>
    rw [words]
    apply Inline.words_all_eq_ok
    intro run hrun
    obtain ⟨row, hrow, hrun⟩ := List.mem_flatMap.1 hrun
    obtain ⟨cell, hcell, rfl⟩ := List.mem_map.1 hrun
    exact (Inline.Supported.run (areSupported row hrow cell hcell)).words_eq_ok
  | thematicBreak => exact ⟨[], by rw [words]⟩

theorem WellFormed.of_mem_walk (h : block.WellFormed) {x : Block} (hx : x ∈ block.walk) :
    x.WellFormed := by
  induction h with
  | heading isLevel areWellFormed =>
    obtain rfl : x = _ := by simpa [walk] using hx
    exact .heading isLevel areWellFormed
  | code =>
    obtain rfl : x = _ := by simpa [walk] using hx
    exact .code
  | paragraph | table | thematicBreak => simp [walk] at hx
  | quote _ ih =>
    rw [walk, mem_walk_all] at hx
    obtain ⟨block, hblock, hx⟩ := hx
    exact ih block hblock hx
  | list _ ih =>
    rw [walk, mem_walk_allItems] at hx
    obtain ⟨item, hitem, block, hblock, hx⟩ := hx
    exact ih item hitem block hblock hx

end Block

theorem Document.WellFormed.of_mem_walk {d : Document} (h : d.WellFormed) {x : Block}
    (hx : x ∈ d.walk) : x.WellFormed := by
  obtain ⟨block, hblock, hx⟩ := Block.mem_walk_all.1 hx
  exact (h block hblock).of_mem_walk hx

end GrammarCheck
