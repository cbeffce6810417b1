import GrammarCheck.Document.Basic
import GrammarCheck.Text.Units

namespace GrammarCheck

def Inline.words : Inline → Except UnsupportedNode (List Text)
  | .text content => .ok content.words
  | .code content => .ok content.words
  | .strong content => all content
  | .emphasis content => all content
  | .link content _ title => return (← all content) ++ Text.words (title.getD [])
  | .image _ _ _ => .ok []
  | .lineBreak _ => .ok []
  | .run items => all items
  | .other sort => .error (.inline sort)
  | .misplaced sort => .error (.misplaced sort)
where
  all : List Inline → Except UnsupportedNode (List Text)
    | [] => .ok []
    | item :: items => return (← item.words) ++ (← all items)

def Block.words : Block → Except UnsupportedNode (List Text)
  | .heading _ content => content.words
  | .paragraph content => Inline.words.all content
  | .code content language => .ok (Text.words (language.getD []) ++ content.words)
  | .quote children => all children
  | .list _ items => allItems items
  | .table header rows =>
    Inline.words.all ((header.toList ++ rows).flatMap fun row => row.map Inline.run)
  | .thematicBreak => .ok []
  | .other sort => .error (.block sort)
where
  all : List Block → Except UnsupportedNode (List Text)
    | [] => .ok []
    | block :: blocks => return (← block.words) ++ (← all blocks)
  allItems : List (List Block) → Except UnsupportedNode (List Text)
    | [] => .ok []
    | item :: items => return (← all item) ++ (← allItems items)

def Block.walk : Block → List Block
  | .heading level content => [.heading level content]
  | .code content language => [.code content language]
  | .quote children => all children
  | .list _ items => allItems items
  | _ => []
where
  all : List Block → List Block
    | [] => []
    | block :: blocks => block.walk ++ all blocks
  allItems : List (List Block) → List Block
    | [] => []
    | item :: items => all item ++ allItems items

def Document.walk (d : Document) : List Block := Block.walk.all d.blocks

def Inline.title? (content : Inline) : Except UnsupportedNode (Option Text) :=
  match content with
  | .run [.text t] => .ok (some t.trim)
  | .run [.code t] => .ok (some t.trim)
  | content =>
    match content.sort? with
    | none => .ok none
    | some sort => .error (.single sort)

end GrammarCheck
