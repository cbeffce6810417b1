import GrammarCheck.Text.Basic

namespace GrammarCheck

/-- A run holds the nodes of a longer stretch. A node of another sort is inline but cannot be shown;
a misplaced one is not inline at all. -/
inductive Inline
  | text (content : Text)
  | strong (content : List Inline)
  | emphasis (content : List Inline)
  | code (content : Text)
  | link (content : List Inline) (url : Text) (title : Option Text)
  | image (alt url : Text) (title : Option Text)
  | lineBreak (soft : Bool)
  | run (items : List Inline)
  | other (sort : Text)
  | misplaced (sort : Text)
  deriving Repr

def Inline.sort? : Inline → Option Text
  | .text _ => some "Text".toList
  | .strong _ => some "Strong".toList
  | .emphasis _ => some "Emphasis".toList
  | .code _ => some "InlineCode".toList
  | .link _ _ _ => some "Link".toList
  | .image _ _ _ => some "Image".toList
  | .lineBreak _ => some "LineBreak".toList
  | .run _ => none
  | .other sort => some sort
  | .misplaced sort => some sort

inductive Block
  | heading (level : Int) (content : Inline)
  | paragraph (content : List Inline)
  | code (content : Text) (language : Option Text)
  | quote (children : List Block)
  | list (ordered : Bool) (items : List (List Block))
  | table (header : Option (List (List Inline))) (rows : List (List (List Inline)))
  | thematicBreak
  | other (sort : Text)
  deriving Repr

structure Document where
  filename : Text
  text : Text
  blocks : List Block := []
  deriving Repr

inductive UnsupportedNode
  | inline (sort : Text)
  | block (sort : Text)
  | misplaced (sort : Text)
  | single (sort : Text)
  deriving DecidableEq, Repr

def UnsupportedNode.message : UnsupportedNode → Text
  | .inline sort => "Unsupported inline node: ".toList ++ sort
  | .block sort => "Unsupported block node: ".toList ++ sort
  | .misplaced sort => '\'' :: sort ++ "' object is not iterable".toList
  | .single sort => "object of type '".toList ++ sort ++ "' has no len()".toList

end GrammarCheck
