import GrammarCheck.Text.Basic

/-!
Edit distance with unit costs, and the range of a sequence closest to another in that distance.
Both fill the table of distances between beginnings row by row, and keep two of its rows.
-/

namespace GrammarCheck.EditDistance

variable {α : Type} [DecidableEq α]

/-- The row of the table last completed, and the one that is written over what it held before. -/
structure Rows where
  current : Array Nat
  following : Array Nat

namespace Rows

def ofFirst (row : Array Nat) : Rows := ⟨row, Array.replicate row.size 0⟩

def setFollowing (rows : Rows) (j entry : Nat) : Rows :=
  { rows with following := rows.following.setIfInBounds j entry }

def write (x : α) (rows : Rows) (y : α) (j : Nat) : Rows :=
  let above := rows.current.getD (j + 1) 0
  let left := rows.following.getD j 0
  let diagonal := rows.current.getD j 0
  rows.setFollowing (j + 1) (min (min (above + 1) (left + 1)) (diagonal + if x = y then 0 else 1))

def fill (x : α) (ys : List α) (rows : Rows) : Rows :=
  ys.zipIdx.foldl (fun rows (y, j) => rows.write x y j) rows

def swap (rows : Rows) : Rows := ⟨rows.following, rows.current⟩

def run (xs ys : List α) (rows : Rows) : Rows :=
  (xs.zipIdx 1).foldl (fun rows (x, i) => ((rows.setFollowing 0 i).fill x ys).swap) rows

end Rows

def lastRow (xs ys : List α) (row : List Nat) : List Nat :=
  ((Rows.ofFirst row.toArray).run xs ys).current.toList

def distance (xs ys : List α) : Nat :=
  if xs.isEmpty then ys.length
  else if ys.isEmpty then xs.length
  else (lastRow xs ys (List.range (ys.length + 1))).getD ys.length 0

/-- A row of zeros lets a match start anywhere: entry `j` is the least distance between the
needle and a range that ends at `j`. -/
def matchRow (needle haystack : List α) : List Nat :=
  lastRow needle haystack (List.replicate (haystack.length + 1) 0)

def closestEnd (needle haystack : List α) : Option Nat :=
  let row := matchRow needle haystack
  let best := row.min?.getD 0
  match (row.zipIdx.filter (·.1 == best)).map (·.2) with
  | [stop] => some stop
  | _ => none

def closestRange (needle haystack : List α) : Option Span := do
  let stop ← closestEnd needle haystack
  let back ← closestEnd needle.reverse haystack.reverse
  let start := haystack.length - back
  if stop < start then none else some (.between start stop)

inductive EmptySide
  | needle
  | haystack
  deriving DecidableEq, Repr

def EmptySide.message : EmptySide → Text
  | .needle => "needle must be non-empty".toList
  | .haystack => "haystack must be non-empty".toList

def search (needle haystack : List α) : Except EmptySide (Option Span) :=
  if needle.isEmpty then .error .needle
  else if haystack.isEmpty then .error .haystack
  else .ok (closestRange needle haystack)

end GrammarCheck.EditDistance
