import GrammarCheck.Text.Basic

namespace GrammarCheck.Toml

inductive Value
  | string (t : Text)
  | integer (n : Int)
  | float (literal : Text)
  | boolean (b : Bool)
  | date (literal : Text)
  | time (literal : Text)
  | datetime (literal : Text)
  | array (items : List Value)
  | table (entries : List (Text × Value))

inductive Fault
  | invalid
  | oversized (digits : Nat)
  deriving DecidableEq, Repr

abbrev Table := List (Text × Value)

abbrev Path := List Text

namespace Table

def put (key : Text) (value : Value) : Table → Table
  | [] => [(key, value)]
  | (other, v) :: entries =>
    if other = key then (key, value) :: entries else (other, v) :: put key value entries

/-- Changes the table behind a path, which is created as far as it is missing. An array stands for
its last table if `intoArrays`. There is none behind any other value. -/
def update (intoArrays : Bool) (change : Table → Option Table) : Path → Table → Option Table
  | [], t => change t
  | key :: path, t =>
    match t.lookup key with
    | none => do return put key (.table (← update intoArrays change path [])) t
    | some (.table sub) => do return put key (.table (← update intoArrays change path sub)) t
    | some (.array items) =>
      match intoArrays, items.reverse with
      | true, .table sub :: before => do
        return put key (.array ((.table (← update intoArrays change path sub) :: before).reverse)) t
      | _, _ => none
    | some _ => none

def insertNew (key : Text) (value : Value) (t : Table) : Option Table :=
  match t.lookup key with
  | none => some (t ++ [(key, value)])
  | some _ => none

def appendTable (key : Text) (t : Table) : Option Table :=
  match t.lookup key with
  | none => some (t ++ [(key, .array [.table []])])
  | some (.array items) => some (put key (.array (items ++ [.table []])) t)
  | some _ => none

end Table

end GrammarCheck.Toml
