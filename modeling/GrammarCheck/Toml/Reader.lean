import GrammarCheck.Toml.Lexical
import GrammarCheck.Toml.Scalar

/-!
Reading a TOML document. Beside its table go marks on paths: an inline value is frozen, and a table
that was opened by a header or by a dotted key cannot be opened again.
-/

namespace GrammarCheck.Toml

inductive Mark
  | frozen
  | opened
  deriving DecidableEq, Repr

/-- Marks by path. What is below a frozen path is frozen too. -/
abbrev Marks := List (Path × Mark)

namespace Marks

def isFrozen (marks : Marks) (path : Path) : Bool :=
  marks.any fun (p, mark) => mark == .frozen && p.isPrefixOf path

def isOpened (marks : Marks) (path : Path) : Bool := marks.contains (path, .opened)

def forget (marks : Marks) (path : Path) : Marks := marks.filter fun (p, _) => !path.isPrefixOf p

end Marks

def Value.isInline : Value → Bool
  | .array _ | .table _ => true
  | _ => false

def Table.addInline (path : Path) (value : Value) (t : Table) : Option Table :=
  t.update false (Table.insertNew (path.getLastD []) value) path.dropLast

def valid {α : Type} : Option α → Except Fault α
  | none => .error .invalid
  | some a => .ok a

mutual

/-- Any value. Each step takes a character, or is followed by one that does, so twice the length of
the text is fuel enough. -/
def value (fuel : Nat) (t : Text) : Except Fault (Value × Text) :=
  match fuel with
  | 0 => .error .invalid
  | fuel + 1 =>
    match t with
    | '"' :: _ | '\'' :: _ => valid ((string? t).map fun (s, rest) => (.string s, rest))
    | 't' :: 'r' :: 'u' :: 'e' :: rest => .ok (.boolean true, rest)
    | 'f' :: 'a' :: 'l' :: 's' :: 'e' :: rest => .ok (.boolean false, rest)
    | '[' :: rest => (arrayItems fuel rest).map fun (items, rest) => (.array items, rest)
    | '\x7b' :: rest =>
      match skipSpace rest with
      | '\x7d' :: rest => .ok (.table [], rest)
      | rest => (tableEntries fuel [] [] rest).map fun (entries, rest) => (.table entries, rest)
    | t => scalar t

def arrayItems (fuel : Nat) (t : Text) : Except Fault (List Value × Text) :=
  match fuel with
  | 0 => .error .invalid
  | fuel + 1 =>
    match skipFiller false t with
    | none => .error .invalid
    | some (']' :: rest) => .ok ([], rest)
    | some t =>
      match value fuel t with
      | .error fault => .error fault
      | .ok (item, rest) =>
        match skipFiller false rest with
        | some (']' :: rest) => .ok ([item], rest)
        | some (',' :: rest) =>
          (arrayItems fuel rest).map fun (items, rest) => (item :: items, rest)
        | _ => .error .invalid

def tableEntries (fuel : Nat) (done : Table) (marks : Marks) (t : Text) :
    Except Fault (Table × Text) :=
  match fuel with
  | 0 => .error .invalid
  | fuel + 1 =>
    match key t.length t with
    | some (path, '=' :: rest) =>
      match value fuel (skipSpace rest) with
      | .error fault => .error fault
      | .ok (item, rest) =>
        if marks.isFrozen path then .error .invalid
        else match Table.addInline path item done with
          | none => .error .invalid
          | some done =>
            match skipSpace rest with
            | '\x7d' :: rest => .ok (done, rest)
            | ',' :: rest =>
              let marks := if item.isInline then (path, .frozen) :: marks else marks
              tableEntries fuel done marks (skipSpace rest)
            | _ => .error .invalid
    | _ => .error .invalid

end

/-- A document so far: its table, the marks, those that count from the next header on, and the
path of the header that holds. -/
structure Document where
  table : Table := []
  marks : Marks := []
  pending : List Path := []
  header : Path := []

namespace Document

def beginnings (path : Path) : List Path :=
  (List.range (path.length - 1)).map fun i => path.take (i + 1)

def addEntry (d : Document) (path : Path) (item : Value) : Option Document :=
  let opened := (beginnings path).map (d.header ++ ·)
  let parent := d.header ++ path.dropLast
  if opened.any d.marks.isOpened || d.marks.isFrozen parent then none
  else do
    let table ← d.table.update true (Table.insertNew (path.getLastD []) item) parent
    return { d with
      table
      pending := opened ++ d.pending
      marks := if item.isInline then (d.header ++ path, .frozen) :: d.marks else d.marks }

def settle (d : Document) : Document :=
  { d with marks := d.pending.map (·, .opened) ++ d.marks, pending := [] }

def openTable (d : Document) (path : Path) : Option Document :=
  if d.marks.isOpened path || d.marks.isFrozen path then none
  else do
    let table ← d.table.update true some path
    return { d with table, marks := (path, .opened) :: d.marks, header := path }

def openItem (d : Document) (path : Path) : Option Document :=
  if d.marks.isFrozen path then none
  else do
    let table ← d.table.update true (Table.appendTable (path.getLastD [])) path.dropLast
    return { d with table, marks := (path, .opened) :: d.marks.forget path, header := path }

def statement (d : Document) (t : Text) : Except Fault (Document × Text) :=
  match t with
  | [] | '\n' :: _ | '#' :: _ => .ok (d, t)
  | '[' :: '[' :: rest =>
    match key t.length (skipSpace rest) with
    | some (path, ']' :: ']' :: rest) => valid ((d.settle.openItem path).map (·, rest))
    | _ => .error .invalid
  | '[' :: rest =>
    match key t.length (skipSpace rest) with
    | some (path, ']' :: rest) => valid ((d.settle.openTable path).map (·, rest))
    | _ => .error .invalid
  | t =>
    match key t.length t with
    | some (path, '=' :: rest) =>
      match value (2 * t.length + 2) (skipSpace rest) with
      | .ok (item, rest) => valid ((d.addEntry path item).map (·, rest))
      | .error fault => .error fault
    | _ => .error .invalid

/-- Reads statements line by line. Each takes a character, so the length of the text is fuel
enough. -/
def readOn (fuel : Nat) (d : Document) (t : Text) : Except Fault Document :=
  match fuel with
  | 0 => .error .invalid
  | fuel + 1 =>
    match skipSpace t with
    | [] => .ok d
    | t =>
      match d.statement t with
      | .error fault => .error fault
      | .ok (d, rest) =>
        match endLine rest with
        | none => .error .invalid
        | some rest => readOn fuel d rest

end Document

def Table.ofText (t : Text) : Except Fault Table :=
  (Document.readOn (t.length + 1) {} t).map (·.table)

end GrammarCheck.Toml
