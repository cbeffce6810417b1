/-!
Texts as lists of code points: blanks, line ends, trimming, number texts, names of files and ranges.
Every offset and length of this library counts code points.
-/

namespace GrammarCheck

abbrev Text := List Char

/-- Spaces of all widths, the five ASCII layout controls, the four ASCII separators and next line.
The zero width characters are not blank. -/
def isBlank (c : Char) : Bool :=
  let n := c.toNat
  (0x09 ≤ n && n ≤ 0x0d) || (0x1c ≤ n && n ≤ 0x20) || n == 0x85 || n == 0xa0 || n == 0x1680 ||
    (0x2000 ≤ n && n ≤ 0x200a) || n == 0x2028 || n == 0x2029 || n == 0x202f || n == 0x205f ||
    n == 0x3000

/-- Lines end at these two only; the other vertical separators are ordinary blanks. -/
def isLineEnd (c : Char) : Bool := c == '\r' || c == '\n'

theorem isBlank_of_isLineEnd {c : Char} (h : isLineEnd c) : isBlank c := by
  simp only [isLineEnd, Bool.or_eq_true, beq_iff_eq] at h
  rcases h with rfl | rfl <;> decide

theorem not_isLineEnd_of_plain {c : Char} (h : isBlank c = false) : isLineEnd c = false := by
  apply Bool.eq_false_iff.2
  intro hline
  rw [isBlank_of_isLineEnd hline] at h
  cases h

theorem lookup_cons_ite {α β : Type} [BEq α] [LawfulBEq α] [DecidableEq α] (a k : α) (v : β)
    (entries : List (α × β)) :
    ((k, v) :: entries).lookup a = if a = k then some v else entries.lookup a := by
  by_cases h : a = k
  · subst h
    simp
  · have hb : (a == k) = false := beq_eq_false_iff_ne.2 h
    simp [List.lookup_cons, hb, h]

namespace Text

def trimLeft (t : Text) : Text := t.dropWhile isBlank

def trimRight (t : Text) : Text := (t.reverse.dropWhile isBlank).reverse

theorem trimRight_prefix (t : Text) : trimRight t <+: t := by
  have h := List.dropWhile_suffix isBlank (l := t.reverse)
  simpa [trimRight] using List.reverse_prefix.2 h

def trim (t : Text) : Text := trimLeft (trimRight t)

def unifyLineEnds : Text → Text
  | [] => []
  | '\r' :: '\n' :: rest => '\n' :: unifyLineEnds rest
  | '\r' :: rest => '\n' :: unifyLineEnds rest
  | c :: rest => c :: unifyLineEnds rest

theorem not_mem_unifyLineEnds (t : Text) : '\r' ∉ unifyLineEnds t := by
  fun_induction unifyLineEnds t <;> simp_all [eq_comm]

def occursIn (part : Text) : Text → Bool
  | [] => part.isEmpty
  | c :: rest => part.isPrefixOf (c :: rest) || occursIn part rest

def pieces (separator : Char) : Text → List Text
  | [] => [[]]
  | c :: rest =>
    if c = separator then [] :: pieces separator rest
    else match pieces separator rest with
      | piece :: others => (c :: piece) :: others
      | [] => [[c]]

def join (separator : Text) : List Text → Text
  | [] => []
  | [t] => t
  | t :: rest => t ++ separator ++ join separator rest

def ofNat (n : Nat) : Text := Nat.toDigits 10 n

def ofInt : Int → Text
  | .ofNat n => ofNat n
  | .negSucc n => '-' :: ofNat (n + 1)

def padLeft (width : Nat) (fill : Char) (t : Text) : Text :=
  List.replicate (width - t.length) fill ++ t

def at? {α : Type} (xs : List α) : Int → Option α
  | .ofNat n => xs[n]?
  | .negSucc n => xs.reverse[n]?

def ofFile? (bytes : ByteArray) : Option Text :=
  (String.fromUTF8? bytes).map fun s => unifyLineEnds s.toList

def pathParts (path : Text) : List Text :=
  (path.pieces '/').filter fun part => !(part.isEmpty || part == ['.'])

def plainPath (path : Text) : Text :=
  let root := if path.head? == some '/' then ['/'] else []
  match root ++ join ['/'] (pathParts path) with
  | [] => ['.']
  | path => path

def fileName (path : Text) : Text := (pathParts path).getLastD []

/-- A file's name without its last extension. A leading point opens no extension, nor does a point
at the very end. -/
def fileStem (path : Text) : Text :=
  let name := fileName path
  let extension := (name.reverse.takeWhile (· != '.')).length
  let stem := name.take (name.length - extension - 1)
  if extension = 0 || stem.isEmpty then name else stem

end Text

structure Span where
  start : Int
  length : Int
  deriving DecidableEq, Repr

namespace Span

def stop (s : Span) : Int := s.start + s.length

def shift (s : Span) (offset : Int) : Span := ⟨s.start + offset, s.length⟩

def between (start stop : Nat) : Span := ⟨start, stop - start⟩

/-- An offset as a count from the left: a negative one counts from the end, and all are clamped. -/
def clamp (size : Nat) (offset : Int) : Nat :=
  if offset < 0 then (offset + size).toNat else min offset.toNat size

def slice {α : Type} (s : Span) (t : List α) : List α :=
  (t.take (clamp t.length s.stop)).drop (clamp t.length s.start)

def describe (s : Span) : Text :=
  "Span(".toList ++ Text.ofInt s.start ++ ", ".toList ++ Text.ofInt s.length ++ ")".toList

end Span

end GrammarCheck
