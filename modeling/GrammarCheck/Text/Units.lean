import GrammarCheck.Text.Basic

namespace GrammarCheck

structure Word where
  text : Text
  span : Span
  deriving DecidableEq, Repr

namespace Word

def isWordChar (c : Char) : Bool := c.isAlphanum || c == '\''

def scan (offset : Nat) (pending : Text) : Text → List Word
  | [] => close offset pending
  | c :: rest =>
    if isWordChar c then scan (offset + 1) (c :: pending) rest
    else close offset pending ++ scan (offset + 1) [] rest
where
  close (offset : Nat) : Text → List Word
    | [] => []
    | pending => [⟨pending.reverse, .between (offset - pending.length) offset⟩]

def all (t : Text) : List Word := scan 0 [] t

end Word

def Text.words (t : Text) : List Text := (Word.all t).map (·.text)

structure Line where
  text : Text
  span : Span
  deriving DecidableEq, Repr

namespace Line

def cut : Text → List (Text × Text)
  | [] => []
  | '\r' :: '\n' :: rest => ([], ['\r', '\n']) :: cut rest
  | c :: rest =>
    if isLineEnd c then ([], [c]) :: cut rest
    else match cut rest with
      | (line, terminator) :: lines => (c :: line, terminator) :: lines
      | [] => [([c], [])]

theorem flatten_cut (t : Text) : (cut t).flatMap (fun line => line.1 ++ line.2) = t := by
  fun_induction cut t <;> simp_all

def place (offset : Nat) : List (Text × Text) → List Line
  | [] => []
  | (line, terminator) :: lines =>
    ⟨line, .between offset (offset + line.length)⟩ ::
      place (offset + line.length + terminator.length) lines

def all (t : Text) : List Line := place 0 (cut t)

def starts (t : Text) : List Int := (all t).map (·.span.start)

/-- Line and column, both from 1, of an offset among ascending line starts. Offsets outside the
text count on from the first or the last line. -/
def coordinates (starts : List Int) (offset : Int) : Int × Int :=
  match starts with
  | [] => (1, offset + 1)
  | first :: rest =>
    let passed := rest.takeWhile (· ≤ offset)
    (passed.length + 1, offset - passed.getLastD first + 1)

end Line

def Text.lineCol (t : Text) (offset : Int) : Int × Int := Line.coordinates (Line.starts t) offset

structure Section where
  hashes : Text
  title : Text
  span : Span
  deriving DecidableEq, Repr

namespace Section

def level (s : Section) : Nat := s.hashes.length

def isHeading (line : Line) : Bool := line.text.head? == some '#'

def ofHeadings (size : Int) : List Line → List Section
  | [] => []
  | line :: lines =>
    let stop := match lines with
      | next :: _ => next.span.start
      | [] => size
    { hashes := line.text.takeWhile (· == '#')
      title := Text.trim (line.text.dropWhile (· == '#'))
      span := ⟨line.span.start, stop - line.span.start⟩ } :: ofHeadings size lines

def all (t : Text) : List Section := ofHeadings t.length ((Line.all t).filter isHeading)

end Section

end GrammarCheck
