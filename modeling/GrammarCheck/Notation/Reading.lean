import GrammarCheck.Notation.Lexeme

namespace GrammarCheck

structure Cursor where
  unread : Text
  position : Position
  deriving DecidableEq, Repr

namespace Cursor

def start (t : Text) : Cursor := ⟨t.trimRight, ⟨1, 1⟩⟩

def next : Cursor → Cursor
  | ⟨[], p⟩ => ⟨[], p⟩
  | ⟨c :: rest, p⟩ => ⟨rest, p.past c rest.head?⟩

def skip : Nat → Cursor → Cursor
  | 0, c => c
  | n + 1, c => skip n c.next

@[simp] theorem unread_next (c : Cursor) : c.next.unread = c.unread.drop 1 := by
  rcases c with ⟨_ | ⟨_, _⟩, _⟩ <;> rfl

@[simp] theorem unread_skip (n : Nat) (c : Cursor) : (c.skip n).unread = c.unread.drop n := by
  induction n generalizing c with
  | zero => rfl
  | succ n ih => rw [skip, ih, unread_next, List.drop_drop, Nat.add_comm]

end Cursor

structure Misstep where
  fault : Fault
  position : Position
  deriving DecidableEq, Repr

structure Reading where
  tokens : List Token
  stop : Cursor
  misstep : Option Misstep
  deriving DecidableEq, Repr

namespace Cursor

def misstep (c : Cursor) (fault : Fault) (n : Nat) : Misstep :=
  ⟨fault, if fault.isLocal then (c.skip n).position else c.position⟩

def spaceToken (c : Cursor) : List Token :=
  match c.unread.leadingSpace with
  | [] => []
  | space => [⟨.whitespace, space, c.position⟩]

def readOn (c : Cursor) : Reading :=
  match _left : c.unread with
  | [] => ⟨[], c, none⟩
  | first :: rest =>
    match Lexeme.first first rest with
    | .fault fault n => ⟨[], c.skip n, some (c.misstep fault n)⟩
    | .token kind value extra =>
      let after := c.skip (extra + 1)
      let reading := readOn (after.skip after.unread.leadingSpace.length)
      { reading with
        tokens := ⟨kind, value, c.position⟩ :: (after.spaceToken ++ reading.tokens) }
termination_by c.unread.length
decreasing_by
  simp only [Cursor.unread_skip, List.length_drop, _left, List.length_cons]
  omega

def readAll (c : Cursor) : Reading := readOn (c.skip (c.unread.takeWhile isBlank).length)

end Cursor

def Text.sourceLine (t : Text) (number : Int) : Text :=
  if 1 ≤ number then (((t.unifyLineEnds).pieces '\n')[(number - 1).toNat]?).getD [] else []

def Misstep.error (m : Misstep) (source t : Text) : SyntaxError :=
  ⟨source, m.position, some (t.sourceLine m.position.line), m.fault⟩

structure TokenList where
  tokens : List Token
  finish : Position
  deriving DecidableEq, Repr

namespace TokenList

def toList (ts : TokenList) : List Token := ts.tokens ++ [.finish ts.finish]

def ofText (source t : Text) : Except SyntaxError TokenList :=
  let reading := (Cursor.start t).readAll
  match reading.misstep with
  | some m => .error (m.error source t)
  | none => .ok ⟨reading.tokens, reading.stop.position⟩

end TokenList

end GrammarCheck
