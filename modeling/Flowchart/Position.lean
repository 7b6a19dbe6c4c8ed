/-! Where a piece of source text lies. Offsets and lengths count characters; lines and columns are
counted from one. A cursor is a place in the text, a position is a stretch of it. -/
namespace Flowchart

structure Position where
  offset : Nat
  length : Nat
  line : Nat
  column : Nat
deriving DecidableEq, Repr

namespace Position

def stop (p : Position) : Nat := p.offset + p.length

/-- Lengthens a stretch to the right until it takes in another one. Its start stays. -/
def cover (p q : Position) : Position := { p with length := max p.stop q.stop - p.offset }

@[simp] theorem offset_cover (p q : Position) : (p.cover q).offset = p.offset := rfl

@[simp] theorem stop_cover (p q : Position) : (p.cover q).stop = max p.stop q.stop := by
  simp only [stop, cover]
  omega

def display (p : Position) : String :=
  "ln: " ++ toString p.line ++ ", col: " ++ toString p.column

end Position

structure Cursor where
  offset : Nat := 0
  line : Nat := 1
  column : Nat := 1
deriving DecidableEq, Repr

namespace Cursor

/-- Passes one character. A newline ends its line; a carriage return is a character like others. -/
def next (p : Cursor) (c : Char) : Cursor :=
  if c = '\n' then ⟨p.offset + 1, p.line + 1, 1⟩ else ⟨p.offset + 1, p.line, p.column + 1⟩

@[simp] theorem offset_next (p : Cursor) (c : Char) : (p.next c).offset = p.offset + 1 := by
  unfold next
  split <;> rfl

def advance (p : Cursor) (cs : List Char) : Cursor := cs.foldl next p

@[simp] theorem advance_nil (p : Cursor) : p.advance [] = p := rfl

@[simp] theorem advance_cons (p : Cursor) (c : Char) (cs : List Char) :
    p.advance (c :: cs) = (p.next c).advance cs := rfl

theorem advance_append (p : Cursor) (cs ds : List Char) :
    p.advance (cs ++ ds) = (p.advance cs).advance ds := by
  simp [advance]

@[simp] theorem offset_advance (p : Cursor) (cs : List Char) :
    (p.advance cs).offset = p.offset + cs.length := by
  induction cs generalizing p with
  | nil => rfl
  | cons c cs ih =>
    simp only [advance_cons, ih, offset_next, List.length_cons]
    omega

def spanning (p : Cursor) (length : Nat) : Position := ⟨p.offset, length, p.line, p.column⟩

def here (p : Cursor) : Position := p.spanning 0

end Cursor

end Flowchart
