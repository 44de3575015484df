import Listfile.Text.Glyph

/-!
Places in a text: counted from one as line and column, or from zero as an offset. Line starts
convert between the two. Both ways are total on every place of the text; a position left over from
an earlier text may name a line that the present one does not have.
-/

namespace Listfile

/-- A line and a column, both counted from one. A column may be off its line when the text it was
computed for is not the text it is used on. -/
structure Position where
  line : Nat
  column : Int
  deriving DecidableEq, Repr

structure Span where
  first : Position
  last : Position
  deriving DecidableEq, Repr

namespace Position

def start : Position := ⟨1, 1⟩

def next (p : Position) (g : Glyph) : Position :=
  if g = '\n' then ⟨p.line + 1, 1⟩ else ⟨p.line, p.column + 1⟩

def advance (p : Position) (t : Text) : Position := t.foldl next p

end Position

def lineStartsFrom (offset : Nat) : Text → List Nat
  | [] => []
  | g :: rest =>
    if g = Glyph.char '\n' then (offset + 1) :: lineStartsFrom (offset + 1) rest
    else lineStartsFrom (offset + 1) rest

def lineStarts (t : Text) : List Nat := 0 :: lineStartsFrom 0 t

/-- The start of a line. Line zero, which lies before the text, counts as the last one. -/
def lineStart? (starts : List Nat) : Nat → Option Nat
  | 0 => starts.getLast?
  | n + 1 => starts[n]?

def Position.offset? (starts : List Nat) (p : Position) : Option Int :=
  (lineStart? starts p.line).map fun s => (s : Int) + p.column - 1

/-- The position of an offset: its line is the number of line starts up to it. -/
def Position.ofOffset (starts : List Nat) (offset : Int) : Position :=
  let line := starts.countP fun (s : Nat) => decide ((s : Int) ≤ offset)
  ⟨line, offset - ((lineStart? starts line).getD 0 : Nat) + 1⟩

end Listfile
