/-!
Places in the text of a settings file. A place knows what follows it, how many characters stand
before it, and its line and column, all counted from zero.
-/

namespace Listfile

namespace Yaml

def isBreak (c : Char) : Bool := c = '\n' || c = '\x85' || c = '\u2028' || c = '\u2029'

def isBlank (c : Char) : Bool := c = ' ' || c = '\t'

def endsLine : List Char → Bool
  | [] => true
  | c :: _ => isBreak c

def endsField : List Char → Bool
  | [] => true
  | c :: _ => c = ' ' || isBreak c

def endsWord : List Char → Bool
  | [] => true
  | c :: _ => isBlank c || isBreak c

/-- The break that a line end is read as: separators of lines and paragraphs stay what they are. -/
def breakOf (c : Char) : Char := if c = '\x85' then '\n' else c

structure Cursor where
  rest : List Char
  index : Nat := 0
  line : Nat := 0
  column : Nat := 0
  deriving DecidableEq, Repr

namespace Cursor

/-- The place after one character. A byte order mark takes no column. -/
def next (k : Cursor) : Cursor :=
  match k.rest with
  | [] => k
  | c :: rest =>
    if isBreak c then ⟨rest, k.index + 1, k.line + 1, 0⟩
    else if c = '\ufeff' then ⟨rest, k.index + 1, k.line, k.column⟩
    else ⟨rest, k.index + 1, k.line, k.column + 1⟩

def forward (k : Cursor) : Nat → Cursor
  | 0 => k
  | n + 1 => k.next.forward n

def passWhile (k : Cursor) (p : Char → Bool) : Cursor := k.forward (k.rest.takeWhile p).length

def passComment (k : Cursor) : Cursor :=
  let k := k.passWhile (· = ' ')
  if k.rest.head? = some '#' then k.passWhile (!isBreak ·) else k

def isMarker (mark : Char) (k : Cursor) : Bool :=
  k.rest.take 3 = [mark, mark, mark] && endsWord (k.rest.drop 3)

def isSeparator (k : Cursor) : Bool := k.isMarker '-' || k.isMarker '.'

end Cursor

end Yaml

end Listfile
