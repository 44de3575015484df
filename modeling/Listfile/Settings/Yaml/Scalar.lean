import Listfile.Settings.Yaml.Cursor
import Listfile.Text.Glyph

/-!
The spelling of scalars: plain, quoted, and blocks of lines. Line breaks fold: a single one reads
as a space, and of several the first is dropped.
-/

namespace Listfile

namespace Yaml

/-- A scalar that was read: its text, the place after it, and whether a line ended on the way from
its last word to that place. -/
structure Scanned where
  text : Text
  cursor : Cursor
  endedLine : Bool := false

def glyphs (cs : List Char) : Text := cs.map Glyph.char

def folded (first : Char) (others : List Char) : List Char :=
  if breakOf first ≠ '\n' then breakOf first :: others
  else if others.isEmpty then [' ']
  else others

def startsPlain (inFlow : Bool) : List Char → Bool
  | [] => false
  | c :: rest =>
    if isBlank c || isBreak c || ",[]\x7b\x7d#&*!|>'\"%@\x60".toList.contains c then false
    else if c = '-' then !endsWord rest
    else if c = '?' || c = ':' then !inFlow && !endsWord rest
    else true

def endsPlain (inFlow : Bool) : List Char → Bool
  | [] => true
  | c :: rest =>
    isBlank c || isBreak c ||
    (c = ':' && (endsWord rest || (inFlow && ",[]\x7b\x7d".toList.contains (rest.headD ' ')))) ||
    (inFlow && ",?[]\x7b\x7d".toList.contains c)

def plainWord (inFlow : Bool) : List Char → Nat
  | [] => 0
  | c :: rest => if endsPlain inFlow (c :: rest) then 0 else plainWord inFlow rest + 1

/-- The line breaks after the first one, with the place after them and the spaces that follow; none
for breaks that lead to a separator of documents. -/
def plainBreaks (fuel : Nat) (k : Cursor) (breaks : List Char) : Option (List Char) × Cursor :=
  match fuel with
  | 0 => (some breaks, k)
  | fuel + 1 =>
    if k.column = 0 && k.isSeparator then (none, k)
    else
      let k := k.passWhile (· = ' ')
      match k.rest with
      | c :: _ =>
        if isBreak c then plainBreaks fuel k.next (breaks ++ [breakOf c]) else (some breaks, k)
      | [] => (some breaks, k)

def plainGap (k : Cursor) : Scanned :=
  let after := k.passWhile (· = ' ')
  match after.rest with
  | c :: rest =>
    if isBreak c then
      match plainBreaks rest.length.succ after.next [] with
      | (some breaks, k) => ⟨glyphs (folded c breaks), k, true⟩
      | (none, k) => ⟨[], k, true⟩
    else ⟨glyphs (k.rest.takeWhile (· = ' ')), after, false⟩
  | [] => ⟨glyphs (k.rest.takeWhile (· = ' ')), after, false⟩

/-- Reads the words of a plain scalar, which goes on over lines that start in column `indent` or
beyond. `read` is what has been read, `gap` the blanks after it. -/
def plainFrom (fuel : Nat) (inFlow : Bool) (indent : Int) (read : Text) (gap : Scanned) :
    Scanned :=
  match fuel with
  | 0 => { gap with text := read }
  | fuel + 1 =>
    let k := gap.cursor
    let n := if k.rest.head? = some '#' then 0 else plainWord inFlow k.rest
    if n = 0 then { gap with text := read }
    else
      let read := read ++ gap.text ++ glyphs (k.rest.take n)
      let next := plainGap (k.forward n)
      if next.text.isEmpty || (!inFlow && (next.cursor.column : Int) < indent) then
        { next with text := read }
      else plainFrom fuel inFlow indent read next

def plain (inFlow : Bool) (indent : Int) (k : Cursor) : Scanned :=
  plainFrom k.rest.length.succ inFlow indent [] ⟨[], k, false⟩

def quotedBreaks (fuel : Nat) (k : Cursor) (breaks : List Char) : Option (List Char × Cursor) :=
  match fuel with
  | 0 => none
  | fuel + 1 =>
    if k.isSeparator then none
    else
      let k := k.passWhile isBlank
      match k.rest with
      | c :: _ =>
        if isBreak c then quotedBreaks fuel k.next (breaks ++ [breakOf c]) else some (breaks, k)
      | [] => some (breaks, k)

/-- The blanks inside a quoted scalar: kept within a line, folded over line breaks. -/
def quotedGap (k : Cursor) : Option (List Char × Cursor) :=
  let after := k.passWhile isBlank
  match after.rest with
  | c :: rest =>
    if isBreak c then
      (quotedBreaks rest.length.succ after.next []).map fun (breaks, k) => (folded c breaks, k)
    else some (k.rest.takeWhile isBlank, after)
  | [] => none

def letterEscapes : List (Char × Char) :=
  [('0', '\x00'), ('a', '\x07'), ('b', '\x08'), ('t', '\t'), ('\t', '\t'), ('n', '\n'),
    ('v', '\x0b'), ('f', '\x0c'), ('r', '\r'), ('e', '\x1b'), (' ', ' '), ('"', '"'), ('\\', '\\'),
    ('/', '/'), ('N', '\x85'), ('_', '\xa0'), ('L', '\u2028'), ('P', '\u2029')]

def numberEscapes : List (Char × Nat) := [('x', 2), ('u', 4), ('U', 8)]

def hexValue? (c : Char) : Option Nat :=
  if '0' ≤ c ∧ c ≤ '9' then some (c.toNat - 48)
  else if 'a' ≤ c ∧ c ≤ 'f' then some (c.toNat - 87)
  else if 'A' ≤ c ∧ c ≤ 'F' then some (c.toNat - 55)
  else none

def hexNumber? (digits : List Char) : Option Nat :=
  digits.foldlM (fun n c => (hexValue? c).map (n * 16 + ·)) 0

def glyphOf? (n : Nat) : Option Glyph :=
  if 0x10FFFF < n then none
  else if h : 0xDC80 ≤ n ∧ n ≤ 0xDCFF then some (.stray ⟨n - 0xDC80, by omega⟩)
  else if 0xD800 ≤ n ∧ n ≤ 0xDFFF then some (.char '\ufffd')
  else some (.char (Char.ofNat n))

def escape? : List Char → Option (Glyph × Nat)
  | [] => none
  | c :: rest =>
    match letterEscapes.lookup c, numberEscapes.lookup c with
    | some e, _ => some (.char e, 1)
    | none, some width =>
      if rest.length < width then none
      else ((hexNumber? (rest.take width)).bind glyphOf?).map fun g => (g, width + 1)
    | none, none => none

def quotedFrom? (fuel : Nat) (quote : Char) (k : Cursor) (text : Text) : Option Scanned :=
  match fuel with
  | 0 => none
  | fuel + 1 =>
    match k.rest with
    | [] => none
    | c :: rest =>
      if c = quote then
        if quote = '\'' && rest.head? = some '\'' then
          quotedFrom? fuel quote (k.forward 2) (text ++ [.char '\''])
        else some ⟨text, k.next, false⟩
      else if c = '\\' && quote = '"' then
        if (rest.head?.map isBreak).getD false then do
          let (breaks, k) ← quotedBreaks rest.length.succ (k.forward 2) []
          quotedFrom? fuel quote k (text ++ glyphs breaks)
        else do
          let (g, n) ← escape? rest
          quotedFrom? fuel quote (k.forward (n + 1)) (text ++ [g])
      else if isBlank c || isBreak c then do
        let (gap, k) ← quotedGap k
        quotedFrom? fuel quote k (text ++ glyphs gap)
      else quotedFrom? fuel quote k.next (text ++ [.char c])

def quoted? (quote : Char) (k : Cursor) : Option Scanned :=
  quotedFrom? k.rest.length.succ quote k.next []

inductive Chomping where
  | clip
  | strip
  | keep
  deriving DecidableEq, Repr

def chomping? : List Char → Option Chomping
  | '+' :: _ => some .keep
  | '-' :: _ => some .strip
  | _ => none

def increment? : List Char → Option Nat
  | c :: _ => if '1' ≤ c ∧ c ≤ '9' then some (c.toNat - 48) else none
  | [] => none

/-- The head of a block of lines, a chomping mark and a digit in either order, and the place of the
next line; none when anything but a comment follows. -/
def blockHead? (k : Cursor) : Option (Chomping × Option Nat × Cursor) :=
  let early := chomping? k.rest
  let k := if early.isSome then k.next else k
  let width := increment? k.rest
  let k := if width.isSome then k.next else k
  let late := if early.isSome then none else chomping? k.rest
  let k := if late.isSome then k.next else k
  let after := k.passComment
  if endsField k.rest && endsLine after.rest then
    some ((early.or late).getD .clip, width, after.next)
  else none

def blockBreaks (fuel : Nat) (indent : Nat) (k : Cursor) (breaks : List Char) :
    List Char × Cursor :=
  match fuel with
  | 0 => (breaks, k)
  | fuel + 1 =>
    let k := k.forward (min (k.rest.takeWhile (· = ' ')).length (indent - k.column))
    match k.rest with
    | c :: _ =>
      if isBreak c then blockBreaks fuel indent k.next (breaks ++ [breakOf c]) else (breaks, k)
    | [] => (breaks, k)

def deepest (k : Cursor) (found : Nat) : Nat → Nat
  | 0 => found
  | fuel + 1 =>
    let k := k.passWhile (· = ' ')
    let found := max found k.column
    match k.rest with
    | c :: _ => if isBreak c then deepest k.next found fuel else found
    | [] => found

/-- Reads the lines of a block. `breaks` are the line breaks before the next line. -/
def blockLines (fuel : Nat) (isFolded : Bool) (indent : Nat) (chomping : Chomping)
    (text lineBreak breaks : List Char) (k : Cursor) : List Char × Cursor :=
  let closing := match chomping with
    | .clip => lineBreak
    | .strip => []
    | .keep => lineBreak ++ breaks
  match fuel with
  | 0 => (text ++ closing, k)
  | fuel + 1 =>
    if k.column ≠ indent || k.rest.isEmpty then (text ++ closing, k)
    else
      let isFlush := fun rest : List Char => !(rest.head?.map isBlank).getD false
      let line := k.rest.takeWhile (!isBreak ·)
      let stop := k.forward line.length
      let lineBreak := (stop.rest.take 1).map breakOf
      let (more, next) := blockBreaks k.rest.length.succ indent stop.next []
      let joint :=
        if next.column ≠ indent || next.rest.isEmpty then []
        else if isFolded && lineBreak = ['\n'] && isFlush k.rest && isFlush next.rest then
          if more.isEmpty then [' '] else []
        else lineBreak
      blockLines fuel isFolded indent chomping (text ++ breaks ++ line ++ joint) lineBreak more next

def block? (isFolded : Bool) (outer : Int) (k : Cursor) : Option Scanned :=
  (blockHead? k.next).map fun (chomping, width, k) =>
    let fuel := k.rest.length.succ
    let least := max (outer + 1).toNat 1
    let indent := match width with
      | some n => least + n - 1
      | none => max least (deepest k 0 fuel)
    let (breaks, start) := blockBreaks fuel indent k []
    let (text, after) := blockLines fuel isFolded indent chomping [] [] breaks start
    ⟨glyphs text, after, true⟩

end Yaml

end Listfile
