import Listfile.Settings.Yaml.Scalar
import Listfile.Text.Utf8

/-!
The spelling of what stands before a node or a document: anchors, aliases, tags and directives.
-/

namespace Listfile

namespace Yaml

inductive Directive where
  /-- The version of the format, by its first number. -/
  | version (major : Nat)
  /-- A short form for the head of tags. -/
  | handle (name expansion : Text)
  | other
  deriving DecidableEq, Repr

/-- The tokens of a settings file. Indentation has become brackets: block collections have a start
and an end like those in braces, and every key is announced. -/
inductive Token where
  | directive (d : Directive)
  | documentStart
  | documentEnd
  | blockList
  | blockMap
  | blockEnd
  | flowList
  | flowListEnd
  | flowMap
  | flowMapEnd
  | item
  | comma
  | key
  | value
  | alias (name : Text)
  | anchor (name : Text)
  | tag (handle : Option Text) (suffix : Text)
  | scalar (text : Text) (isPlain : Bool)
  deriving DecidableEq, Repr

def isNameChar (c : Char) : Bool := c.isAlphanum || c = '-' || c = '_'

/-- Characters of a tag; others are written by their bytes after a percent sign. -/
def isTagChar (c : Char) : Bool :=
  c.isAlphanum || "-;/?:@&=+$,_.!~*'()[]".toList.contains c

def name? (k : Cursor) : Option (Text × Cursor) :=
  let found := k.rest.takeWhile isNameChar
  if found.isEmpty then none else some (glyphs found, k.forward found.length)

def anchorName? (k : Cursor) : Option (Text × Cursor) := do
  let (name, k) ← name? k.next
  let closes := endsWord k.rest || "?:,]\x7d%@\x60".toList.contains (k.rest.headD ' ')
  if closes then some (name, k) else none

def percentBytes? : List Char → Option Bytes
  | '%' :: a :: b :: rest => do
    let n ← hexNumber? [a, b]
    let more ← percentBytes? rest
    some (UInt8.ofNat n :: more)
  | '%' :: _ => none
  | _ => some []

def tagCharsFrom? (fuel : Nat) (k : Cursor) (text : Text) : Option (Text × Cursor) :=
  match fuel with
  | 0 => none
  | fuel + 1 =>
    match k.rest with
    | '%' :: _ => do
      let bytes ← percentBytes? k.rest
      if (Utf8.firstStray? bytes).isSome then none
      else tagCharsFrom? fuel (k.forward (3 * bytes.length)) (text ++ Utf8.decode bytes)
    | c :: _ =>
      if isTagChar c then tagCharsFrom? fuel k.next (text ++ [.char c]) else some (text, k)
    | [] => some (text, k)

def tagChars? (k : Cursor) : Option (Text × Cursor) :=
  (tagCharsFrom? k.rest.length.succ k []).filter fun found => found.2.index ≠ k.index

def tagHandle? (k : Cursor) : Option (Text × Cursor) :=
  if k.rest.head? ≠ some '!' then none
  else if k.next.rest.head? = some ' ' then some ("!", k.next)
  else
    let name := k.next.rest.takeWhile isNameChar
    let after := k.forward (name.length + 1)
    if after.rest.head? = some '!' then
      some (glyphs ('!' :: name ++ ['!']), after.next)
    else none

/-- A tag that starts here: spelled out between angle brackets, a lone mark, or a suffix after a
short form. -/
def tag? (k : Cursor) : Option (Token × Cursor) := do
  let inner := k.next
  let (token, k) ←
    if inner.rest.head? = some '<' then do
      let (suffix, k) ← tagChars? inner.next
      if k.rest.head? = some '>' then some (Token.tag none suffix, k.next) else none
    else if endsWord inner.rest then some (Token.tag none "!", inner)
    else do
      let word := inner.rest.takeWhile fun c => c ≠ ' ' && !isBreak c
      let (handle, k) ← if word.contains '!' then tagHandle? k else some ("!", inner)
      let (suffix, k) ← tagChars? k
      some (Token.tag (some handle) suffix, k)
  if endsField k.rest then some (token, k) else none

def numeral? (k : Cursor) : Option (Nat × Cursor) :=
  let digits := k.rest.takeWhile Char.isDigit
  if digits.isEmpty then none
  else some (digits.foldl (fun n c => n * 10 + (c.toNat - 48)) 0, k.forward digits.length)

def versionDirective? (k : Cursor) : Option (Directive × Cursor) := do
  let (major, k) ← numeral? (k.passWhile (· = ' '))
  if k.rest.head? ≠ some '.' then none
  else
    let (_, k) ← numeral? k.next
    if endsField k.rest then some (.version major, k) else none

def handleDirective? (k : Cursor) : Option (Directive × Cursor) := do
  let (name, k) ← tagHandle? (k.passWhile (· = ' '))
  if k.rest.head? ≠ some ' ' then none
  else
    let (expansion, k) ← tagChars? (k.passWhile (· = ' '))
    if endsField k.rest then some (.handle name expansion, k) else none

def directive? (k : Cursor) : Option (Token × Cursor) := do
  let (name, k) ← name? k.next
  if !endsField k.rest then none
  else
    let (d, k) ←
      if name = Text.ofString "YAML" then versionDirective? k
      else if name = Text.ofString "TAG" then handleDirective? k
      else some (.other, k.passWhile (!isBreak ·))
    let k := k.passComment
    if endsLine k.rest then some (.directive d, k.next) else none

end Yaml

end Listfile
