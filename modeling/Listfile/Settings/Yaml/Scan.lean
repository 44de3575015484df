import Listfile.Settings.Yaml.Property

/-!
Tokens from text. A key is not marked as one in the text: whatever is followed by a colon on its
line was a key. So every place where a key may start is kept until it is too far behind, and the
token that announces the key goes in there once its colon is met.
-/

namespace Listfile

namespace Yaml

structure PossibleKey where
  start : Cursor
  /-- How many tokens stand before it. -/
  place : Nat
  /-- Whether nothing but a key may stand there. -/
  required : Bool

/-- The most characters that a key may take up, blanks before its colon included. -/
def keyLimit : Nat := 1024

structure Scan where
  cursor : Cursor
  tokens : List Token := []
  /-- How many brackets and braces are open. -/
  depth : Nat := 0
  /-- The columns of the open block collections, the innermost first. -/
  columns : List Nat := []
  /-- Whether a key may start here. -/
  keyAllowed : Bool := true
  /-- The possible keys, by the number of open brackets around them. -/
  keys : List (Nat × PossibleKey) := []

namespace Scan

def inFlow (s : Scan) : Bool := s.depth ≠ 0

/-- The column of the innermost block collection, before the first column outside all. -/
def indent (s : Scan) : Int :=
  match s.columns with
  | [] => -1
  | c :: _ => c

def emit (s : Scan) (t : Token) : Scan := { s with tokens := s.tokens ++ [t] }

def pass (s : Scan) (t : Token) : Scan := { s.emit t with cursor := s.cursor.next }

def isStale (s : Scan) (key : PossibleKey) : Bool :=
  key.start.line ≠ s.cursor.line || keyLimit < s.cursor.index - key.start.index

/-- Gives up the keys that are stale; none when one of them had to be a key. -/
def forgetStale? (s : Scan) : Option Scan :=
  if s.keys.any fun k => s.isStale k.2 && k.2.required then none
  else some { s with keys := s.keys.filter fun k => !s.isStale k.2 }

def forgetKey? (s : Scan) : Option Scan :=
  match s.keys.lookup s.depth with
  | some key =>
    if key.required then none
    else some { s with keys := s.keys.filter fun k => k.1 ≠ s.depth }
  | none => some s

def rememberKey? (s : Scan) : Option Scan :=
  if s.keyAllowed then do
    let required := !s.inFlow && s.indent = (s.cursor.column : Int)
    let key : PossibleKey := ⟨s.cursor, s.tokens.length, required⟩
    let s ← s.forgetKey?
    some { s with keys := (s.depth, key) :: s.keys }
  else some s

def unwind (s : Scan) (column : Int) : Scan :=
  if s.inFlow then s
  else
    let deeper := s.columns.takeWhile fun (c : Nat) => decide (column < (c : Int))
    { s with
      columns := s.columns.drop deeper.length
      tokens := s.tokens ++ List.replicate deeper.length .blockEnd }

/-- Opens a block collection in a column, at a place among the tokens, unless one is open there. -/
def openBlock (s : Scan) (column place : Nat) (t : Token) : Scan :=
  if s.indent < (column : Int) then
    { s with columns := column :: s.columns, tokens := s.tokens.insertIdx place t }
  else s

def skipFrom (s : Scan) : Nat → Scan
  | 0 => s
  | fuel + 1 =>
    let k := s.cursor.passComment
    match k.rest with
    | c :: _ =>
      if isBreak c then
        skipFrom { s with cursor := k.next, keyAllowed := s.keyAllowed || !s.inFlow } fuel
      else { s with cursor := k }
    | [] => { s with cursor := k }

/-- Goes to the next token. A byte order mark at the very start is passed over. -/
def skip (s : Scan) : Scan :=
  let k := s.cursor
  let k := if k.index = 0 && k.rest.head? = some '\ufeff' then k.next else k
  skipFrom { s with cursor := k } k.rest.length.succ

def separator? (s : Scan) (t : Token) : Option Scan := do
  let s ← (s.unwind (-1)).forgetKey?
  some { s.emit t with keyAllowed := false, cursor := s.cursor.forward 3 }

def directiveLine? (s : Scan) : Option Scan := do
  let s ← (s.unwind (-1)).forgetKey?
  let (t, k) ← directive? s.cursor
  some { s.emit t with keyAllowed := false, cursor := k }

def openFlow? (s : Scan) (t : Token) : Option Scan := do
  let s ← s.rememberKey?
  some { s.pass t with depth := s.depth + 1, keyAllowed := true }

def closeFlow? (s : Scan) (t : Token) : Option Scan := do
  let s ← s.forgetKey?
  if s.depth = 0 then none
  else some { s.pass t with depth := s.depth - 1, keyAllowed := false }

def comma? (s : Scan) : Option Scan := do
  let s ← s.forgetKey?
  some { s.pass .comma with keyAllowed := true }

def blockMark? (s : Scan) (collection mark : Token) : Option Scan :=
  if !s.inFlow && !s.keyAllowed then none
  else do
    let s := if s.inFlow then s else s.openBlock s.cursor.column s.tokens.length collection
    let s ← s.forgetKey?
    some (s.pass mark)

def item? (s : Scan) : Option Scan :=
  (s.blockMark? .blockList .item).map fun s => { s with keyAllowed := true }

def key? (s : Scan) : Option Scan :=
  (s.blockMark? .blockMap .key).map fun s => { s with keyAllowed := !s.inFlow }

/-- The colon of a value. The possible key before it becomes a key; without one the key is
empty. -/
def value? (s : Scan) : Option Scan :=
  match s.keys.lookup s.depth with
  | some key =>
    let s := { s with
      keys := s.keys.filter fun k => k.1 ≠ s.depth
      tokens := s.tokens.insertIdx key.place .key }
    let s := if s.inFlow then s else s.openBlock key.start.column key.place .blockMap
    some { s.pass .value with keyAllowed := false }
  | none => (s.blockMark? .blockMap .value).map fun s => { s with keyAllowed := !s.inFlow }

def property? (s : Scan) (found : Option (Token × Cursor)) : Option Scan := do
  let s ← s.rememberKey?
  let (t, k) ← found
  some { s.emit t with keyAllowed := false, cursor := k }

def scalar? (s : Scan) (isPlain : Bool) (found : Option Scanned) : Option Scan := do
  let s ← s.rememberKey?
  let found ← found
  some { s.emit (.scalar found.text isPlain) with
    keyAllowed := found.endedLine, cursor := found.cursor }

def blockScalar? (s : Scan) (isFolded : Bool) : Option Scan := do
  let s ← s.forgetKey?
  let found ← block? isFolded s.indent s.cursor
  some { s.emit (.scalar found.text false) with keyAllowed := true, cursor := found.cursor }

def token? (s : Scan) (c : Char) (rest : List Char) : Option Scan :=
  let k := s.cursor
  if c = '%' && k.column = 0 then s.directiveLine?
  else if k.column = 0 && k.isMarker '-' then s.separator? .documentStart
  else if k.column = 0 && k.isMarker '.' then s.separator? .documentEnd
  else if c = '[' then s.openFlow? .flowList
  else if c = '\x7b' then s.openFlow? .flowMap
  else if c = ']' then s.closeFlow? .flowListEnd
  else if c = '\x7d' then s.closeFlow? .flowMapEnd
  else if c = ',' then s.comma?
  else if c = '-' && endsWord rest then s.item?
  else if c = '?' && (s.inFlow || endsWord rest) then s.key?
  else if c = ':' && (s.inFlow || endsWord rest) then s.value?
  else if c = '*' then s.property? ((anchorName? k).map fun (n, k) => (.alias n, k))
  else if c = '&' then s.property? ((anchorName? k).map fun (n, k) => (.anchor n, k))
  else if c = '!' then s.property? (tag? k)
  else if c = '|' && !s.inFlow then s.blockScalar? false
  else if c = '>' && !s.inFlow then s.blockScalar? true
  else if c = '\'' || c = '"' then s.scalar? false (quoted? c k)
  else if startsPlain s.inFlow k.rest then s.scalar? true (some (plain s.inFlow (s.indent + 1) k))
  else none

def run? (s : Scan) : Nat → Option (List Token)
  | 0 => none
  | fuel + 1 => do
    let s ← s.skip.forgetStale?
    let s := s.unwind s.cursor.column
    match s.cursor.rest with
    | [] => (s.unwind (-1)).forgetKey?.map (·.tokens)
    | c :: rest => (← s.token? c rest).run? fuel

end Scan

/-- The tokens of a text; none when some part of it is no token or a key has no colon. -/
def tokens? (text : List Char) : Option (List Token) :=
  Scan.run? { cursor := { rest := text } } (text.length + 1)

end Yaml

end Listfile
