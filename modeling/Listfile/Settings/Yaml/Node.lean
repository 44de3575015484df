import Listfile.Settings.Yaml.Plain
import Listfile.Settings.Yaml.Property

/-!
Nodes: the tree that tokens describe. Aliases have become the nodes they stand for, every node has
its kind, and mappings have taken in what they merge.
-/

namespace Listfile

namespace Yaml

inductive Node where
  | scalar (kind : Kind) (text : Text)
  | list (kind : Kind) (items : List Node)
  /-- The flag says that what the mapping merges are mappings. -/
  | map (kind : Kind) (merges : Bool) (entries : List (Node × Node))
  deriving Repr

namespace Node

def empty : Node := .scalar .null []

def kind : Node → Kind
  | scalar k _ => k
  | list k _ => k
  | map k _ _ => k

def entries? : Node → Option (List (Node × Node))
  | map _ true entries => some entries
  | _ => none

/-- The entries that a merge takes in: those of a mapping, or those of a list of mappings, where
the first mapping of the list counts most. -/
def merged? : Node → Option (List (Node × Node))
  | list _ items => (items.mapM entries?).map fun found => found.reverse.flatten
  | n => n.entries?

/-- A mapping with its entries in order. What it merges stands before them, so that they count
more. -/
def ofEntries (kind : Kind) (entries : List (Node × Node)) : Node :=
  let (merges, own) := entries.partition fun e => e.1.kind = .merge
  match merges.mapM fun e => e.2.merged? with
  | some found => .map kind true (found.flatten ++ own)
  | none => .map kind false []

end Node

def coreTag : Text := "tag:yaml.org,2002:"

def taggedKinds : List (String × Kind) :=
  [("null", .null), ("bool", .bool), ("int", .int), ("float", .real), ("timestamp", .moment),
    ("str", .text), ("seq", .list), ("map", .map)]

def kindOfTag (tag : Text) : Kind :=
  match taggedKinds.find? fun p => coreTag ++ Text.ofString p.1 = tag with
  | some p => p.2
  | none => .unknown

def commonHandles : List (Text × Text) := [("!", "!"), ("!!", coreTag)]

/-- What is left to be read, and what the nodes so far have named. An anchor whose node is not
complete yet stands for none. -/
structure Reading where
  tokens : List Token
  anchors : List (Text × Option Node) := []
  handles : List (Text × Text) := commonHandles

abbrev Reader := StateT Reading Option

namespace Reader

def refuse {α : Type} : Reader α := fun _ => none

def peek : Reader (Option Token) := fun r => some (r.tokens.head?, r)

def advance : Reader Unit := fun r => some ((), { r with tokens := r.tokens.drop 1 })

def sees (tokens : List Token) : Reader Bool := fun r =>
  some ((r.tokens.head?.map tokens.contains).getD false, r)

def takes (t : Token) : Reader Bool := do
  if ← sees [t] then
    advance
    return true
  else return false

def expect (t : Token) : Reader Unit := do
  if ← takes t then return () else refuse

structure Properties where
  anchor : Option Text := none
  tag : Option (Option Text × Text) := none

def anchor? : Reader (Option Text) := do
  match ← peek with
  | some (.anchor name) => advance; return some name
  | _ => return none

def tag? : Reader (Option (Option Text × Text)) := do
  match ← peek with
  | some (.tag handle suffix) => advance; return some (handle, suffix)
  | _ => return none

def properties : Reader Properties := do
  match ← anchor? with
  | some name => return ⟨some name, ← tag?⟩
  | none =>
    match ← tag? with
    | some tag => return ⟨← anchor?, some tag⟩
    | none => return {}

def resolveTag : Option (Option Text × Text) → Reader (Option Text)
  | none => return none
  | some (none, suffix) => return some suffix
  | some (some handle, suffix) => fun r =>
    match r.handles.lookup handle with
    | some expansion => some (some (expansion ++ suffix), r)
    | none => none

def declare (anchor : Option Text) : Reader Unit := fun r =>
  match anchor with
  | none => some ((), r)
  | some name =>
    if (r.anchors.lookup name).isSome then none
    else some ((), { r with anchors := (name, none) :: r.anchors })

def assign (anchor : Option Text) (n : Node) : Reader Node := fun r =>
  match anchor with
  | none => some (n, r)
  | some name =>
    some (n, { r with anchors := (name, some n) :: r.anchors.filter fun a => a.1 ≠ name })

def aliased (name : Text) : Reader Node := fun r =>
  match r.anchors.lookup name with
  | some (some n) => some (n, r)
  | _ => none

/-- The kind of a scalar: what its tag asks for; without one, what it is spelled like if it is
plain, and a text otherwise. -/
def scalarKind (tag : Option Text) (text : Text) (isPlain : Bool) : Kind :=
  match tag with
  | none => if isPlain then spelled else .text
  | some tag => if tag = Text.ofString "!" then spelled else kindOfTag tag
where
  spelled : Kind := ((characters? text).map kindOf).getD .text

def collectionKind (tag : Option Text) (usual : Kind) : Kind :=
  match tag with
  | none => usual
  | some tag => if tag = Text.ofString "!" then usual else kindOfTag tag

mutual

/-- A node. Block collections are read where `block` allows them, and a list whose dashes stand in
the column of the key before it where `loose` does. -/
def node (fuel : Nat) (block loose : Bool) : Reader Node :=
  match fuel with
  | 0 => refuse
  | fuel + 1 => do
    match ← peek with
    | some (.alias name) => advance; aliased name
    | _ =>
      let p ← properties
      let tag ← resolveTag p.tag
      let listKind := collectionKind tag .list
      let mapKind := collectionKind tag .map
      match ← peek with
      | some .item =>
        if loose then
          declare p.anchor
          let items ← looseItems fuel []
          assign p.anchor (.list listKind items)
        else emptyNode p tag
      | some (.scalar text isPlain) =>
        advance
        declare p.anchor
        assign p.anchor (.scalar (scalarKind tag text isPlain) text)
      | some .flowList =>
        advance
        declare p.anchor
        let items ← flowItems fuel true []
        assign p.anchor (.list listKind items)
      | some .flowMap =>
        advance
        declare p.anchor
        let entries ← flowEntries fuel true []
        assign p.anchor (.ofEntries mapKind entries)
      | some .blockList =>
        if block then
          advance
          declare p.anchor
          let items ← blockItems fuel []
          assign p.anchor (.list listKind items)
        else emptyNode p tag
      | some .blockMap =>
        if block then
          advance
          declare p.anchor
          let entries ← blockEntries fuel []
          assign p.anchor (.ofEntries mapKind entries)
        else emptyNode p tag
      | _ => emptyNode p tag
where
  /-- A node may be left out after an anchor or a tag. -/
  emptyNode (p : Properties) (tag : Option Text) : Reader Node :=
    if p.anchor.isNone && p.tag.isNone then refuse
    else do
      declare p.anchor
      assign p.anchor (.scalar (scalarKind tag [] true) [])

def nodeUnless (fuel : Nat) (stops : List Token) (block loose : Bool) : Reader Node :=
  match fuel with
  | 0 => refuse
  | fuel + 1 => do
    if ← sees stops then return .empty else node fuel block loose

def blockItems (fuel : Nat) (items : List Node) : Reader (List Node) :=
  match fuel with
  | 0 => refuse
  | fuel + 1 => do
    if ← takes .item then
      let n ← nodeUnless fuel [.item, .blockEnd] true false
      blockItems fuel (items ++ [n])
    else
      expect .blockEnd
      return items

/-- The items of a list in the column of its key, which has no end of its own. -/
def looseItems (fuel : Nat) (items : List Node) : Reader (List Node) :=
  match fuel with
  | 0 => refuse
  | fuel + 1 => do
    if ← takes .item then
      let n ← nodeUnless fuel [.item, .key, .value, .blockEnd] true false
      looseItems fuel (items ++ [n])
    else return items

def blockEntries (fuel : Nat) (entries : List (Node × Node)) : Reader (List (Node × Node)) :=
  match fuel with
  | 0 => refuse
  | fuel + 1 => do
    let stops := [Token.key, .value, .blockEnd]
    if ← takes .key then
      let k ← nodeUnless fuel stops true true
      let v ← if ← takes .value then nodeUnless fuel stops true true else pure .empty
      blockEntries fuel (entries ++ [(k, v)])
    else
      expect .blockEnd
      return entries

/-- The items of a list in brackets. An item with a key is a mapping of one entry. -/
def flowItems (fuel : Nat) (first : Bool) (items : List Node) : Reader (List Node) :=
  match fuel with
  | 0 => refuse
  | fuel + 1 => do
    if ← takes .flowListEnd then return items
    else
      unless first do expect .comma
      if ← takes .flowListEnd then return items
      else if ← takes .key then
        let k ← nodeUnless fuel [.value, .comma, .flowListEnd] false false
        let v ← if ← takes .value then nodeUnless fuel [.comma, .flowListEnd] false false
          else pure .empty
        flowItems fuel false (items ++ [.ofEntries .map [(k, v)]])
      else
        let n ← node fuel false false
        flowItems fuel false (items ++ [n])

def flowEntries (fuel : Nat) (first : Bool) (entries : List (Node × Node)) :
    Reader (List (Node × Node)) :=
  match fuel with
  | 0 => refuse
  | fuel + 1 => do
    if ← takes .flowMapEnd then return entries
    else
      unless first do expect .comma
      if ← takes .flowMapEnd then return entries
      else if ← takes .key then
        let k ← nodeUnless fuel [.value, .comma, .flowMapEnd] false false
        let v ← if ← takes .value then nodeUnless fuel [.comma, .flowMapEnd] false false
          else pure .empty
        flowEntries fuel false (entries ++ [(k, v)])
      else
        let k ← node fuel false false
        flowEntries fuel false (entries ++ [(k, .empty)])

end

/-- Reads the directives before a document. A version has to be the first, and neither a version
nor a short form may be given twice. -/
def directives (fuel : Nat) (versioned : Bool) (handles : List (Text × Text)) : Reader Unit :=
  match fuel with
  | 0 => refuse
  | fuel + 1 => do
    match ← peek with
    | some (.directive (.version major)) =>
      advance
      if versioned || major ≠ 1 then refuse else directives fuel true handles
    | some (.directive (.handle name expansion)) =>
      advance
      if (handles.lookup name).isSome then refuse
      else directives fuel versioned ((name, expansion) :: handles)
    | some (.directive .other) =>
      advance
      directives fuel versioned handles
    | _ => fun r => some ((), { r with handles := handles ++ commonHandles })

def finish (fuel : Nat) : Reader Unit :=
  match fuel with
  | 0 => refuse
  | fuel + 1 => do
    if ← takes .documentEnd then finish fuel
    else if (← peek).isNone then return ()
    else refuse

def document (fuel : Nat) : Reader Node := do
  let n ← match ← peek with
    | some (.directive _) | some .documentStart =>
      directives fuel false []
      expect .documentStart
      match ← peek with
      | none | some (.directive _) | some .documentStart | some .documentEnd => pure .empty
      | _ => node fuel true false
    | none => pure .empty
    | _ => node fuel true false
  finish fuel
  return n

end Reader

def node? (tokens : List Token) : Option Node :=
  ((Reader.document (4 * tokens.length + 4)).run { tokens := tokens }).map (·.1)

end Yaml

end Listfile
