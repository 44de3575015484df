import Listfile.Settings.Yaml.Node
import Listfile.Settings.Yaml.Scan
import Listfile.Text.Utf8

/-!
Reading a settings file. A text that is refused, or holds no mapping, gives no settings. Values are
read level by level from the top: of several that cannot be read, the one nearest to the top is
reported, and on one level the first.
-/

namespace Listfile

namespace Yaml

/-- Why a value cannot be read: the file counts as having no settings, or reading fails. -/
inductive Problem where
  | refused
  | fault (f : ValueFault)
  deriving DecidableEq, Repr

structure Finding where
  level : Nat
  problem : Problem

def Finding.first (a b : Option Finding) : Option Finding :=
  match a, b with
  | some f, some g => if g.level < f.level then some g else some f
  | some f, none => some f
  | none, b => b

structure Built where
  value : Value
  finding : Option Finding := none

namespace Built

def failed (level : Nat) (problem : Problem) : Built := ⟨.null, some ⟨level, problem⟩⟩

def scalar (level : Nat) (kind : Kind) (text : Text) : Built :=
  match kind with
  | .list | .map => failed (level + 1) .refused
  | kind =>
    match scalarValue? kind text with
    | some (.ok v) => ⟨v, none⟩
    | some (.error f) => failed level (.fault f)
    | none => failed level .refused

mutual

/-- The value of a node that is met at a level; what a collection holds is met one level below. -/
def ofNode (level : Nat) : Node → Built
  | .scalar kind text => scalar level kind text
  | .list .list items =>
    let (values, finding) := ofItems (level + 1) items
    ⟨.list values, finding⟩
  | .map .map true entries =>
    let (pairs, finding) := ofEntries (level + 1) entries
    ⟨.map (pairs.foldl (fun found e => Value.put e.1 e.2 found) []), finding⟩
  | .list .map _ | .map .list _ _ | .map .map false _ => failed (level + 1) .refused
  | .list _ _ | .map _ _ _ => failed level .refused

def ofItems (level : Nat) : List Node → List Value × Option Finding
  | [] => ([], none)
  | n :: rest =>
    let built := ofNode level n
    let (values, finding) := ofItems level rest
    (built.value :: values, Finding.first built.finding finding)

def ofEntries (level : Nat) : List (Node × Node) → List (Value × Value) × Option Finding
  | [] => ([], none)
  | (k, v) :: rest =>
    let key := match k with
      | .scalar .standard text => ⟨.text text, none⟩
      | k => ofNode level k
    let key := if key.value.isKey then key else failed level .refused
    let value := ofNode level v
    let (pairs, finding) := ofEntries level rest
    ((key.value, value.value) :: pairs,
      Finding.first key.finding (Finding.first value.finding finding))

end

end Built

def isAllowed (c : Char) : Bool :=
  let n := c.toNat
  n = 0x09 || n = 0x0A || n = 0x0D || (0x20 ≤ n && n ≤ 0x7E) || n = 0x85 ||
    (0xA0 ≤ n && n ≤ 0xFFFD) || 0x10000 ≤ n

def unifyBreaks : List Char → List Char
  | '\r' :: '\n' :: rest => '\n' :: unifyBreaks rest
  | '\r' :: rest => '\n' :: unifyBreaks rest
  | c :: rest => c :: unifyBreaks rest
  | [] => []

def tree? (text : List Char) : Option Node :=
  if text.all isAllowed then (tokens? text).bind node? else none

def settings (bytes : Bytes) : Except ValueFault (List (Value × Value)) :=
  let chars := (Utf8.decode bytes).filterMap fun
    | .char c => some c
    | .stray _ => none
  match (tree? (unifyBreaks chars)).map (Built.ofNode 0) with
  | some ⟨.map entries, none⟩ => .ok entries
  | some ⟨_, some ⟨_, .fault f⟩⟩ => .error f
  | _ => .ok []

end Yaml

end Listfile
