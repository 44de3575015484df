import Listfile.Settings.Moment
import Listfile.Settings.Real
import Listfile.Text.Printable

/-!
Values of a settings file. Where a setting wants a text, any value is shown as one, unless it
holds an integer that is too large to be shown.
-/

namespace Listfile

inductive ValueFault where
  /-- A decimal integer with more digits than are read. -/
  | tooManyDigits (count : Nat)
  /-- An integer with more digits than are shown. -/
  | tooLarge
  /-- A mark for a base with no digit after it. -/
  | noDigits (base : Nat)
  | moment (f : MomentFault)
  deriving DecidableEq, Repr

namespace ValueFault

def digitLimit : Nat := 4300

def limitText : Text :=
  Text.ofString "Exceeds the limit (" ++ Text.ofNat digitLimit ++
    Text.ofString " digits) for integer string conversion"

def limitAdvice : Text := "; use sys.set_int_max_str_digits() to increase the limit"

def message : ValueFault → Text
  | tooManyDigits count =>
    limitText ++ Text.ofString ": value has " ++ Text.ofNat count ++ Text.ofString " digits" ++
      limitAdvice
  | tooLarge => limitText ++ limitAdvice
  | noDigits base =>
    Text.ofString "invalid literal for int() with base " ++ Text.ofNat base ++
      Text.ofString ": ''"
  | moment f => f.message

end ValueFault

inductive Value where
  | null
  | bool (b : Bool)
  | int (n : Int)
  | real (x : Decimal)
  /-- The number that differs from every number, itself included. -/
  | notANumber
  | date (d : Date)
  | moment (m : Moment)
  | text (t : Text)
  | list (items : List Value)
  | map (entries : List (Value × Value))
  deriving Repr, Inhabited

namespace Value

def isTrue : Value → Bool
  | null => false
  | bool b => b
  | int n => n ≠ 0
  | real x => !x.isZero
  | notANumber => true
  | date _ => true
  | moment _ => true
  | text t => !t.isEmpty
  | list items => !items.isEmpty
  | map entries => !entries.isEmpty

mutual

/-- A value as it is shown inside another; texts are quoted. -/
def inner : Value → Text
  | null => "None"
  | bool true => "True"
  | bool false => "False"
  | int n => Text.ofInt n
  | real x => x.render
  | notANumber => "nan"
  | date d => d.call
  | moment m => m.call
  | text t => t.quoted
  | list items => .char '[' :: innerItems items ++ [.char ']']
  | map entries => .char '\x7b' :: innerEntries entries ++ [.char '\x7d']

def innerItems : List Value → Text
  | [] => []
  | [v] => inner v
  | v :: w :: rest => inner v ++ Text.ofString ", " ++ innerItems (w :: rest)

def innerEntries : List (Value × Value) → Text
  | [] => []
  | [(k, v)] => inner k ++ Text.ofString ": " ++ inner v
  | (k, v) :: e :: rest =>
    inner k ++ Text.ofString ": " ++ inner v ++ Text.ofString ", " ++ innerEntries (e :: rest)

end

mutual

def isShowable : Value → Bool
  | int n => n.natAbs < Nat.pow 10 ValueFault.digitLimit
  | list items => areShowable items
  | map entries => entriesShowable entries
  | _ => true

def areShowable : List Value → Bool
  | [] => true
  | v :: rest => isShowable v && areShowable rest

def entriesShowable : List (Value × Value) → Bool
  | [] => true
  | (k, v) :: rest => isShowable k && isShowable v && entriesShowable rest

end

def toText (v : Value) : Except ValueFault Text :=
  match v with
  | text t => .ok t
  | date d => .ok d.render
  | moment m => .ok m.render
  | v => if v.isShowable then .ok v.inner else .error .tooLarge

/-- The number that a value is; truth values are the numbers one and zero. -/
def number? : Value → Option Decimal
  | bool b => some ⟨false, if b then 1 else 0, 0⟩
  | int n => some ⟨n < 0, n.natAbs, 0⟩
  | real x => some x.rounded
  | _ => none

def sameKey (v w : Value) : Bool :=
  match v, w with
  | null, null => true
  | text s, text t => s = t
  | date d, date e => d = e
  | moment m, moment n => m = n
  | v, w =>
    match v.number?, w.number? with
    | some x, some y => x.sameNumber y
    | _, _ => false

def isKey : Value → Bool
  | list _ | map _ => false
  | _ => true

/-- Sets a key of a mapping; a key that is there keeps its place and spelling. -/
def put (key value : Value) : List (Value × Value) → List (Value × Value)
  | [] => [(key, value)]
  | (k, v) :: rest => if k.sameKey key then (k, value) :: rest else (k, v) :: put key value rest

/-- The value of a setting; null counts as missing. -/
def get? (entries : List (Value × Value)) (name : Text) : Option Value :=
  match entries.find? fun e => e.1.sameKey (.text name) with
  | some (_, .null) => none
  | some (_, v) => some v
  | none => none

end Value

end Listfile
