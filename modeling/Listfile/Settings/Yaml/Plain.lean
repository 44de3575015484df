import Listfile.Settings.Value
import Listfile.Settings.Yaml.Scalar

/-!
What a scalar stands for. A plain scalar is a truth value, a number, a date or a moment when it is
spelled like one, and a text otherwise; a tag may ask for one of them.
-/

namespace Listfile

namespace Yaml

inductive Kind where
  | null
  | bool
  | int
  | real
  | moment
  | text
  | list
  | map
  /-- A key whose value is merged into its mapping. -/
  | merge
  /-- The mark of a default value, which is a text only as a key. -/
  | standard
  /-- A kind that settings do not hold. -/
  | unknown
  deriving DecidableEq, Repr

def trueWords : List String := ["yes", "Yes", "YES", "true", "True", "TRUE", "on", "On", "ON"]
def falseWords : List String := ["no", "No", "NO", "false", "False", "FALSE", "off", "Off", "OFF"]
def nullWords : List String := ["", "~", "null", "Null", "NULL"]

def isBinary (c : Char) : Bool := c = '0' || c = '1' || c = '_'
def isOctal (c : Char) : Bool := ('0' ≤ c && c ≤ '7') || c = '_'
def isDecimal (c : Char) : Bool := c.isDigit || c = '_'
def isHex (c : Char) : Bool := (hexValue? c).isSome || c = '_'

def characters? (t : Text) : Option (List Char) :=
  t.mapM fun
    | .char c => some c
    | .stray _ => none

def unsigned : List Char → Bool × List Char
  | '-' :: rest => (true, rest)
  | '+' :: rest => (false, rest)
  | cs => (false, cs)

def splitColons (cs : List Char) : List (List Char) :=
  cs.foldr (fun c parts =>
    if c = ':' then [] :: parts
    else match parts with
      | [] => [[c]]
      | part :: rest => (c :: part) :: rest) [[]]

def isSixtieth : List Char → Bool
  | [c] => c.isDigit
  | [c, d] => '0' ≤ c && c ≤ '5' && d.isDigit
  | _ => false

/-- Whether an integer without its sign is spelled like one: in base two, eight, ten, sixteen, or
sixty with colons. -/
def isInteger : List Char → Bool
  | ['0'] => true
  | '0' :: 'b' :: rest => !rest.isEmpty && rest.all isBinary
  | '0' :: 'x' :: rest => !rest.isEmpty && rest.all isHex
  | '0' :: rest => rest.all isOctal
  | cs =>
    match splitColons cs with
    | first :: others =>
      ((first.head?.map Char.isDigit).getD false) && first.all isDecimal && others.all isSixtieth
    | [] => false

def isPower : List Char → Bool
  | [] => true
  | e :: sign :: digits =>
    (e = 'e' || e = 'E') && (sign = '+' || sign = '-') && !digits.isEmpty &&
      digits.all Char.isDigit
  | _ => false

/-- Whether a number with a point is spelled like one: digits around the point and perhaps a power
of ten, or parts in base sixty before the point. A number that starts with its point has no
sign. -/
def isReal (signed : Bool) (cs : List Char) : Bool :=
  let whole := cs.takeWhile fun c => c ≠ '.'
  match cs.dropWhile fun c => c ≠ '.' with
  | [] => false
  | _ :: part =>
    match splitColons whole with
    | [[]] =>
      [".inf", ".Inf", ".INF"].contains (String.ofList cs) ||
      (!signed && ((part.head?.map Char.isDigit).getD false) &&
        isPower (part.dropWhile isDecimal))
    | [first] =>
      (first.head?.map Char.isDigit).getD false && first.all isDecimal &&
        isPower (part.dropWhile isDecimal)
    | first :: others =>
      (first.head?.map Char.isDigit).getD false && first.all isDecimal &&
        others.all isSixtieth && part.all isDecimal
    | [] => false

def notANumberWords : List String := [".nan", ".NaN", ".NAN"]

def shortNumber? : List Char → Option (Nat × Nat × List Char)
  | c :: d :: rest =>
    if c.isDigit && d.isDigit then some ((c.toNat - 48) * 10 + (d.toNat - 48), 2, rest)
    else if c.isDigit then some (c.toNat - 48, 1, d :: rest)
    else none
  | [c] => if c.isDigit then some (c.toNat - 48, 1, []) else none
  | [] => none

def twoDigits? (cs : List Char) : Option (Nat × List Char) :=
  match shortNumber? cs with
  | some (n, 2, rest) => some (n, rest)
  | _ => none

def after? (c : Char) : List Char → Option (List Char)
  | d :: rest => if c = d then some rest else none
  | [] => none

/-- The distance from universal time at the end of a moment, in minutes; none inside for no
distance at all. -/
def zone? (cs : List Char) : Option (Option Int) :=
  match cs.dropWhile isBlank with
  | [] => if cs.isEmpty then some none else none
  | ['Z'] => some (some 0)
  | sign :: rest =>
    if sign ≠ '+' && sign ≠ '-' then none
    else do
      let (hours, _, rest) ← shortNumber? rest
      let (minutes, rest) ← match rest with
        | ':' :: rest => twoDigits? rest
        | rest => some (0, rest)
      if !rest.isEmpty then none
      else
        let total : Int := hours * 60 + minutes
        some (some (if sign = '-' then -total else total))

def microseconds (digits : List Char) : Nat :=
  ((digits ++ List.replicate 6 '0').take 6).foldl (fun n c => n * 10 + (c.toNat - 48)) 0

/-- A date and perhaps a moment in it, as spelled; the calendar is not looked at. The flag says
that month and day have two digits each. -/
def calendar? (cs : List Char) : Option (Date × Bool × Option Moment) := do
  let (century, rest) ← twoDigits? cs
  let (year, rest) ← twoDigits? rest
  let rest ← after? '-' rest
  let (month, monthWidth, rest) ← shortNumber? rest
  let rest ← after? '-' rest
  let (day, dayWidth, rest) ← shortNumber? rest
  let date : Date := ⟨century * 100 + year, month, day⟩
  let wide := monthWidth = 2 && dayWidth = 2
  if rest.isEmpty then some (date, wide, none)
  else do
    let rest ← match rest with
      | c :: more =>
        if c = 'T' || c = 't' then some more
        else if isBlank c then some (more.dropWhile isBlank)
        else none
      | [] => none
    let (hour, _, rest) ← shortNumber? rest
    let (minute, rest) ← (after? ':' rest).bind twoDigits?
    let (second, rest) ← (after? ':' rest).bind twoDigits?
    let (digits, rest) := match rest with
      | '.' :: rest => (rest.takeWhile Char.isDigit, rest.dropWhile Char.isDigit)
      | rest => ([], rest)
    let offset ← zone? rest
    some (date, wide, some ⟨date, hour, minute, second, microseconds digits, offset⟩)

def isMoment (cs : List Char) : Bool :=
  match calendar? cs with
  | some (_, wide, none) => wide
  | some (_, _, some _) => true
  | none => false

def kindOf (cs : List Char) : Kind :=
  let word := String.ofList cs
  let number := unsigned cs
  if nullWords.contains word then .null
  else if trueWords.contains word || falseWords.contains word then .bool
  else if isReal (number.2.length ≠ cs.length) number.2 || notANumberWords.contains word then .real
  else if isInteger number.2 then .int
  else if isMoment cs then .moment
  else if word = "<<" then .merge
  else if word = "=" then .standard
  else .text

def digitsIn (base : Nat) (digits : List Char) : Nat :=
  digits.foldl (fun n c => n * base + (hexValue? c).getD 0) 0

def decimalNumeral (digits : List Char) : Except ValueFault Nat :=
  if ValueFault.digitLimit < digits.length then .error (.tooManyDigits digits.length)
  else .ok (digitsIn 10 digits)

def markedNumeral (base : Nat) (digits : List Char) : Except ValueFault Nat :=
  if digits.isEmpty then .error (.noDigits base) else .ok (digitsIn base digits)

def natural : List Char → Except ValueFault Nat
  | '0' :: 'b' :: rest => markedNumeral 2 rest
  | '0' :: 'x' :: rest => markedNumeral 16 rest
  | '0' :: rest => .ok (digitsIn 8 rest)
  | cs => do
    let parts ← (splitColons cs).mapM decimalNumeral
    return parts.foldl (fun n part => n * 60 + part) 0

def integer (cs : List Char) : Except ValueFault Value :=
  let (negative, body) := unsigned (cs.filter (· ≠ '_'))
  (natural body).map fun n => .int (if negative then -(n : Int) else n)

def decimal (cs : List Char) : Decimal :=
  let mantissa := cs.takeWhile fun c => c ≠ 'e' && c ≠ 'E'
  let power := unsigned (cs.drop (mantissa.length + 1))
  let whole := mantissa.takeWhile fun c => c ≠ '.'
  let part := mantissa.drop (whole.length + 1)
  let exponent : Int := digitsIn 10 power.2
  ⟨false, digitsIn 10 (whole ++ part), (if power.1 then -exponent else exponent) - part.length⟩

/-- Sums parts in base sixty, the last first, rounding at every step. -/
def sumSixtieths (sum : Decimal) (base : Nat) : List (List Char) → Decimal
  | [] => sum
  | part :: rest =>
    let weight := (⟨false, base, 0⟩ : Decimal).rounded
    let term := ((decimal part).rounded.times weight).rounded
    sumSixtieths (sum.add term).rounded (base * 60) rest

def realNumber (cs : List Char) : Value :=
  let (negative, body) := unsigned (cs.filter (· ≠ '_'))
  let word := (String.ofList body).toLower
  if word = ".nan" then .notANumber
  else if word = ".inf" then .real ⟨negative, 1, 401⟩
  else
    match splitColons body with
    | [only] => .real { decimal only with negative := negative }
    | parts =>
      .real { sumSixtieths ⟨false, 0, 0⟩ 1 parts.reverse with negative := negative }

def moment (date : Date) (m : Option Moment) : Except ValueFault Value :=
  match m with
  | none =>
    match date.fault? with
    | some f => .error (.moment f)
    | none => .ok (.date date)
  | some m =>
    match m.fault? with
    | some f => .error (.moment f)
    | none => .ok (.moment m)

def truth? (cs : List Char) : Option Bool :=
  let word := (String.ofList cs).toLower
  if trueWords.contains word then some true
  else if falseWords.contains word then some false
  else none

/-- The value of a scalar of a kind; none when it is not spelled like one of that kind. -/
def scalarValue? (kind : Kind) (text : Text) : Option (Except ValueFault Value) :=
  match kind with
  | .null => some (.ok .null)
  | .text => some (.ok (.text text))
  | kind => do
    let cs ← characters? text
    let body := (unsigned cs).2
    match kind with
    | .bool => (truth? cs).map fun b => .ok (.bool b)
    | .int => if isInteger body then some (integer cs) else none
    | .real =>
      if kindOf cs = .real || (isInteger body && body.all isDecimal) then
        some (.ok (realNumber cs))
      else none
    | .moment => (calendar? cs).map fun (date, _, m) => moment date m
    | _ => none

end Yaml

end Listfile
