import Listfile.Text.Glyph

/-!
Numbers with a fraction, as settings hold them: binary floating point of double precision. A number
is shown by the fewest decimal digits that read back as the same number.
-/

namespace Listfile

structure Decimal where
  negative : Bool := false
  mantissa : Nat
  exponent : Int := 0
  deriving DecidableEq, Repr

namespace Decimal

/-- The quotient to the nearest integer, a half to the even one. -/
def roundDiv (n d : Nat) : Nat :=
  let q := n / d
  let twice := 2 * (n % d)
  if twice < d then q else if d < twice then q + 1 else q + q % 2

def scaled (n d : Nat) (q : Int) : Nat :=
  if q < 0 then roundDiv (n * Nat.pow 2 q.natAbs) d else roundDiv n (d * Nat.pow 2 q.natAbs)

def nearest (n d : Nat) : Nat × Int :=
  let guess : Int := max ((Nat.log2 n : Int) - Nat.log2 d - 52) (-1074)
  let low := max (guess - 1) (-1074)
  if scaled n d low < Nat.pow 2 53 then (scaled n d low, low)
  else if scaled n d (low + 1) < Nat.pow 2 53 then (scaled n d (low + 1), low + 1)
  else (scaled n d (low + 2), low + 2)

def fraction (mantissa : Nat) (exponent : Int) : Nat × Nat :=
  let power := Nat.pow 10 exponent.natAbs
  if exponent < 0 then (mantissa, power) else (mantissa * power, 1)

/-- The place of the point: beyond 400 no double reaches, below -400 all are zero. -/
def magnitude (x : Decimal) : Int := (Nat.toDigits 10 x.mantissa).length + x.exponent

def double (x : Decimal) : Nat × Int :=
  if x.mantissa = 0 || x.magnitude < -400 then (0, 0)
  else if 400 < x.magnitude then (1, 972)
  else
    let (n, d) := fraction x.mantissa x.exponent
    nearest n d

def isInfinite (x : Decimal) : Bool := Nat.pow 2 53 ≤ x.double.1 || 971 < x.double.2

def isZero (x : Decimal) : Bool := x.double.1 = 0

def exact (m : Nat) (q : Int) : Nat × Nat :=
  if q < 0 then (m, Nat.pow 2 q.natAbs) else (m * Nat.pow 2 q.natAbs, 1)

/-- A number of any precision stands for the nearest double; those beyond all doubles are one. -/
def rounded (x : Decimal) : Decimal :=
  let (m, q) := x.double
  if x.isInfinite then ⟨x.negative, 1, 401⟩
  else if q < 0 then ⟨x.negative, m * Nat.pow 5 q.natAbs, q⟩
  else ⟨x.negative, m * Nat.pow 2 q.natAbs, 0⟩

def mantissaAt (x : Decimal) (exponent : Int) : Int :=
  let n := x.mantissa * Nat.pow 10 (x.exponent - exponent).natAbs
  if x.negative then -(n : Int) else n

def sameNumber (x y : Decimal) : Bool :=
  let exponent := min x.exponent y.exponent
  x.mantissaAt exponent = y.mantissaAt exponent

def add (x y : Decimal) : Decimal :=
  let exponent := min x.exponent y.exponent
  let n := x.mantissaAt exponent + y.mantissaAt exponent
  ⟨n < 0, n.natAbs, exponent⟩

def times (x y : Decimal) : Decimal :=
  ⟨x.negative != y.negative, x.mantissa * y.mantissa, x.exponent + y.exponent⟩

def pointOf (n d : Nat) : Int :=
  let whole := (Nat.toDigits 10 (n / d)).length
  if d ≤ n then whole
  else -(((List.range 400).takeWhile fun k => n * Nat.pow 10 (k + 1) < d).length : Int)

/-- The digits with a given count that read back as the double, nearest first. -/
def digits? (target : Nat × Int) (n d : Nat) (point : Int) (count : Nat) : Option Nat :=
  let unit := point - count
  let power := Nat.pow 10 unit.natAbs
  let (n', d') := if unit < 0 then (n * power, d) else (n, d * power)
  let near := roundDiv n' d'
  let far := if near = n' / d' then near + 1 else near - 1
  let readsBack := fun c : Nat => (Decimal.double ⟨false, c, unit⟩) = target
  if near ≠ 0 && readsBack near then some near
  else if far ≠ 0 && readsBack far then some far
  else none

/-- The fewest digits that read back, and the place of the point before them. -/
def shortest (x : Decimal) : List Char × Int :=
  let target := x.double
  let (n, d) := exact target.1 target.2
  let point := pointOf n d
  let counted := fun k => (digits? target n d point (k + 1)).map fun c => (c, k)
  match (List.range 17).findSome? counted with
  | some (c, k) =>
    let shown := Nat.toDigits 10 c
    let trimmed := (shown.reverse.dropWhile (· = '0')).reverse
    (trimmed, point + (shown.length - (k + 1) : Int))
  | none => (Nat.toDigits 10 n, point)

/-- Positional notation for points from -3 to 16, scientific notation beyond. -/
def layout (digits : List Char) (point : Int) : List Char :=
  if point ≤ -4 || 16 < point then
    let power := (point - 1).natAbs
    let sign := if point - 1 < 0 then '-' else '+'
    let shown := Nat.toDigits 10 power
    let fractionPart := match digits.drop 1 with
      | [] => []
      | rest => '.' :: rest
    let filler := if shown.length < 2 then ['0'] else []
    digits.take 1 ++ fractionPart ++ ['e', sign] ++ filler ++ shown
  else if point ≤ 0 then '0' :: '.' :: List.replicate point.natAbs '0' ++ digits
  else
    let whole := point.toNat
    if digits.length ≤ whole then
      digits ++ List.replicate (whole - digits.length) '0' ++ ['.', '0']
    else digits.take whole ++ ['.'] ++ digits.drop whole

def render (x : Decimal) : Text :=
  let sign := if x.negative then ['-'] else []
  let body :=
    if x.isZero then ['0', '.', '0']
    else if x.isInfinite then ['i', 'n', 'f']
    else
      let (digits, point) := x.shortest
      layout digits point
  (sign ++ body).map Glyph.char

end Decimal

end Listfile
