import Listfile.Text.Glyph

/-!
Dates and times of day in settings. A moment may say how far its clock is ahead of universal time,
in minutes; a date or moment that no calendar has is a fault.
-/

namespace Listfile

structure Date where
  year : Nat
  month : Nat
  day : Nat
  deriving DecidableEq, Repr

structure Moment where
  date : Date
  hour : Nat
  minute : Nat
  second : Nat
  microsecond : Nat := 0
  /-- Minutes ahead of universal time, if the moment says so. -/
  offset : Option Int := none
  deriving DecidableEq, Repr

inductive MomentFault where
  | year (n : Nat)
  | month
  | day
  | hour
  | minute
  | second
  | offset (minutes : Int)
  deriving DecidableEq, Repr

def Text.padded (width n : Nat) : Text :=
  let digits := Text.ofNat n
  List.replicate (width - digits.length) (.char '0') ++ digits

/-- A length of time as a call that makes it: whole days, then the seconds beyond them. -/
def durationCall (minutes : Int) : Text :=
  let seconds := minutes * 60
  let parts : List Text :=
    (if seconds / 86400 = 0 then []
      else [Text.ofString "days=" ++ Text.ofInt (seconds / 86400)]) ++
    (if seconds % 86400 = 0 then []
      else [Text.ofString "seconds=" ++ Text.ofInt (seconds % 86400)])
  let inside := if parts.isEmpty then Text.ofString "0" else Text.join ", " parts
  Text.ofString "datetime.timedelta(" ++ inside ++ Text.ofString ")"

def MomentFault.message : MomentFault → Text
  | year n => Text.ofString "year " ++ Text.ofNat n ++ Text.ofString " is out of range"
  | month => "month must be in 1..12"
  | day => "day is out of range for month"
  | hour => "hour must be in 0..23"
  | minute => "minute must be in 0..59"
  | second => "second must be in 0..59"
  | offset minutes =>
    Text.ofString "offset must be a timedelta strictly between -timedelta(hours=24) and " ++
      Text.ofString "timedelta(hours=24), not " ++ durationCall minutes ++ Text.ofString "."

namespace Date

def isLeap (year : Nat) : Bool := year % 4 = 0 && (year % 100 ≠ 0 || year % 400 = 0)

def daysIn (year month : Nat) : Nat :=
  if month = 2 then if isLeap year then 29 else 28
  else if [4, 6, 9, 11].contains month then 30
  else 31

def fault? (d : Date) : Option MomentFault :=
  if d.year = 0 then some (.year 0)
  else if d.month = 0 || 12 < d.month then some .month
  else if d.day = 0 || daysIn d.year d.month < d.day then some .day
  else none

def render (d : Date) : Text :=
  Text.padded 4 d.year ++ Text.ofString "-" ++ Text.padded 2 d.month ++ Text.ofString "-" ++
    Text.padded 2 d.day

def numbers (d : Date) : List Nat := [d.year, d.month, d.day]

def call (d : Date) : Text :=
  Text.ofString "datetime.date(" ++ Text.join ", " (d.numbers.map Text.ofNat) ++
    Text.ofString ")"

end Date

namespace Moment

/-- What keeps a moment out of the calendar; its distance from universal time is looked at
first. -/
def fault? (m : Moment) : Option MomentFault :=
  match m.offset.filter fun minutes => 1440 ≤ minutes.natAbs with
  | some minutes => some (.offset minutes)
  | none =>
    match m.date.fault? with
    | some f => some f
    | none =>
      if 23 < m.hour then some .hour
      else if 59 < m.minute then some .minute
      else if 59 < m.second then some .second
      else none

def renderOffset (minutes : Int) : Text :=
  Text.ofString (if minutes < 0 then "-" else "+") ++ Text.padded 2 (minutes.natAbs / 60) ++
    Text.ofString ":" ++ Text.padded 2 (minutes.natAbs % 60)

def render (m : Moment) : Text :=
  let fraction :=
    if m.microsecond = 0 then [] else Text.ofString "." ++ Text.padded 6 m.microsecond
  m.date.render ++ Text.ofString " " ++ Text.padded 2 m.hour ++ Text.ofString ":" ++
    Text.padded 2 m.minute ++ Text.ofString ":" ++ Text.padded 2 m.second ++ fraction ++
    ((m.offset.map renderOffset).getD [])

def zoneCall (minutes : Int) : Text :=
  if minutes = 0 then "datetime.timezone.utc"
  else Text.ofString "datetime.timezone(" ++ durationCall minutes ++ Text.ofString ")"

/-- A moment as a call that makes it; seconds and fractions that are zero are left out. -/
def call (m : Moment) : Text :=
  let fine :=
    if m.microsecond ≠ 0 then [m.second, m.microsecond]
    else if m.second ≠ 0 then [m.second]
    else []
  let zone := match m.offset with
    | some minutes => [Text.ofString "tzinfo=" ++ zoneCall minutes]
    | none => []
  let parts := (m.date.numbers ++ [m.hour, m.minute] ++ fine).map Text.ofNat ++ zone
  Text.ofString "datetime.datetime(" ++ Text.join ", " parts ++ Text.ofString ")"

end Moment

end Listfile
