import SecureGroup.Bytes

/-!
# Points in time

A point in time is a number of milliseconds since the beginning of 1970, of any sign.  Its texts
follow RFC 3339 in the proleptic Gregorian calendar; a year beyond four digits carries its sign.
-/

namespace SecureGroup

/-- A point in time: milliseconds since the beginning of 1970. -/
structure Timestamp where
  ms : Int
deriving DecidableEq

structure Date where
  year : Int
  month : Nat
  day : Nat
deriving DecidableEq

/-- The digits of a number, with zeros in front up to a width. -/
def paddedDigits (width n : Nat) : String :=
  let ds := Nat.toDigits 10 n
  String.ofList (List.replicate (width - ds.length) '0' ++ ds)

namespace Date

/-- The day so many days after the first of 1970.  Days are counted from the first of March, so
that a leap day is the last of its year, and in cycles of 400 years. -/
def ofDays (days : Int) : Date :=
  let fromMarch := days + 719468
  let cycle := fromMarch / 146097
  let dayOfCycle := (fromMarch % 146097).toNat
  let yearOfCycle :=
    (dayOfCycle - dayOfCycle / 1460 + dayOfCycle / 36524 - dayOfCycle / 146096) / 365
  let dayOfYear := dayOfCycle - (365 * yearOfCycle + yearOfCycle / 4 - yearOfCycle / 100)
  let fromMarchMonth := (5 * dayOfYear + 2) / 153
  let month := if fromMarchMonth < 10 then fromMarchMonth + 3 else fromMarchMonth - 9
  { year := yearOfCycle + cycle * 400 + (if month ≤ 2 then 1 else 0)
    month := month
    day := dayOfYear - (153 * fromMarchMonth + 2) / 5 + 1 }

/-- A year of four digits, or of more with its sign. -/
def yearText (year : Int) : String :=
  if 0 ≤ year ∧ year < 10000 then paddedDigits 4 year.toNat
  else (if year < 0 then "-" else "+") ++ paddedDigits 4 year.natAbs

def toText (d : Date) : String :=
  yearText d.year ++ "-" ++ paddedDigits 2 d.month ++ "-" ++ paddedDigits 2 d.day

end Date

namespace Timestamp

/-- The end of the year 2199, for what does not expire. -/
def farFuture : Timestamp := ⟨7258032000000⟩

/-- The eight octets of a point in time, the lowest first. -/
def octets (t : Timestamp) : Bytes := Bytes.ofNatLE 8 (t.ms % 0x10000000000000000).toNat

def date (t : Timestamp) : Date := Date.ofDays (t.ms / 86400000)

/-- The milliseconds since the last full second. -/
def fraction (t : Timestamp) : Nat := (t.ms % 1000).toNat

/-- The date and the time of day, in full seconds. -/
def seconds (t : Timestamp) : String :=
  let s := (t.ms / 1000 % 86400).toNat
  t.date.toText ++ "T" ++ paddedDigits 2 (s / 3600) ++ ":" ++ paddedDigits 2 (s / 60 % 60) ++ ":" ++
    paddedDigits 2 (s % 60)

/-- The text with milliseconds. -/
def toText (t : Timestamp) : String := t.seconds ++ "." ++ paddedDigits 3 t.fraction ++ "Z"

/-- The text with milliseconds only where there are any. -/
def toShortText (t : Timestamp) : String :=
  if t.fraction = 0 then t.seconds ++ "Z" else t.toText

end Timestamp

end SecureGroup
