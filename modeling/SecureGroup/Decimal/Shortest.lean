/-!
# The shortest decimal that reads back

A binary floating-point number `m * 2 ^ q` stands for every real that rounds to it: the interval
half a step to either side, its ends included when `m` is even.  `shortest` is the decimal with
the fewest digits in that interval, of those the nearest to the number, and of two equally near
the even one.  For each count of digits only the two neighbours of the number on that decimal grid
can lie in the interval if any does.
-/

namespace SecureGroup.Decimal

/-! ## Algorithm -/

/-- The interval of reals that round to a number, and the number itself, over one denominator. -/
structure Interval where
  low : Nat
  value : Nat
  high : Nat
  den : Nat
  closed : Bool

/-- The interval of `m * 2 ^ q`; below a power of two the step is half as wide, unless `q` is the
least exponent there is. -/
def Interval.of (m : Nat) (q : Int) (narrow : Bool) : Interval :=
  let up := 1 <<< q.toNat
  { low := (4 * m - if narrow then 1 else 2) * up
    value := 4 * m * up
    high := (4 * m + 2) * up
    den := 4 <<< (-q).toNat
    closed := m % 2 = 0 }

def digitCount (n : Nat) : Nat := (Nat.toDigits 10 n).length

/-- The exponent of the first digit of a positive rational number. -/
def magnitude (num den : Nat) : Int :=
  if den ≤ num then digitCount (num / den) - 1 else -(digitCount ((den - 1) / num))

/-- Whether `g * 10 ^ k` lies in the interval. -/
def Interval.holds (i : Interval) (g : Nat) (k : Int) : Bool :=
  let point := g * Nat.pow 10 k.toNat * i.den
  let scale := Nat.pow 10 (-k).toNat
  if i.closed then i.low * scale ≤ point && point ≤ i.high * scale
  else i.low * scale < point && point < i.high * scale

/-- The multiple of `10 ^ k` in the interval that is nearest to the number, if there is one. -/
def Interval.onGrid (i : Interval) (k : Int) : Option Nat :=
  let num := i.value * Nat.pow 10 (-k).toNat
  let den := i.den * Nat.pow 10 k.toNat
  let g := num / den
  let rest := num % den
  match i.holds g k, i.holds (g + 1) k with
  | true, true =>
    if 2 * rest < den then some g
    else if den < 2 * rest then some (g + 1)
    else if g % 2 = 0 then some g else some (g + 1)
  | true, false => some g
  | false, true => some (g + 1)
  | false, false => none

/-- The digits and the exponent of the shortest decimal, from a count of digits on.  A number just
below a power of ten may round up to it, which leaves a zero to drop. -/
def Interval.shortestFrom (i : Interval) (e : Int) (digits : Nat) : Nat → Nat × Int
  | 0 => (i.value / i.den, 0)
  | fuel + 1 =>
    let k := e - digits + 1
    match i.onGrid k with
    | some g => if g % 10 = 0 then (g / 10, k + 1) else (g, k)
    | none => i.shortestFrom e (digits + 1) fuel

/-- The shortest decimal `d * 10 ^ k` that rounds to `m * 2 ^ q`, for a positive `m` below
`2 ^ 53`; seventeen digits always suffice. -/
def shortest (m : Nat) (q : Int) (narrow : Bool) : Nat × Int :=
  let i := Interval.of m q narrow
  i.shortestFrom (magnitude i.value i.den) 1 17

end SecureGroup.Decimal
