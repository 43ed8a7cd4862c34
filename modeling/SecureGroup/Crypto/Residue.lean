/-!
# Numbers modulo `2 ^ 255 - 19`

A residue has ten limbs of 26 bits in machine words.  A product has limbs below `2 ^ 27`; sums and
differences of two products stay below `2 ^ 29`, where the columns of the next product still fit a
word, so nothing is carried in between.  Many residues stand for one number, and `toNat` gives the
reduced one.
-/

namespace SecureGroup.Curve25519

def prime : Nat := (1 <<< 255) - 19

/-- A number modulo the prime, by its limbs; the lowest is first. -/
structure Residue where
  l0 : UInt64
  l1 : UInt64
  l2 : UInt64
  l3 : UInt64
  l4 : UInt64
  l5 : UInt64
  l6 : UInt64
  l7 : UInt64
  l8 : UInt64
  l9 : UInt64
deriving Inhabited

namespace Residue

/-- The residue of a number below `2 ^ 260`, whose limbs are found two at a time. -/
def ofNat (n : Nat) : Residue :=
  let pair (i : Nat) : UInt64 := UInt64.ofNat ((n >>> (52 * i)) % 0x10000000000000)
  let low (w : UInt64) : UInt64 := w &&& 0x3ffffff
  let high (w : UInt64) : UInt64 := w >>> 26
  let p0 := pair 0
  let p1 := pair 1
  let p2 := pair 2
  let p3 := pair 3
  let p4 := pair 4
  ⟨low p0, high p0, low p1, high p1, low p2, high p2, low p3, high p3, low p4, high p4⟩

/-- The number below the prime that a residue stands for.  Limbs below `2 ^ 37` make pairs that fit
a word. -/
def toNat (a : Residue) : Nat :=
  let pair (low high : UInt64) : Nat := (low + (high <<< 26)).toNat
  (pair a.l0 a.l1 + (pair a.l2 a.l3 <<< 52) + (pair a.l4 a.l5 <<< 104) +
    (pair a.l6 a.l7 <<< 156) + (pair a.l8 a.l9 <<< 208)) % prime

def add (a b : Residue) : Residue :=
  ⟨a.l0 + b.l0, a.l1 + b.l1, a.l2 + b.l2, a.l3 + b.l3, a.l4 + b.l4,
    a.l5 + b.l5, a.l6 + b.l6, a.l7 + b.l7, a.l8 + b.l8, a.l9 + b.l9⟩

/-- The difference, limb by limb, of a residue whose limbs are below `2 ^ 28 - 2432`, such as a
product or the sum of two: 128 times the prime, with limbs no smaller, is added first. -/
def sub (a b : Residue) : Residue :=
  let low : UInt64 := 0x10000000 - 2432
  let high : UInt64 := 0x10000000 - 4
  ⟨a.l0 + low - b.l0, a.l1 + high - b.l1, a.l2 + high - b.l2, a.l3 + high - b.l3,
    a.l4 + high - b.l4, a.l5 + high - b.l5, a.l6 + high - b.l6,
    a.l7 + high - b.l7, a.l8 + high - b.l8, a.l9 + high - b.l9⟩

/-- The limb that is left when the rest is carried on. -/
@[inline]
def keep (c : UInt64) : UInt64 := c &&& 0x3ffffff

/-- What is carried to the next limb. -/
@[inline]
def carry (c : UInt64) : UInt64 := c >>> 26

/-- Carries once around ten columns.  A unit above the highest limb is worth `608`, as
`2 ^ 260 = 32 (2 ^ 255 - 19) + 608`. -/
@[inline]
def normalize (c0 c1 c2 c3 c4 c5 c6 c7 c8 c9 : UInt64) : Residue :=
  let c1 := c1 + carry c0
  let c2 := c2 + carry c1
  let c3 := c3 + carry c2
  let c4 := c4 + carry c3
  let c5 := c5 + carry c4
  let c6 := c6 + carry c5
  let c7 := c7 + carry c6
  let c8 := c8 + carry c7
  let c9 := c9 + carry c8
  let c0 := keep c0 + 608 * carry c9
  ⟨keep c0, keep c1 + carry c0, keep c2, keep c3, keep c4,
    keep c5, keep c6, keep c7, keep c8, keep c9⟩

/-- The residue of the nineteen columns of a product: the upper nine are folded onto the lower ones.
-/
@[inline]
def ofColumns (c0 c1 c2 c3 c4 c5 c6 c7 c8 c9 c10 c11 c12 c13 c14 c15 c16 c17 c18 : UInt64) :
    Residue :=
  let c11 := c11 + carry c10
  let c12 := c12 + carry c11
  let c13 := c13 + carry c12
  let c14 := c14 + carry c13
  let c15 := c15 + carry c14
  let c16 := c16 + carry c15
  let c17 := c17 + carry c16
  let c18 := c18 + carry c17
  normalize (c0 + 608 * keep c10) (c1 + 608 * keep c11) (c2 + 608 * keep c12)
    (c3 + 608 * keep c13) (c4 + 608 * keep c14) (c5 + 608 * keep c15) (c6 + 608 * keep c16)
    (c7 + 608 * keep c17) (c8 + 608 * keep c18) (c9 + 608 * carry c18)

def mul (a b : Residue) : Residue :=
  let ⟨a0, a1, a2, a3, a4, a5, a6, a7, a8, a9⟩ := a
  let ⟨b0, b1, b2, b3, b4, b5, b6, b7, b8, b9⟩ := b
  let c0 := a0 * b0
  let c1 := a0 * b1 + a1 * b0
  let c2 := a0 * b2 + a1 * b1 + a2 * b0
  let c3 := a0 * b3 + a1 * b2 + a2 * b1 + a3 * b0
  let c4 := a0 * b4 + a1 * b3 + a2 * b2 + a3 * b1 + a4 * b0
  let c5 := a0 * b5 + a1 * b4 + a2 * b3 + a3 * b2 + a4 * b1 + a5 * b0
  let c6 := a0 * b6 + a1 * b5 + a2 * b4 + a3 * b3 + a4 * b2 + a5 * b1 + a6 * b0
  let c7 := a0 * b7 + a1 * b6 + a2 * b5 + a3 * b4 + a4 * b3 + a5 * b2 + a6 * b1 + a7 * b0
  let c8 := a0 * b8 + a1 * b7 + a2 * b6 + a3 * b5 + a4 * b4 + a5 * b3 + a6 * b2 + a7 * b1 +
    a8 * b0
  let c9 := a0 * b9 + a1 * b8 + a2 * b7 + a3 * b6 + a4 * b5 + a5 * b4 + a6 * b3 + a7 * b2 +
    a8 * b1 + a9 * b0
  let c10 := a1 * b9 + a2 * b8 + a3 * b7 + a4 * b6 + a5 * b5 + a6 * b4 + a7 * b3 + a8 * b2 +
    a9 * b1
  let c11 := a2 * b9 + a3 * b8 + a4 * b7 + a5 * b6 + a6 * b5 + a7 * b4 + a8 * b3 + a9 * b2
  let c12 := a3 * b9 + a4 * b8 + a5 * b7 + a6 * b6 + a7 * b5 + a8 * b4 + a9 * b3
  let c13 := a4 * b9 + a5 * b8 + a6 * b7 + a7 * b6 + a8 * b5 + a9 * b4
  let c14 := a5 * b9 + a6 * b8 + a7 * b7 + a8 * b6 + a9 * b5
  let c15 := a6 * b9 + a7 * b8 + a8 * b7 + a9 * b6
  let c16 := a7 * b9 + a8 * b8 + a9 * b7
  let c17 := a8 * b9 + a9 * b8
  let c18 := a9 * b9
  ofColumns c0 c1 c2 c3 c4 c5 c6 c7 c8 c9 c10 c11 c12 c13 c14 c15 c16 c17 c18

/-- The square: of the products of two different limbs each stands once, with one limb doubled. -/
def square (a : Residue) : Residue :=
  let ⟨a0, a1, a2, a3, a4, a5, a6, a7, a8, a9⟩ := a
  let d0 := a0 + a0
  let d1 := a1 + a1
  let d2 := a2 + a2
  let d3 := a3 + a3
  let d4 := a4 + a4
  let d5 := a5 + a5
  let d6 := a6 + a6
  let d7 := a7 + a7
  let d8 := a8 + a8
  let c0 := a0 * a0
  let c1 := d0 * a1
  let c2 := d0 * a2 + a1 * a1
  let c3 := d0 * a3 + d1 * a2
  let c4 := d0 * a4 + d1 * a3 + a2 * a2
  let c5 := d0 * a5 + d1 * a4 + d2 * a3
  let c6 := d0 * a6 + d1 * a5 + d2 * a4 + a3 * a3
  let c7 := d0 * a7 + d1 * a6 + d2 * a5 + d3 * a4
  let c8 := d0 * a8 + d1 * a7 + d2 * a6 + d3 * a5 + a4 * a4
  let c9 := d0 * a9 + d1 * a8 + d2 * a7 + d3 * a6 + d4 * a5
  let c10 := d1 * a9 + d2 * a8 + d3 * a7 + d4 * a6 + a5 * a5
  let c11 := d2 * a9 + d3 * a8 + d4 * a7 + d5 * a6
  let c12 := d3 * a9 + d4 * a8 + d5 * a7 + a6 * a6
  let c13 := d4 * a9 + d5 * a8 + d6 * a7
  let c14 := d5 * a9 + d6 * a8 + a7 * a7
  let c15 := d6 * a9 + d7 * a8
  let c16 := d7 * a9 + a8 * a8
  let c17 := d8 * a9
  let c18 := a9 * a9
  ofColumns c0 c1 c2 c3 c4 c5 c6 c7 c8 c9 c10 c11 c12 c13 c14 c15 c16 c17 c18

instance : Add Residue := ⟨add⟩

instance : Sub Residue := ⟨sub⟩

instance : Mul Residue := ⟨mul⟩

def zero : Residue := ofNat 0

def one : Residue := ofNat 1

/-- The square, taken `n` times over: `a ^ (2 ^ n)`. -/
def squares (n : Nat) (a : Residue) : Residue := Nat.fold n (fun _ _ s => s.square) a

/-- The power `a ^ (2 ^ n - 1)`, by halving `n`. -/
def ones (a : Residue) (n : Nat) : Residue :=
  if n = 0 then one
  else
    let half := ones a (n / 2)
    let full := squares (n / 2) half * half
    if n % 2 = 0 then full else full.square * a
termination_by n
decreasing_by omega

/-- The inverse, by the exponent `2 ^ 255 - 21`; zero for zero. -/
def inv (a : Residue) : Residue :=
  let a3 := a.square * a
  let a11 := squares 3 a * a3
  squares 5 (ones a 250) * a11

def sqrtMinusOne : Residue :=
  ofNat 0x2b8324804fc1df0b2b4d00993dfbd7a72f431806ad2fe478c4ee1b274a0ea0b0

/-- The even square root of `u / v` below the prime, if there is one. -/
def sqrtRatio? (u v : Residue) : Option Nat :=
  let v3 := v.square * v
  let w := u * v3 * v3 * v
  let r := u * v3 * (squares 2 (ones w 250) * w)
  let check := v * r.square
  let even (n : Nat) := if n % 2 = 0 then n else prime - n
  if check.toNat = u.toNat then some (even r.toNat)
  else if (check + u).toNat = 0 then some (even (r * sqrtMinusOne).toNat)
  else none

end Residue

end SecureGroup.Curve25519
