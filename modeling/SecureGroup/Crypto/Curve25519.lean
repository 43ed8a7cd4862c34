import SecureGroup.Bytes
import SecureGroup.Crypto.Residue

/-!
# The curve over the field modulo `2 ^ 255 - 19`

Points of the twisted Edwards curve `-x² + y² = 1 + d x² y²` in extended coordinates
`(X : Y : Z : T)` with `x = X / Z`, `y = Y / Z`, `x y = T / Z`, so that one addition formula
serves every pair of points.
-/

namespace SecureGroup.Curve25519

/-! ## The curve -/

def d : Residue :=
  .ofNat 0x52036cee2b6ffe738cc740797779e89800700a4d4141d8ab75eb4dca135978a3

def d2 : Residue := d * .ofNat 2

/-- The order of the subgroup that the base point generates. -/
def order : Nat := (1 <<< 252) + 27742317777372353535851937790883648493

/-- A point in extended coordinates. -/
structure Point where
  x : Residue
  y : Residue
  z : Residue
  t : Residue
deriving Inhabited

def Point.zero : Point := ⟨.zero, .one, .one, .zero⟩

def Point.add (p q : Point) : Point :=
  let a := (p.y - p.x) * (q.y - q.x)
  let b := (p.y + p.x) * (q.y + q.x)
  let c := p.t * d2 * q.t
  let half := p.z * q.z
  let e := half + half
  let h := b + a
  let f := e - c
  let g := e + c
  let k := b - a
  ⟨k * f, g * h, f * g, k * h⟩

/-- Twice a point, with the coordinate `t` that is made of two others. -/
@[inline]
def Point.doubleWith (t : Residue → Residue → Residue) (p : Point) : Point :=
  let a := p.x.square
  let b := p.y.square
  let zz := p.z.square
  let h := a + b
  let e := h - (p.x + p.y).square
  let g := a - b
  let f := zz + zz + g
  ⟨e * f, g * h, f * g, t e h⟩

def Point.double (p : Point) : Point := p.doubleWith (· * ·)

/-- Twice a point that will be doubled again: no doubling reads `t`, so it is left out. -/
def Point.doubleOn (p : Point) : Point := p.doubleWith fun _ _ => .zero

def Point.timesSixteen (p : Point) : Point := p.doubleOn.doubleOn.doubleOn.double

def Point.neg (p : Point) : Point := ⟨.zero - p.x, p.y, p.z, .zero - p.t⟩

def Point.multiples (n : Nat) (p : Point) : Array Point :=
  Nat.fold n (fun i _ ps => ps.push (Point.add ps[i]! p)) (Array.mk [Point.zero])

/-- The sixty-four digits to base 16 of a number below `2 ^ 256`, the lowest first. -/
def digits (n : Nat) : List Nat :=
  (List.range 4).flatMap fun i =>
    let word := UInt64.ofNat (n >>> (64 * i))
    (List.range 16).map fun j => ((word >>> (4 * UInt64.ofNat j)) &&& 15).toNat

/-- The multiple `n p`, for `n` below `2 ^ 256`, a digit of `n` at a time. -/
def Point.mul (n : Nat) (p : Point) : Point :=
  let table := p.multiples 15
  (digits n).foldr (fun digit acc =>
    let acc := acc.timesSixteen
    if digit = 0 then acc else acc.add table[digit]!) Point.zero

def basePoint : Point :=
  let x := .ofNat 0x216936d3cd6e53fec0a4e231fdd6dc5c692cc7609525a7b2c9562d608f25d51a
  let y := .ofNat 0x6666666666666666666666666666666666666666666666666666666666666658
  ⟨x, y, .one, x * y⟩

/-- The multiples `0 … 255` of `256 ^ i` times the base point, for `i` below 32. -/
def baseTable : List (Array Point) :=
  (Nat.fold 32 (fun _ _ (tables, p) =>
    (tables.push (p.multiples 255), p.timesSixteen.timesSixteen))
    ((Array.mk [] : Array (Array Point)), basePoint)).1.toList

/-- The multiple `n` of the base point, for `n` below `2 ^ 256`, an octet of `n` at a time. -/
def mulBase (n : Nat) : Point :=
  (baseTable.zip (Bytes.ofNatBySevens 32 n)).foldl (fun acc (table, octet) =>
    if octet = 0 then acc else acc.add table[octet.toNat]!) Point.zero

/-- The coordinate `y` with the parity of `x` in the top bit of 256. -/
def Point.compress (p : Point) : Nat :=
  let zi := p.z.inv
  (p.y * zi).toNat + (((p.x * zi).toNat % 2) <<< 255)

/-- The point whose `y` is given by the low 255 bits and the sign of whose `x` by the top bit;
any `y` that belongs to a point is accepted, also one above the prime. -/
def Point.decompress? (n : Nat) : Option Point :=
  let y := Residue.ofNat (n % (1 <<< 255))
  let yy := y * y
  (Residue.sqrtRatio? (yy - .one) (d * yy + .one)).map fun x =>
    let x := Residue.ofNat (if n.testBit 255 then (prime - x) % prime else x)
    ⟨x, y, .one, x * y⟩

/-! ## The form of the curve for key agreement -/

/-- The coordinate `u = (1 + y) / (1 - y)` of the same point on the Montgomery form. -/
def Point.montgomery (p : Point) : Nat := ((p.z + p.y) * (p.z - p.y).inv).toNat

/-- Clears the three low bits and bit 255, and sets bit 254. -/
def clamp (n : Nat) : Nat := n / 8 % (1 <<< 251) * 8 + (1 <<< 254)

/-- The state of the ladder: two points, a known difference apart, as fractions. -/
structure Ladder where
  x2 : Residue
  z2 : Residue
  x3 : Residue
  z3 : Residue

/-- A quarter of two less than the coefficient of the Montgomery form. -/
def factor : Residue := .ofNat 121665

def Ladder.step (u : Residue) (l : Ladder) : Ladder :=
  let a := l.x2 + l.z2
  let b := l.x2 - l.z2
  let aa := a.square
  let bb := b.square
  let e := aa - bb
  let da := (l.x3 - l.z3) * a
  let cb := (l.x3 + l.z3) * b
  let s := da + cb
  let t := da - cb
  ⟨aa * bb, e * (aa + factor * e), s.square, u * t.square⟩

def Ladder.swap (l : Ladder) : Ladder := ⟨l.x3, l.z3, l.x2, l.z2⟩

/-- The coordinate of the multiple `n` of the point with coordinate `u`. -/
def ladder (n u : Nat) : Nat :=
  let u := Residue.ofNat u
  let l := Nat.fold 255 (fun i _ l =>
    if n.testBit (254 - i) then (Ladder.step u (Ladder.swap l)).swap else Ladder.step u l)
    (⟨.one, .zero, u, .one⟩ : Ladder)
  (l.x2 * l.z2.inv).toNat

end SecureGroup.Curve25519
