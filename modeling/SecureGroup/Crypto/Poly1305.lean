import SecureGroup.Bytes
import SecureGroup.Chunks

/-!
# Poly1305

The one-time authenticator of RFC 8439: a message is a polynomial over the numbers modulo
`2 ^ 130 - 5`, evaluated at one half of the key and shifted by the other.  A number has five limbs
of 26 bits in machine words.
-/

namespace SecureGroup.Poly1305

/-! ## Numbers modulo `2 ^ 130 - 5` -/

def prime : Nat := (1 <<< 130) - 5

/-- A number modulo the prime, by its limbs; the lowest is first. -/
structure Element where
  l0 : UInt64
  l1 : UInt64
  l2 : UInt64
  l3 : UInt64
  l4 : UInt64

namespace Element

def zero : Element := ⟨0, 0, 0, 0, 0⟩

@[inline]
def low (c : UInt64) : UInt64 := c &&& 0x3ffffff

/-- The number of two words of 64 bits and two bits above them. -/
def ofWords (w0 w1 top : UInt64) : Element :=
  ⟨low w0, low (w0 >>> 26), low ((w0 >>> 52) ||| (w1 <<< 12)), low (w1 >>> 14),
    (w1 >>> 40) ||| (top <<< 24)⟩

def toNat (a : Element) : Nat :=
  ((a.l0 + (a.l1 <<< 26)).toNat + ((a.l2 + (a.l3 <<< 26)).toNat <<< 52) + (a.l4.toNat <<< 104)) %
    prime

def add (a b : Element) : Element :=
  ⟨a.l0 + b.l0, a.l1 + b.l1, a.l2 + b.l2, a.l3 + b.l3, a.l4 + b.l4⟩

/-- What stands above the highest limb, where a unit is worth 5. -/
@[inline]
def wrap (c : UInt64) : UInt64 := 5 * c

/-- The product of numbers whose limbs are below `2 ^ 28`; its own are below `2 ^ 27`. -/
def mul (a b : Element) : Element :=
  let ⟨a0, a1, a2, a3, a4⟩ := a
  let ⟨b0, b1, b2, b3, b4⟩ := b
  let c0 := a0 * b0 + wrap (a1 * b4 + a2 * b3 + a3 * b2 + a4 * b1)
  let c1 := a0 * b1 + a1 * b0 + wrap (a2 * b4 + a3 * b3 + a4 * b2) + (c0 >>> 26)
  let c2 := a0 * b2 + a1 * b1 + a2 * b0 + wrap (a3 * b4 + a4 * b3) + (c1 >>> 26)
  let c3 := a0 * b3 + a1 * b2 + a2 * b1 + a3 * b0 + wrap (a4 * b4) + (c2 >>> 26)
  let c4 := a0 * b4 + a1 * b3 + a2 * b2 + a3 * b1 + a4 * b0 + (c3 >>> 26)
  let c5 := low c0 + wrap (c4 >>> 26)
  ⟨low c5, low c1 + (c5 >>> 26), low c2, low c3, low c4⟩

end Element

/-! ## Algorithm -/

/-- The word of eight octets, the lowest first; missing ones are zero. -/
def word : Bytes → UInt64
  | a :: b :: c :: d :: e :: f :: g :: h :: _ =>
    a.toUInt64 ||| (b.toUInt64 <<< 8) ||| (c.toUInt64 <<< 16) ||| (d.toUInt64 <<< 24) |||
      (e.toUInt64 <<< 32) ||| (f.toUInt64 <<< 40) ||| (g.toUInt64 <<< 48) ||| (h.toUInt64 <<< 56)
  | bs => UInt64.ofNat (Bytes.toNatLE bs)

/-- The coefficient of a block of at most 16 octets: a one follows its last octet. -/
def coefficient (block : Bytes) : Element :=
  if block.length = 16 then .ofWords (word block) (word (block.drop 8)) 1
  else
    let closed := block ++ [1]
    .ofWords (word (closed.take 8)) (word (closed.drop 8)) 0

/-- The evaluation point of 16 octets, some of whose bits must be zero and are cleared. -/
def point (octets : Bytes) : Element :=
  .ofWords (word octets &&& 0x0ffffffc0fffffff) (word (octets.drop 8) &&& 0x0ffffffc0ffffffc) 0

/-- The tag of a message under a key of 32 octets. -/
def tag (key message : Bytes) : Octets 16 :=
  let r := point key
  let value := (chunks 16 message).foldl (fun acc b => (acc.add (coefficient b)).mul r) Element.zero
  Octets.ofNatLE 16 (value.toNat + Bytes.toNatBySevens (key.drop 16))

end SecureGroup.Poly1305
