import SecureGroup.Crypto.Words

/-!
# SHA-256

`Sha256.digest` follows FIPS 180-4: the message is padded to blocks of sixteen words, and every
block is mixed into a state of eight words.  Main statement: a digest has 32 octets (its type).
-/

namespace SecureGroup.Sha256

/-! ## Algorithm -/

/-- The eight words that a block is mixed into. -/
structure State where
  a : UInt32
  b : UInt32
  c : UInt32
  d : UInt32
  e : UInt32
  f : UInt32
  g : UInt32
  h : UInt32

/-- The first 32 bits of the fractional parts of the square roots of the first eight primes. -/
def initial : State :=
  ⟨0x6a09e667, 0xbb67ae85, 0x3c6ef372, 0xa54ff53a, 0x510e527f, 0x9b05688c, 0x1f83d9ab, 0x5be0cd19⟩

/-- The first 32 bits of the fractional parts of the cube roots of the first 64 primes, sixteen at a
time. -/
def roundConstants : List Words32 :=
  [⟨0x428a2f98, 0x71374491, 0xb5c0fbcf, 0xe9b5dba5, 0x3956c25b, 0x59f111f1, 0x923f82a4,
      0xab1c5ed5, 0xd807aa98, 0x12835b01, 0x243185be, 0x550c7dc3, 0x72be5d74, 0x80deb1fe,
      0x9bdc06a7, 0xc19bf174⟩,
    ⟨0xe49b69c1, 0xefbe4786, 0x0fc19dc6, 0x240ca1cc, 0x2de92c6f, 0x4a7484aa, 0x5cb0a9dc,
      0x76f988da, 0x983e5152, 0xa831c66d, 0xb00327c8, 0xbf597fc7, 0xc6e00bf3, 0xd5a79147,
      0x06ca6351, 0x14292967⟩,
    ⟨0x27b70a85, 0x2e1b2138, 0x4d2c6dfc, 0x53380d13, 0x650a7354, 0x766a0abb, 0x81c2c92e,
      0x92722c85, 0xa2bfe8a1, 0xa81a664b, 0xc24b8b70, 0xc76c51a3, 0xd192e819, 0xd6990624,
      0xf40e3585, 0x106aa070⟩,
    ⟨0x19a4c116, 0x1e376c08, 0x2748774c, 0x34b0bcb5, 0x391c0cb3, 0x4ed8aa4a, 0x5b9cca4f,
      0x682e6ff3, 0x748f82ee, 0x78a5636f, 0x84c87814, 0x8cc70208, 0x90befffa, 0xa4506ceb,
      0xbef9a3f7, 0xc67178f2⟩]

@[inline]
def rotr (x n : UInt32) : UInt32 := (x >>> n) ||| (x <<< (32 - n))

/-- The word of the schedule sixteen places after `w`, where `x`, `y` and `z` stand one, nine and
fourteen places after it. -/
@[inline]
def extend (w x y z : UInt32) : UInt32 :=
  let s := rotr x 7 ^^^ rotr x 18 ^^^ (x >>> 3)
  let t := rotr z 17 ^^^ rotr z 19 ^^^ (z >>> 10)
  w + s + y + t

/-- The sixteen words of the schedule after these. -/
def next (w : Words32) : Words32 :=
  let v0 := extend w.w0 w.w1 w.w9 w.w14
  let v1 := extend w.w1 w.w2 w.w10 w.w15
  let v2 := extend w.w2 w.w3 w.w11 v0
  let v3 := extend w.w3 w.w4 w.w12 v1
  let v4 := extend w.w4 w.w5 w.w13 v2
  let v5 := extend w.w5 w.w6 w.w14 v3
  let v6 := extend w.w6 w.w7 w.w15 v4
  let v7 := extend w.w7 w.w8 v0 v5
  let v8 := extend w.w8 w.w9 v1 v6
  let v9 := extend w.w9 w.w10 v2 v7
  let v10 := extend w.w10 w.w11 v3 v8
  let v11 := extend w.w11 w.w12 v4 v9
  let v12 := extend w.w12 w.w13 v5 v10
  let v13 := extend w.w13 w.w14 v6 v11
  let v14 := extend w.w14 w.w15 v7 v12
  let v15 := extend w.w15 v0 v8 v13
  ⟨v0, v1, v2, v3, v4, v5, v6, v7, v8, v9, v10, v11, v12, v13, v14, v15⟩

/-- One round, with round constant `k` and schedule word `w`. -/
@[inline]
def round (s : State) (k w : UInt32) : State :=
  let sum := rotr s.e 6 ^^^ rotr s.e 11 ^^^ rotr s.e 25
  let choice := (s.e &&& s.f) ^^^ (~~~s.e &&& s.g)
  let t := s.h + sum + choice + k + w
  let sum' := rotr s.a 2 ^^^ rotr s.a 13 ^^^ rotr s.a 22
  let majority := (s.a &&& s.b) ^^^ (s.a &&& s.c) ^^^ (s.b &&& s.c)
  ⟨t + (sum' + majority), s.a, s.b, s.c, s.d + t, s.e, s.f, s.g⟩

def rounds (s : State) (k w : Words32) : State :=
  let s := round s k.w0 w.w0
  let s := round s k.w1 w.w1
  let s := round s k.w2 w.w2
  let s := round s k.w3 w.w3
  let s := round s k.w4 w.w4
  let s := round s k.w5 w.w5
  let s := round s k.w6 w.w6
  let s := round s k.w7 w.w7
  let s := round s k.w8 w.w8
  let s := round s k.w9 w.w9
  let s := round s k.w10 w.w10
  let s := round s k.w11 w.w11
  let s := round s k.w12 w.w12
  let s := round s k.w13 w.w13
  let s := round s k.w14 w.w14
  let s := round s k.w15 w.w15
  s

def compress (s : State) (block : Words32) : State :=
  let r := (roundConstants.foldl (fun (r, w) k => (rounds r k w, next w)) (s, block)).1
  ⟨s.a + r.a, s.b + r.b, s.c + r.c, s.d + r.d, s.e + r.e, s.f + r.f, s.g + r.g, s.h + r.h⟩

/-- Mixes words into the state, a block at a time. -/
def absorb (s : State) : List UInt32 → State
  | w0 :: w1 :: w2 :: w3 :: w4 :: w5 :: w6 :: w7 :: w8 :: w9 :: w10 :: w11 :: w12 :: w13 :: w14 ::
      w15 :: rest =>
    absorb (compress s ⟨w0, w1, w2, w3, w4, w5, w6, w7, w8, w9, w10, w11, w12, w13, w14, w15⟩) rest
  | _ => s

/-- A message that follows on `before` octets, then a one bit, zeros and the bit length of all, to a
multiple of 64 octets. -/
def pad (before : Nat) (m : Bytes) : Bytes :=
  let length := before + m.length
  let zeros := (119 - length % 64) % 64
  m ++ (0x80 :: (List.replicate zeros 0 ++ Bytes.ofNatBE 8 (8 * length)))

def State.toBytes (s : State) : Bytes :=
  Bytes.ofWords32BE [s.a, s.b, s.c, s.d, s.e, s.f, s.g, s.h]

/-- The digest of a message whose first octets, whole blocks, are in the state already. -/
def finish (s : State) (before : Nat) (m : Bytes) : Octets 32 :=
  ⟨(absorb s (Bytes.words32BE (pad before m))).toBytes, by simp [State.toBytes]⟩

def digest (m : Bytes) : Octets 32 := finish initial 0 m

end SecureGroup.Sha256
