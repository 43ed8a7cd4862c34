import SecureGroup.Crypto.Words

/-!
# SHA-512

`Sha512.digest` follows FIPS 180-4 with words of 64 bits and 80 rounds.  Main statement: a
digest has 64 octets (its type).
-/

namespace SecureGroup.Sha512

/-! ## Algorithm -/

/-- The eight words that a block is mixed into. -/
structure State where
  a : UInt64
  b : UInt64
  c : UInt64
  d : UInt64
  e : UInt64
  f : UInt64
  g : UInt64
  h : UInt64

/-- The first 64 bits of the fractional parts of the square roots of the first eight primes. -/
def initial : State :=
  ⟨0x6a09e667f3bcc908, 0xbb67ae8584caa73b, 0x3c6ef372fe94f82b, 0xa54ff53a5f1d36f1,
    0x510e527fade682d1, 0x9b05688c2b3e6c1f, 0x1f83d9abfb41bd6b, 0x5be0cd19137e2179⟩

/-- The first 64 bits of the fractional parts of the cube roots of the first 80 primes, sixteen at a
time. -/
def roundConstants : List Words64 :=
  [⟨0x428a2f98d728ae22, 0x7137449123ef65cd, 0xb5c0fbcfec4d3b2f, 0xe9b5dba58189dbbc,
      0x3956c25bf348b538, 0x59f111f1b605d019, 0x923f82a4af194f9b, 0xab1c5ed5da6d8118,
      0xd807aa98a3030242, 0x12835b0145706fbe, 0x243185be4ee4b28c, 0x550c7dc3d5ffb4e2,
      0x72be5d74f27b896f, 0x80deb1fe3b1696b1, 0x9bdc06a725c71235, 0xc19bf174cf692694⟩,
    ⟨0xe49b69c19ef14ad2, 0xefbe4786384f25e3, 0x0fc19dc68b8cd5b5, 0x240ca1cc77ac9c65,
      0x2de92c6f592b0275, 0x4a7484aa6ea6e483, 0x5cb0a9dcbd41fbd4, 0x76f988da831153b5,
      0x983e5152ee66dfab, 0xa831c66d2db43210, 0xb00327c898fb213f, 0xbf597fc7beef0ee4,
      0xc6e00bf33da88fc2, 0xd5a79147930aa725, 0x06ca6351e003826f, 0x142929670a0e6e70⟩,
    ⟨0x27b70a8546d22ffc, 0x2e1b21385c26c926, 0x4d2c6dfc5ac42aed, 0x53380d139d95b3df,
      0x650a73548baf63de, 0x766a0abb3c77b2a8, 0x81c2c92e47edaee6, 0x92722c851482353b,
      0xa2bfe8a14cf10364, 0xa81a664bbc423001, 0xc24b8b70d0f89791, 0xc76c51a30654be30,
      0xd192e819d6ef5218, 0xd69906245565a910, 0xf40e35855771202a, 0x106aa07032bbd1b8⟩,
    ⟨0x19a4c116b8d2d0c8, 0x1e376c085141ab53, 0x2748774cdf8eeb99, 0x34b0bcb5e19b48a8,
      0x391c0cb3c5c95a63, 0x4ed8aa4ae3418acb, 0x5b9cca4f7763e373, 0x682e6ff3d6b2b8a3,
      0x748f82ee5defb2fc, 0x78a5636f43172f60, 0x84c87814a1f0ab72, 0x8cc702081a6439ec,
      0x90befffa23631e28, 0xa4506cebde82bde9, 0xbef9a3f7b2c67915, 0xc67178f2e372532b⟩,
    ⟨0xca273eceea26619c, 0xd186b8c721c0c207, 0xeada7dd6cde0eb1e, 0xf57d4f7fee6ed178,
      0x06f067aa72176fba, 0x0a637dc5a2c898a6, 0x113f9804bef90dae, 0x1b710b35131c471b,
      0x28db77f523047d84, 0x32caab7b40c72493, 0x3c9ebe0a15c9bebc, 0x431d67c49c100d4c,
      0x4cc5d4becb3e42b6, 0x597f299cfc657e2a, 0x5fcb6fab3ad6faec, 0x6c44198c4a475817⟩]

@[inline]
def rotr (x n : UInt64) : UInt64 := (x >>> n) ||| (x <<< (64 - n))

/-- The word of the schedule sixteen places after `w`, where `x`, `y` and `z` stand one, nine and
fourteen places after it. -/
@[inline]
def extend (w x y z : UInt64) : UInt64 :=
  let s := rotr x 1 ^^^ rotr x 8 ^^^ (x >>> 7)
  let t := rotr z 19 ^^^ rotr z 61 ^^^ (z >>> 6)
  w + s + y + t

/-- The sixteen words of the schedule after these. -/
def next (w : Words64) : Words64 :=
  let v0 := extend w.w0 w.w1 w.w9 w.w14
  let v1 := extend w.w1 w.w2 w.w10 w.w15
  let v2 := extend w.w2 w.w3 w.w11 v0
  let v3 := extend w.w3 w.w4 w.w12 v1
  let v4 := extend w.w4 w.w5 w.w13 v2
  let v5 := extend w.w5 w.w6 w.w14 v3
  let v6 := extend w.w6 w.w7 w.w15 v4
  let v7 := extend w.w7 w.w8 v0 v5
  let v8 := extend w.w8 w.w9 v1 v6
  let v9 := extend w.w9 w.w10 v2 v7
  let v10 := extend w.w10 w.w11 v3 v8
  let v11 := extend w.w11 w.w12 v4 v9
  let v12 := extend w.w12 w.w13 v5 v10
  let v13 := extend w.w13 w.w14 v6 v11
  let v14 := extend w.w14 w.w15 v7 v12
  let v15 := extend w.w15 v0 v8 v13
  ⟨v0, v1, v2, v3, v4, v5, v6, v7, v8, v9, v10, v11, v12, v13, v14, v15⟩

/-- One round, with round constant `k` and schedule word `w`. -/
@[inline]
def round (s : State) (k w : UInt64) : State :=
  let sum := rotr s.e 14 ^^^ rotr s.e 18 ^^^ rotr s.e 41
  let choice := (s.e &&& s.f) ^^^ (~~~s.e &&& s.g)
  let t := s.h + sum + choice + k + w
  let sum' := rotr s.a 28 ^^^ rotr s.a 34 ^^^ rotr s.a 39
  let majority := (s.a &&& s.b) ^^^ (s.a &&& s.c) ^^^ (s.b &&& s.c)
  ⟨t + (sum' + majority), s.a, s.b, s.c, s.d + t, s.e, s.f, s.g⟩

def rounds (s : State) (k w : Words64) : State :=
  let s := round s k.w0 w.w0
  let s := round s k.w1 w.w1
  let s := round s k.w2 w.w2
  let s := round s k.w3 w.w3
  let s := round s k.w4 w.w4
  let s := round s k.w5 w.w5
  let s := round s k.w6 w.w6
  let s := round s k.w7 w.w7
  let s := round s k.w8 w.w8
  let s := round s k.w9 w.w9
  let s := round s k.w10 w.w10
  let s := round s k.w11 w.w11
  let s := round s k.w12 w.w12
  let s := round s k.w13 w.w13
  let s := round s k.w14 w.w14
  let s := round s k.w15 w.w15
  s

def compress (s : State) (block : Words64) : State :=
  let r := (roundConstants.foldl (fun (r, w) k => (rounds r k w, next w)) (s, block)).1
  ⟨s.a + r.a, s.b + r.b, s.c + r.c, s.d + r.d, s.e + r.e, s.f + r.f, s.g + r.g, s.h + r.h⟩

/-- Mixes words into the state, a block at a time. -/
def absorb (s : State) : List UInt64 → State
  | w0 :: w1 :: w2 :: w3 :: w4 :: w5 :: w6 :: w7 :: w8 :: w9 :: w10 :: w11 :: w12 :: w13 :: w14 ::
      w15 :: rest =>
    absorb (compress s ⟨w0, w1, w2, w3, w4, w5, w6, w7, w8, w9, w10, w11, w12, w13, w14, w15⟩) rest
  | _ => s

/-- A message that follows on `before` octets, then a one bit, zeros and the bit length of all, to a
multiple of 128 octets. -/
def pad (before : Nat) (m : Bytes) : Bytes :=
  let length := before + m.length
  let zeros := (239 - length % 128) % 128
  m ++ (0x80 :: (List.replicate zeros 0 ++ Bytes.ofNatBE 16 (8 * length)))

def State.toBytes (s : State) : Bytes :=
  Bytes.ofWords64BE [s.a, s.b, s.c, s.d, s.e, s.f, s.g, s.h]

/-- The digest of a message whose first octets, whole blocks, are in the state already. -/
def finish (s : State) (before : Nat) (m : Bytes) : Octets 64 :=
  ⟨(absorb s (Bytes.words64BE (pad before m))).toBytes, by simp [State.toBytes]⟩

def digest (m : Bytes) : Octets 64 := finish initial 0 m

end SecureGroup.Sha512
