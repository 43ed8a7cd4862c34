import SecureGroup.Crypto.Words

/-!
# ChaCha20

The stream cipher of RFC 8439.  Main statement: masking a text twice with one key stream gives
the text back (`mask_mask`).
-/

namespace SecureGroup.ChaCha20

/-! ## Algorithm -/

@[inline]
def rotl (x n : UInt32) : UInt32 := (x <<< n) ||| (x >>> (32 - n))

@[inline]
def quarterRound (a b c d : UInt32) : UInt32 × UInt32 × UInt32 × UInt32 :=
  let a := a + b
  let d := rotl (d ^^^ a) 16
  let c := c + d
  let b := rotl (b ^^^ c) 12
  let a := a + b
  let d := rotl (d ^^^ a) 8
  let c := c + d
  let b := rotl (b ^^^ c) 7
  (a, b, c, d)

/-- Mixes the four columns of the state, then the four diagonals. -/
def doubleRound (s : Words32) : Words32 :=
  let (x0, x4, x8, x12) := quarterRound s.w0 s.w4 s.w8 s.w12
  let (x1, x5, x9, x13) := quarterRound s.w1 s.w5 s.w9 s.w13
  let (x2, x6, x10, x14) := quarterRound s.w2 s.w6 s.w10 s.w14
  let (x3, x7, x11, x15) := quarterRound s.w3 s.w7 s.w11 s.w15
  let (x0, x5, x10, x15) := quarterRound x0 x5 x10 x15
  let (x1, x6, x11, x12) := quarterRound x1 x6 x11 x12
  let (x2, x7, x8, x13) := quarterRound x2 x7 x8 x13
  let (x3, x4, x9, x14) := quarterRound x3 x4 x9 x14
  ⟨x0, x1, x2, x3, x4, x5, x6, x7, x8, x9, x10, x11, x12, x13, x14, x15⟩

/-- Block `counter` of the key stream: 64 octets. -/
def block (key : Octets 32) (nonce : Octets 12) (counter : Nat) : Bytes :=
  let start := Words32.ofList ([0x61707865, 0x3320646e, 0x79622d32, 0x6b206574] ++
    Bytes.words32LE key.toList ++ [UInt32.ofNat counter] ++ Bytes.words32LE nonce.toList)
  let mixed := Nat.fold 10 (fun _ _ s => doubleRound s) start
  Bytes.ofWords32LE (List.zipWith (· + ·) start.toList mixed.toList)

/-- At least `length` octets of the key stream, from block `counter` on. -/
def stream (key : Octets 32) (nonce : Octets 12) (counter length : Nat) : Bytes :=
  (List.range ((length + 63) / 64)).flatMap fun i => block key nonce (counter + i)

/-- Adds a key stream to a text, octet by octet without carry. -/
def mask : Bytes → Bytes → Bytes := List.zipWith (· ^^^ ·)

/-! ## Lemmas -/

@[simp]
theorem length_block (key : Octets 32) (nonce : Octets 12) (counter : Nat) :
    (block key nonce counter).length = 64 := by
  simp [block, Words32.toList]

theorem length_stream (key : Octets 32) (nonce : Octets 12) (counter length : Nat) :
    length ≤ (stream key nonce counter length).length := by
  have h : (stream key nonce counter length).length = (length + 63) / 64 * 64 := by
    simp [stream, List.length_flatMap, List.map_const', Nat.mul_comm]
  omega

/-- A key stream that is long enough masks a text to one of the same length. -/
theorem length_mask {stream text : Bytes} (h : text.length ≤ stream.length) :
    (mask stream text).length = text.length := by
  simp [mask]; omega

theorem mask_mask {stream text : Bytes} (h : text.length ≤ stream.length) :
    mask stream (mask stream text) = text := by
  induction stream generalizing text with
  | nil =>
    cases text with
    | nil => rfl
    | cons t ts => simp at h
  | cons s ss ih =>
    cases text with
    | nil => rfl
    | cons t ts =>
      have hx : s ^^^ (s ^^^ t) = t := by
        rw [← UInt8.xor_assoc, UInt8.xor_self, UInt8.zero_xor]
      have := @ih ts (by simpa using h)
      simp only [mask, List.zipWith_cons_cons, hx] at this ⊢
      rw [this]

end SecureGroup.ChaCha20
