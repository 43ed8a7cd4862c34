import SecureGroup.Bytes

/-!
# Blocks of sixteen words

Hashes and ciphers work on sixteen machine words at a time.  A block has one field for each, so
that a word is read and written without a search for its place.  Main statements: a block is read
back from its words (`Words32.ofList_toList`, `Words64.ofList_toList`), and words of `n` octets
give `n` octets each (`length_ofWords32LE`, `length_ofWords32BE`, `length_ofWords64BE`).
-/

namespace SecureGroup

/-! ## Blocks -/

/-- Sixteen words of 32 bits. -/
structure Words32 where
  w0 : UInt32
  w1 : UInt32
  w2 : UInt32
  w3 : UInt32
  w4 : UInt32
  w5 : UInt32
  w6 : UInt32
  w7 : UInt32
  w8 : UInt32
  w9 : UInt32
  w10 : UInt32
  w11 : UInt32
  w12 : UInt32
  w13 : UInt32
  w14 : UInt32
  w15 : UInt32

namespace Words32

def toList (b : Words32) : List UInt32 :=
  [b.w0, b.w1, b.w2, b.w3, b.w4, b.w5, b.w6, b.w7, b.w8, b.w9, b.w10, b.w11, b.w12, b.w13, b.w14,
    b.w15]

/-- The block of sixteen words; all zero when there are not as many. -/
def ofList : List UInt32 → Words32
  | [w0, w1, w2, w3, w4, w5, w6, w7, w8, w9, w10, w11, w12, w13, w14, w15] =>
    ⟨w0, w1, w2, w3, w4, w5, w6, w7, w8, w9, w10, w11, w12, w13, w14, w15⟩
  | _ => ⟨0, 0, 0, 0, 0, 0, 0, 0, 0, 0, 0, 0, 0, 0, 0, 0⟩

theorem ofList_toList (b : Words32) : ofList b.toList = b := rfl

end Words32

/-- Sixteen words of 64 bits. -/
structure Words64 where
  w0 : UInt64
  w1 : UInt64
  w2 : UInt64
  w3 : UInt64
  w4 : UInt64
  w5 : UInt64
  w6 : UInt64
  w7 : UInt64
  w8 : UInt64
  w9 : UInt64
  w10 : UInt64
  w11 : UInt64
  w12 : UInt64
  w13 : UInt64
  w14 : UInt64
  w15 : UInt64

namespace Words64

def toList (b : Words64) : List UInt64 :=
  [b.w0, b.w1, b.w2, b.w3, b.w4, b.w5, b.w6, b.w7, b.w8, b.w9, b.w10, b.w11, b.w12, b.w13, b.w14,
    b.w15]

/-- The block of sixteen words; all zero when there are not as many. -/
def ofList : List UInt64 → Words64
  | [w0, w1, w2, w3, w4, w5, w6, w7, w8, w9, w10, w11, w12, w13, w14, w15] =>
    ⟨w0, w1, w2, w3, w4, w5, w6, w7, w8, w9, w10, w11, w12, w13, w14, w15⟩
  | _ => ⟨0, 0, 0, 0, 0, 0, 0, 0, 0, 0, 0, 0, 0, 0, 0, 0⟩

theorem ofList_toList (b : Words64) : ofList b.toList = b := rfl

end Words64

/-! ## Words and octets -/

namespace Bytes

/-- The words of some octets, the lowest octet of a word first; octets that fill none are dropped.
-/
def words32LE : Bytes → List UInt32
  | a :: b :: c :: d :: rest =>
    (a.toUInt32 ||| (b.toUInt32 <<< 8) ||| (c.toUInt32 <<< 16) ||| (d.toUInt32 <<< 24)) ::
      words32LE rest
  | _ => []

/-- The words of some octets, the highest octet of a word first; octets that fill none are dropped.
-/
def words32BE : Bytes → List UInt32
  | a :: b :: c :: d :: rest =>
    ((a.toUInt32 <<< 24) ||| (b.toUInt32 <<< 16) ||| (c.toUInt32 <<< 8) ||| d.toUInt32) ::
      words32BE rest
  | _ => []

/-- The words of some octets, the highest octet of a word first; octets that fill none are dropped.
-/
def words64BE : Bytes → List UInt64
  | a :: b :: c :: d :: e :: f :: g :: h :: rest =>
    ((a.toUInt64 <<< 56) ||| (b.toUInt64 <<< 48) ||| (c.toUInt64 <<< 40) ||| (d.toUInt64 <<< 32) |||
      (e.toUInt64 <<< 24) ||| (f.toUInt64 <<< 16) ||| (g.toUInt64 <<< 8) ||| h.toUInt64) ::
      words64BE rest
  | _ => []

def ofWords32LE : List UInt32 → Bytes
  | [] => []
  | w :: ws =>
    w.toUInt8 :: (w >>> 8).toUInt8 :: (w >>> 16).toUInt8 :: (w >>> 24).toUInt8 :: ofWords32LE ws

/-- The octets of words, the highest octet of a word first. -/
def ofWords32BE : List UInt32 → Bytes
  | [] => []
  | w :: ws =>
    (w >>> 24).toUInt8 :: (w >>> 16).toUInt8 :: (w >>> 8).toUInt8 :: w.toUInt8 :: ofWords32BE ws

/-- The octets of words, the highest octet of a word first. -/
def ofWords64BE : List UInt64 → Bytes
  | [] => []
  | w :: ws =>
    (w >>> 56).toUInt8 :: (w >>> 48).toUInt8 :: (w >>> 40).toUInt8 :: (w >>> 32).toUInt8 ::
      (w >>> 24).toUInt8 :: (w >>> 16).toUInt8 :: (w >>> 8).toUInt8 :: w.toUInt8 :: ofWords64BE ws

@[simp]
theorem length_ofWords32LE (ws : List UInt32) : (ofWords32LE ws).length = 4 * ws.length := by
  induction ws with
  | nil => rfl
  | cons w ws ih => simp [ofWords32LE, ih, Nat.mul_succ]

@[simp]
theorem length_ofWords32BE (ws : List UInt32) : (ofWords32BE ws).length = 4 * ws.length := by
  induction ws with
  | nil => rfl
  | cons w ws ih => simp [ofWords32BE, ih, Nat.mul_succ]

@[simp]
theorem length_ofWords64BE (ws : List UInt64) : (ofWords64BE ws).length = 8 * ws.length := by
  induction ws with
  | nil => rfl
  | cons w ws ih => simp [ofWords64BE, ih, Nat.mul_succ]

end Bytes

end SecureGroup
