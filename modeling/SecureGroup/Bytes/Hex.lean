import SecureGroup.Bytes

/-!
# Hexadecimal text

Two lower-case digits per octet.  Main statement: the text of a byte string reads back as it
(`ofHex?_toHex`).
-/

namespace SecureGroup.Bytes

/-! ## Algorithm -/

/-- The lower-case digit of a value below 16. -/
def hexDigit (n : Nat) : Char := if n < 10 then Char.ofNat (48 + n) else Char.ofNat (87 + n)

def hexValue? (c : Char) : Option Nat :=
  let n := c.toNat
  if 48 ≤ n ∧ n ≤ 57 then some (n - 48)
  else if 97 ≤ n ∧ n ≤ 102 then some (n - 87)
  else if 65 ≤ n ∧ n ≤ 70 then some (n - 55)
  else none

def toHexChars : Bytes → List Char
  | [] => []
  | b :: bs => hexDigit (b.toNat / 16) :: hexDigit (b.toNat % 16) :: toHexChars bs

/-- The byte string written by these digits, if they are digits and come in pairs. -/
def ofHexChars? : List Char → Option Bytes
  | [] => some []
  | [_] => none
  | a :: b :: cs => do
    let high ← hexValue? a
    let low ← hexValue? b
    let rest ← ofHexChars? cs
    return UInt8.ofNat (16 * high + low) :: rest

/-- The text of a byte string: two lower-case digits per octet. -/
def toHex (bs : Bytes) : String := String.ofList (toHexChars bs)

def ofHex? (s : String) : Option Bytes := ofHexChars? s.toList

/-! ## Lemmas -/

theorem hexValue?_hexDigit : ∀ n, n < 16 → hexValue? (hexDigit n) = some n := by decide

theorem ofHexChars?_toHexChars (bs : Bytes) : ofHexChars? (toHexChars bs) = some bs := by
  induction bs with
  | nil => rfl
  | cons b bs ih =>
    have hb : b.toNat < 256 := b.toNat_lt
    simp only [toHexChars, ofHexChars?, ih, hexValue?_hexDigit _ (by omega : b.toNat / 16 < 16),
      hexValue?_hexDigit _ (by omega : b.toNat % 16 < 16)]
    have : 16 * (b.toNat / 16) + b.toNat % 16 = b.toNat := by omega
    show some (UInt8.ofNat (16 * (b.toNat / 16) + b.toNat % 16) :: bs) = _
    rw [this, UInt8.ofNat_toNat]

theorem ofHex?_toHex (bs : Bytes) : ofHex? (toHex bs) = some bs := by
  simp [ofHex?, toHex, ofHexChars?_toHexChars]

end SecureGroup.Bytes
