import SecureGroup.Bytes

/-!
# Base58 text

A byte string is read as a number, highest octet first, and written in base 58; every zero octet
at its front is written as one `1`, the digit for zero.
-/

namespace SecureGroup.Base58

/-! ## Algorithm -/

/-- The digits: no zero, no capital `I` or `O`, no small `l`. -/
def alphabet : List Char :=
  "123456789ABCDEFGHJKLMNPQRSTUVWXYZabcdefghijkmnopqrstuvwxyz".toList

/-- The digits as an array, to be taken by their value. -/
def digits : Array Char := alphabet.toArray

def toDigits (n : Nat) : List Nat :=
  if n = 0 then [] else n % 58 :: toDigits (n / 58)
termination_by n
decreasing_by omega

def ofDigits : List Nat → Nat
  | [] => 0
  | d :: ds => d + 58 * ofDigits ds

/-- The octets of a number, the lowest first; none for zero. -/
def toOctets (n : Nat) : Bytes :=
  if n = 0 then [] else UInt8.ofNat (n % 256) :: toOctets (n / 256)
termination_by n
decreasing_by omega

def encode (bs : Bytes) : String :=
  let zeros := (bs.takeWhile (· == 0)).length
  let value := toDigits (Bytes.toNatBE bs)
  String.ofList (List.replicate zeros '1' ++ value.reverse.map (digits[·]!))

/-- Why a text is not in base 58: the first character that is no digit, and its place. -/
inductive Error where
  | notDigit (c : Char) (place : Nat)
  | notAscii (place : Nat)
deriving DecidableEq

def value? (c : Char) : Option Nat := alphabet.idxOf? c

/-- The values of the characters from a place on. -/
def values (place : Nat) : List Char → Except Error (List Nat)
  | [] => .ok []
  | c :: cs =>
    if 128 ≤ c.toNat then .error (.notAscii place)
    else match value? c with
      | none => .error (.notDigit c place)
      | some v => (values (place + 1) cs).map (v :: ·)

def decode (s : String) : Except Error Bytes :=
  (values 0 s.toList).map fun vs =>
    List.replicate (vs.takeWhile (· == 0)).length 0 ++ (toOctets (ofDigits vs.reverse)).reverse

end SecureGroup.Base58
