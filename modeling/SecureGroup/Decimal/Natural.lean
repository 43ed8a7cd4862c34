/-!
# Natural numbers in decimal

A number of at most 64 bits as ASCII digits, with an optional plus sign and with any number of
zeros in front.
-/

namespace SecureGroup.Decimal

def digit? (c : Char) : Option Nat := if '0' ≤ c ∧ c ≤ '9' then some (c.toNat - 48) else none

/-- The number that digits continue. -/
def readDigits (n : Nat) : List Char → Option Nat
  | [] => some n
  | c :: cs => (digit? c).bind fun d => readDigits (10 * n + d) cs

/-- The number of at most 64 bits that a text writes. -/
def readWord (cs : List Char) : Option Nat := do
  let ds := match cs with
    | '+' :: ds => ds
    | ds => ds
  if ds.isEmpty then none
  let n ← readDigits 0 ds
  if n < UInt64.size then some n else none

end SecureGroup.Decimal
