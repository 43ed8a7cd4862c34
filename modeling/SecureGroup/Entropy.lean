import SecureGroup.Bytes

/-!
# Entropy

A source of randomness is a stream of 64-bit words and the number of words already used.  Octets
are drawn eight to a word, the lowest first; what is left of the last word is not used.
-/

namespace SecureGroup

/-- A stream of words, and how many of them have been used. -/
structure Entropy where
  word : Nat → UInt64
  used : Nat

/-- A computation that may draw from a source of randomness. -/
abbrev Draw := StateM Entropy

/-! ## Algorithm -/

def Draw.word : Draw UInt64 := fun e => (e.word e.used, { e with used := e.used + 1 })

def Draw.octets (n : Nat) : Draw (Octets n) := fun e =>
  let words := (n + 7) / 8
  let bytes := (List.range words).flatMap fun i => Bytes.ofUInt64LE (e.word (e.used + i))
  (Octets.fit n bytes, { e with used := e.used + words })

/-- The output function of the SplitMix64 generator. -/
def splitMix (s : UInt64) : UInt64 :=
  let z := (s ^^^ (s >>> 30)) * 0xbf58476d1ce4e5b9
  let z := (z ^^^ (z >>> 27)) * 0x94d049bb133111eb
  z ^^^ (z >>> 31)

/-- The words of the SplitMix64 generator from a seed on. -/
def Entropy.ofSeed (seed : UInt64) : Entropy where
  word i := splitMix (seed + 0x9e3779b97f4a7c15 * UInt64.ofNat (i + 1))
  used := 0

end SecureGroup
