/-!
# Numbers of variable length

A number as octets of seven bits each, the lowest first, every octet but the last with its high
bit set.  A reader knows how many bits the number may have and refuses octets beyond them; octets
of zero at the end are allowed.  Main statements: what was written reads back, and the octets
after it are left (`decode_encode`); input that ends inside a number is refused
(`decode_take_encode`).
-/

namespace SecureGroup.Wire

/-- Why octets cannot be read as a value. -/
inductive Error where
  /-- The octets end inside the value. -/
  | endOfInput
  /-- A number does not end where its width allows. -/
  | varint
  /-- The mark of an optional value is neither zero nor one. -/
  | optionMark
  /-- The octets are no value of their type. -/
  | value
deriving DecidableEq

namespace Varint

/-! ## Algorithm -/

def encode (n : Nat) : List UInt8 :=
  if n < 128 then [UInt8.ofNat n] else UInt8.ofNat (n % 128 + 128) :: encode (n / 128)
termination_by n
decreasing_by omega

/-- The first number that needs more than `bits` bits. -/
def limit (bits : Nat) : Nat := 1 <<< bits

/-- The number of at most `bits` bits at the start, and the octets after it. -/
def decode (bits : Nat) : List UInt8 → Except Error (Nat × List UInt8)
  | [] => .error .endOfInput
  | b :: rest =>
    if b.toNat < 128 ∧ b.toNat < limit bits then .ok (b.toNat, rest)
    else if bits ≤ 7 then .error .varint
    else match decode (bits - 7) rest with
      | .ok (n, rest) => .ok (b.toNat % 128 + 128 * n, rest)
      | .error e => .error e

/-! ## Lemmas -/

theorem limit_add_seven (bits : Nat) : limit (bits + 7) = 128 * limit bits := by
  simp only [limit, Nat.shiftLeft_succ]; omega

/-- A number of more than seven bits has a width of more than seven bits. -/
theorem seven_lt_of_lt_limit {bits n : Nat} (h : n < limit bits) (big : ¬ n < 128) : 7 < bits := by
  have small : ∀ b ≤ 7, limit b ≤ 128 := by decide
  apply Nat.lt_of_not_le
  intro hle
  have := small bits hle
  omega

/-- What is left of a number after its lowest seven bits fits what is left of its width. -/
theorem div_lt_limit {bits n : Nat} (h : n < limit bits) (hbits : 7 < bits) :
    n / 128 < limit (bits - 7) := by
  obtain ⟨k, rfl⟩ : ∃ k, bits = k + 7 := ⟨bits - 7, by omega⟩
  rw [limit_add_seven] at h
  rw [Nat.add_sub_cancel]
  omega

theorem length_encode_of_lt {n : Nat} (h : n < 128) : (encode n).length = 1 := by
  rw [encode, if_pos h]
  rfl

/-- A number within its width reads back, and what follows it is left. -/
theorem decode_encode (bits n : Nat) (h : n < limit bits) (rest : List UInt8) :
    decode bits (encode n ++ rest) = .ok (n, rest) := by
  induction n using Nat.strongRecOn generalizing bits with
  | ind n ih =>
    rw [encode]
    split
    · rename_i small
      have hb : (UInt8.ofNat n).toNat = n := by simp; omega
      simp [decode, hb, small, h]
    · rename_i big
      have hb : (UInt8.ofNat (n % 128 + 128)).toNat = n % 128 + 128 := by simp; omega
      have hbits := seven_lt_of_lt_limit h big
      simp only [List.cons_append, decode, hb]
      rw [if_neg (by omega), if_neg (by omega), ih (n / 128) (by omega) _ (div_lt_limit h hbits)]
      simp only [Except.ok.injEq, Prod.mk.injEq, and_true]
      omega

/-- Octets that end inside a number within its width are refused. -/
theorem decode_take_encode (bits n : Nat) (h : n < limit bits) (k : Nat)
    (hk : k < (encode n).length) : decode bits ((encode n).take k) = .error .endOfInput := by
  induction n using Nat.strongRecOn generalizing bits k with
  | ind n ih =>
    rw [encode] at hk ⊢
    split at hk
    · rename_i small
      have : k = 0 := by simpa using hk
      subst this
      simp [decode]
    · rename_i big
      rw [if_neg big]
      cases k with
      | zero => simp [decode]
      | succ k =>
        have hb : (UInt8.ofNat (n % 128 + 128)).toNat = n % 128 + 128 := by simp; omega
        have hbits := seven_lt_of_lt_limit h big
        have hk' : k < (encode (n / 128)).length := by simpa using hk
        simp only [List.take_succ_cons, decode, hb]
        rw [if_neg (by omega), if_neg (by omega),
          ih (n / 128) (by omega) _ (div_lt_limit h hbits) k hk']

end Varint

end SecureGroup.Wire
