/-!
# Byte strings

A byte string is a list of octets, and `Octets n` is one of exactly `n`.  Numbers are written
little-endian (`ofNatLE`, `toNatLE`), and byte strings are ordered octet by octet (`le`).
Main statements: a number that fits `w` octets survives them (`toNatLE_ofNatLE`), long numbers may
be written and read seven octets at a time (`ofNatBySevens_eq`, `toNatBySevens_eq`), and the order
is total (`le_total`) and transitive (`le_trans`) with equality as its only tie (`le_antisymm`).
-/

namespace SecureGroup

abbrev Bytes := List UInt8

/-- A byte string of exactly `n` octets. -/
@[ext]
structure Octets (n : Nat) where
  toList : Bytes
  length_eq : toList.length = n

/-! ## Algorithm -/

namespace Bytes

/-- The `w` low octets of `n`, the lowest first. -/
def ofNatLE : Nat → Nat → Bytes
  | 0, _ => []
  | w + 1, n => UInt8.ofNat (n % 256) :: ofNatLE w (n / 256)

def toNatLE : Bytes → Nat
  | [] => 0
  | b :: bs => b.toNat + 256 * toNatLE bs

/-- The same as `ofNatLE`, seven octets at a time: so many fit one machine word. -/
def ofNatBySevens : Nat → Nat → Bytes
  | w + 7, n =>
    let x := n % 0x100000000000000
    UInt8.ofNat (x % 256) :: UInt8.ofNat (x / 0x100 % 256) :: UInt8.ofNat (x / 0x10000 % 256) ::
      UInt8.ofNat (x / 0x1000000 % 256) :: UInt8.ofNat (x / 0x100000000 % 256) ::
      UInt8.ofNat (x / 0x10000000000 % 256) :: UInt8.ofNat (x / 0x1000000000000 % 256) ::
      ofNatBySevens w (n / 0x100000000000000)
  | w, n => ofNatLE w n

/-- The same as `toNatLE`, seven octets at a time. -/
def toNatBySevens : Bytes → Nat
  | a :: b :: c :: d :: e :: f :: g :: rest =>
    a.toNat + 0x100 * b.toNat + 0x10000 * c.toNat + 0x1000000 * d.toNat + 0x100000000 * e.toNat +
      0x10000000000 * f.toNat + 0x1000000000000 * g.toNat +
      0x100000000000000 * toNatBySevens rest
  | bs => toNatLE bs

def ofNatBE (w n : Nat) : Bytes := (ofNatLE w n).reverse

def toNatBE (bs : Bytes) : Nat := bs.foldl (fun n b => 256 * n + b.toNat) 0

def ofUInt64LE (w : UInt64) : Bytes :=
  [w.toUInt8, (w >>> 8).toUInt8, (w >>> 16).toUInt8, (w >>> 24).toUInt8, (w >>> 32).toUInt8,
    (w >>> 40).toUInt8, (w >>> 48).toUInt8, (w >>> 56).toUInt8]

/-- The octets of a text's UTF-8 form. -/
def ofString (s : String) : Bytes := s.toUTF8.toList

/-- Whether two byte strings are the same, up to the first octet that differs. -/
def same : Bytes → Bytes → Bool
  | [], [] => true
  | a :: as, b :: bs => if a = b then same as bs else false
  | [], _ :: _ => false
  | _ :: _, [] => false

/-- Whether the first byte string comes no later in the order of octets. -/
def le : Bytes → Bytes → Bool
  | [], _ => true
  | _ :: _, [] => false
  | a :: as, b :: bs => if a < b then true else if b < a then false else le as bs

end Bytes

namespace Octets

/-- The octets, if there are exactly `n` of them. -/
def ofList? (n : Nat) (bs : Bytes) : Option (Octets n) :=
  if h : bs.length = n then some ⟨bs, h⟩ else none

/-- The first `n` octets, filled up with zeros. -/
def fit (n : Nat) (bs : Bytes) : Octets n :=
  ⟨bs.take n ++ List.replicate (n - bs.length) 0, by simp; omega⟩

def ofNatLE (n value : Nat) : Octets n := fit n (Bytes.ofNatBySevens n value)

def toNatLE {n : Nat} (o : Octets n) : Nat := Bytes.toNatBySevens o.toList

def le {n : Nat} (a b : Octets n) : Bool := Bytes.le a.toList b.toList

end Octets

/-! ## Lemmas -/

namespace Bytes

@[simp]
theorem length_ofNatLE (w n : Nat) : (ofNatLE w n).length = w := by
  induction w generalizing n with
  | zero => rfl
  | succ w ih => simp [ofNatLE, ih]

/-- A number of at most `w` octets is read back from them. -/
theorem toNatLE_ofNatLE (w n : Nat) (h : n < 1 <<< (8 * w)) : toNatLE (ofNatLE w n) = n := by
  induction w generalizing n with
  | zero => simp at h; simp [ofNatLE, toNatLE, h]
  | succ w ih =>
    have hq : n / 256 < 1 <<< (8 * w) := by
      simp only [Nat.mul_succ, Nat.shiftLeft_succ] at h
      omega
    simp only [ofNatLE, toNatLE, ih _ hq, UInt8.toNat_ofNat']
    omega

/-- A word is written as the number that it counts. -/
theorem ofUInt64LE_eq (w : UInt64) : ofUInt64LE w = ofNatLE 8 w.toNat := by
  have hlow : w.toUInt8 = UInt8.ofNat (w.toNat % 256) := by
    rw [← UInt8.toNat_inj, UInt64.toNat_toUInt8]
    simp
  have hshift : ∀ k : UInt64,
      (w >>> k).toUInt8 = UInt8.ofNat (w.toNat / 2 ^ (k.toNat % 64) % 256) := by
    intro k
    rw [← UInt8.toNat_inj, UInt64.toNat_toUInt8, UInt64.toNat_shiftRight,
      Nat.shiftRight_eq_div_pow]
    simp
  simp only [ofUInt64LE, ofNatLE, Nat.div_div_eq_div_mul, Nat.reduceMul, hlow, hshift]
  rfl

theorem ofUInt64LE_injective {v w : UInt64} (h : ofUInt64LE v = ofUInt64LE w) : v = w := by
  rw [ofUInt64LE_eq, ofUInt64LE_eq] at h
  have hnat := congrArg toNatLE h
  rw [toNatLE_ofNatLE _ _ v.toNat_lt, toNatLE_ofNatLE _ _ w.toNat_lt] at hnat
  exact UInt64.toNat_inj.1 hnat

theorem ofNatBySevens_eq (w n : Nat) : ofNatBySevens w n = ofNatLE w n := by
  fun_induction ofNatBySevens w n with
  | case1 w n x ih =>
    have h₀ : x % 256 = n % 256 := by omega
    have h₁ : x / 0x100 % 256 = n / 0x100 % 256 := by omega
    have h₂ : x / 0x10000 % 256 = n / 0x10000 % 256 := by omega
    have h₃ : x / 0x1000000 % 256 = n / 0x1000000 % 256 := by omega
    have h₄ : x / 0x100000000 % 256 = n / 0x100000000 % 256 := by omega
    have h₅ : x / 0x10000000000 % 256 = n / 0x10000000000 % 256 := by omega
    have h₆ : x / 0x1000000000000 % 256 = n / 0x1000000000000 % 256 := by omega
    simp only [ih, ofNatLE, Nat.div_div_eq_div_mul, Nat.reduceMul, h₀, h₁, h₂, h₃, h₄, h₅, h₆]
  | case2 => rfl

theorem toNatBySevens_eq (bs : Bytes) : toNatBySevens bs = toNatLE bs := by
  fun_induction toNatBySevens bs with
  | case1 a b c d e f g rest ih => simp only [ih, toNatLE]; omega
  | case2 => rfl

theorem same_iff (a b : Bytes) : same a b = true ↔ a = b := by
  fun_induction same a b <;> simp_all

theorem le_refl (a : Bytes) : le a a = true := by
  induction a with
  | nil => rfl
  | cons b bs ih => simp [le, ih]

theorem le_total (a b : Bytes) : (le a b || le b a) = true := by
  induction a generalizing b with
  | nil => simp [le]
  | cons x xs ih =>
    cases b with
    | nil => simp [le]
    | cons y ys =>
      simp only [le]
      by_cases h₁ : x < y
      · simp [h₁]
      · by_cases h₂ : y < x
        · simp [h₁, h₂]
        · simpa [h₁, h₂] using ih ys

theorem le_trans (a b c : Bytes) (h₁ : le a b = true) (h₂ : le b c = true) : le a c = true := by
  induction a generalizing b c with
  | nil => rfl
  | cons x xs ih =>
    cases b with
    | nil => simp [le] at h₁
    | cons y ys =>
      cases c with
      | nil => simp [le] at h₂
      | cons z zs =>
        simp only [le] at h₁ h₂ ⊢
        by_cases hxy : x < y
        · by_cases hyz : y < z
          · simp [UInt8.lt_trans hxy hyz]
          · by_cases hzy : z < y
            · simp [hyz, hzy] at h₂
            · obtain rfl : y = z := UInt8.le_antisymm (UInt8.not_lt.1 hzy) (UInt8.not_lt.1 hyz)
              simp [hxy]
        · by_cases hyx : y < x
          · simp [hxy, hyx] at h₁
          · obtain rfl : x = y := UInt8.le_antisymm (UInt8.not_lt.1 hyx) (UInt8.not_lt.1 hxy)
            simp only [hxy, if_false] at h₁
            by_cases hxz : x < z
            · simp [hxz]
            · by_cases hzx : z < x
              · simp [hxz, hzx] at h₂
              · simp only [hxz, hzx, if_false] at h₂ ⊢
                exact ih ys zs h₁ h₂

theorem le_antisymm (a b : Bytes) (h₁ : le a b = true) (h₂ : le b a = true) : a = b := by
  induction a generalizing b with
  | nil => cases b with
    | nil => rfl
    | cons y ys => simp [le] at h₂
  | cons x xs ih =>
    cases b with
    | nil => simp [le] at h₁
    | cons y ys =>
      simp only [le] at h₁ h₂
      by_cases hxy : x < y
      · have : ¬ y < x := UInt8.lt_asymm hxy
        simp [hxy, this] at h₂
      · by_cases hyx : y < x
        · simp [hxy, hyx] at h₁
        · simp only [hxy, hyx, if_false] at h₁ h₂
          have : x = y := UInt8.le_antisymm (UInt8.not_lt.1 hyx) (UInt8.not_lt.1 hxy)
          rw [this, ih ys h₁ h₂]

end Bytes

instance {n : Nat} : DecidableEq (Octets n) := fun a b =>
  decidable_of_iff (Bytes.same a.toList b.toList = true)
    ((Bytes.same_iff _ _).trans Octets.ext_iff.symm)

@[simp]
theorem Octets.length_toList {n : Nat} (o : Octets n) : o.toList.length = n := o.length_eq

namespace Octets

variable {n : Nat} {a b c : Octets n}

theorem le_total (a b : Octets n) : a.le b = true ∨ b.le a = true :=
  Bool.or_eq_true_iff.1 (Bytes.le_total a.toList b.toList)

theorem le_trans (h₁ : a.le b = true) (h₂ : b.le c = true) : a.le c = true :=
  Bytes.le_trans _ _ _ h₁ h₂

theorem le_antisymm (h₁ : a.le b = true) (h₂ : b.le a = true) : a = b :=
  Octets.ext (Bytes.le_antisymm _ _ h₁ h₂)

end Octets

/-- Nothing is cut or filled when the length is right. -/
theorem Octets.toList_fit {n : Nat} {bs : Bytes} (h : bs.length = n) : (fit n bs).toList = bs := by
  subst h; simp [fit]

theorem Octets.toList_ofNatLE (n value : Nat) :
    (ofNatLE n value).toList = Bytes.ofNatLE n value := by
  rw [ofNatLE, Bytes.ofNatBySevens_eq]
  exact toList_fit (Bytes.length_ofNatLE n value)

theorem Octets.toNatLE_eq {n : Nat} (o : Octets n) : o.toNatLE = Bytes.toNatLE o.toList :=
  Bytes.toNatBySevens_eq o.toList

theorem Octets.ofList?_toList {n : Nat} (o : Octets n) : ofList? n o.toList = some o := by
  simp [ofList?]

end SecureGroup
