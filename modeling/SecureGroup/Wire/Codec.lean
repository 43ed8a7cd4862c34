import SecureGroup.Bytes
import SecureGroup.Wire.Varint

/-!
# Codecs of the wire format

A codec writes values as octets and reads a value from the front of some octets.  The format has
no field names and no padding: a structure is its fields in order, a byte string of any length
starts with that length, a choice starts with its number.  Octets after a value are ignored by
`Codec.read`.  Main statements: the codecs here and those built from them are faithful
(`Codec.Faithful`): what was written reads back whatever follows it, and no proper beginning of
it reads.
-/

namespace SecureGroup

/-- A way to write values of a type as octets and to read them from the front of some. -/
structure Codec (α : Type) where
  encode : α → Bytes
  decode : Bytes → Except Wire.Error (α × Bytes)

namespace Codec

/-! ## Algorithm -/

/-- Reads one value and ignores what follows it. -/
def read {α : Type} (c : Codec α) (bs : Bytes) : Except Wire.Error α :=
  (c.decode bs).map (·.1)

/-- The first `n` octets, if there are so many, and the rest. -/
def takeOctets (n : Nat) (bs : Bytes) : Except Wire.Error (Octets n × Bytes) :=
  if h : n ≤ bs.length then .ok (⟨bs.take n, List.length_take_of_le h⟩, bs.drop n)
  else .error .endOfInput

def octet : Codec UInt8 where
  encode b := [b]
  decode
    | [] => .error .endOfInput
    | b :: rest => .ok (b, rest)

def octets (n : Nat) : Codec (Octets n) where
  encode o := o.toList
  decode := takeOctets n

def word32 : Codec UInt32 where
  encode w := Wire.Varint.encode w.toNat
  decode bs := (Wire.Varint.decode 32 bs).map fun (n, rest) => (UInt32.ofNat n, rest)

def word64 : Codec UInt64 where
  encode w := Wire.Varint.encode w.toNat
  decode bs := (Wire.Varint.decode 64 bs).map fun (n, rest) => (UInt64.ofNat n, rest)

/-- A byte string of any length that a word can hold. -/
def bytes : Codec Bytes where
  encode b := Wire.Varint.encode b.length ++ b
  decode bs := do
    let (n, rest) ← Wire.Varint.decode 64 bs
    let (o, rest) ← takeOctets n rest
    return (o.toList, rest)

def pair {α β : Type} (a : Codec α) (b : Codec β) : Codec (α × β) where
  encode p := a.encode p.1 ++ b.encode p.2
  decode bs := do
    let (x, rest) ← a.decode bs
    let (y, rest) ← b.decode rest
    return ((x, y), rest)

/-- A value that may be absent. -/
def optional {α : Type} (c : Codec α) : Codec (Option α) where
  encode
    | none => [0]
    | some x => 1 :: c.encode x
  decode
    | [] => .error .endOfInput
    | b :: rest =>
      if b = 0 then .ok (none, rest)
      else if b = 1 then (c.decode rest).map fun (x, rest) => (some x, rest)
      else .error .optionMark

/-- The values of a type as values of another one, which may have values that are none. -/
def convert {α β : Type} (c : Codec α) (write : β → α) (read : α → Option β) : Codec β where
  encode y := c.encode (write y)
  decode bs := do
    let (x, rest) ← c.decode bs
    match read x with
    | some y => return (y, rest)
    | none => throw .value

/-! ## Lemmas -/

/-- What a codec writes of a value of `valid` reads back whatever follows, and no proper
beginning of it reads. -/
structure Faithful {α : Type} (c : Codec α) (valid : α → Prop) : Prop where
  decode_encode : ∀ x, valid x → ∀ rest, c.decode (c.encode x ++ rest) = .ok (x, rest)
  decode_take : ∀ x, valid x → ∀ k, k < (c.encode x).length →
    c.decode ((c.encode x).take k) = .error .endOfInput

theorem takeOctets_append {n : Nat} {bs : Bytes} (h : bs.length = n) (rest : Bytes) :
    takeOctets n (bs ++ rest) = .ok (⟨bs, h⟩, rest) := by
  subst h
  simp [takeOctets]

theorem faithful_octet : Faithful octet fun _ => True where
  decode_encode _ _ _ := rfl
  decode_take x _ k hk := by
    have : k = 0 := by simpa [octet] using hk
    subst this; rfl

theorem faithful_octets (n : Nat) : Faithful (octets n) fun _ => True where
  decode_encode x _ rest := takeOctets_append x.length_eq rest
  decode_take x _ k hk := by
    have hk : k < n := by simpa [octets] using hk
    show takeOctets n (x.toList.take k) = _
    rw [takeOctets, dif_neg (by simp; omega)]

theorem faithful_word32 : Faithful word32 fun _ => True where
  decode_encode x _ rest := by
    simp [word32, Wire.Varint.decode_encode 32 _ x.toNat_lt, Except.map]
  decode_take x _ k hk := by
    simp [word32, Wire.Varint.decode_take_encode 32 _ x.toNat_lt k hk, Except.map]

theorem faithful_word64 : Faithful word64 fun _ => True where
  decode_encode x _ rest := by
    simp [word64, Wire.Varint.decode_encode 64 _ x.toNat_lt, Except.map]
  decode_take x _ k hk := by
    simp [word64, Wire.Varint.decode_take_encode 64 _ x.toNat_lt k hk, Except.map]

theorem faithful_bytes : Faithful bytes fun b => b.length < UInt64.size where
  decode_encode x hx rest := by
    simp only [bytes, List.append_assoc, Wire.Varint.decode_encode 64 _ hx]
    show (takeOctets x.length (x ++ rest) >>= _) = _
    rw [takeOctets_append rfl]
    rfl
  decode_take x hx k hk := by
    simp only [bytes] at hk ⊢
    by_cases h : k < (Wire.Varint.encode x.length).length
    · rw [List.take_append_of_le_length (by omega), Wire.Varint.decode_take_encode 64 _ hx k h]
      rfl
    · have e : k = (Wire.Varint.encode x.length).length +
          (k - (Wire.Varint.encode x.length).length) := by omega
      rw [e, List.take_length_add_append, Wire.Varint.decode_encode 64 _ hx]
      show (takeOctets x.length (x.take _) >>= _) = _
      rw [takeOctets, dif_neg (by simp at hk ⊢; omega)]
      rfl

theorem faithful_pair {α β : Type} {a : Codec α} {b : Codec β} {va : α → Prop} {vb : β → Prop}
    (ha : Faithful a va) (hb : Faithful b vb) :
    Faithful (pair a b) fun p => va p.1 ∧ vb p.2 where
  decode_encode x hx rest := by
    simp only [pair, List.append_assoc, ha.decode_encode _ hx.1]
    show (b.decode (b.encode x.2 ++ rest) >>= _) = _
    rw [hb.decode_encode _ hx.2]
    rfl
  decode_take x hx k hk := by
    simp only [pair] at hk ⊢
    by_cases h : k < (a.encode x.1).length
    · rw [List.take_append_of_le_length (by omega), ha.decode_take _ hx.1 k h]
      rfl
    · have e : k = (a.encode x.1).length + (k - (a.encode x.1).length) := by omega
      rw [e, List.take_length_add_append, ha.decode_encode _ hx.1]
      show (b.decode _ >>= _) = _
      rw [hb.decode_take _ hx.2 _ (by simp at hk; omega)]
      rfl

theorem faithful_optional {α : Type} {c : Codec α} {valid : α → Prop} (hc : Faithful c valid) :
    Faithful (optional c) fun o => ∀ x, o = some x → valid x where
  decode_encode o ho rest := by
    cases o with
    | none => rfl
    | some x =>
      show (c.decode (c.encode x ++ rest)).map _ = _
      rw [hc.decode_encode x (ho x rfl)]
      rfl
  decode_take o ho k hk := by
    cases k with
    | zero => simp [optional]
    | succ k =>
      cases o with
      | none => simp [optional] at hk
      | some x =>
        show (c.decode ((c.encode x).take k)).map _ = _
        rw [hc.decode_take x (ho x rfl) k (by simpa [optional] using hk)]
        rfl

theorem faithful_convert {α β : Type} {c : Codec α} {valid : α → Prop} (hc : Faithful c valid)
    (write : β → α) (read : α → Option β) :
    Faithful (convert c write read) fun y => valid (write y) ∧ read (write y) = some y where
  decode_encode y hy rest := by
    simp only [convert, hc.decode_encode _ hy.1]
    show (match read (write y) with | some y => _ | none => _) = _
    rw [hy.2]
    rfl
  decode_take y hy k hk := by
    simp only [convert] at hk ⊢
    rw [hc.decode_take _ hy.1 k hk]
    rfl

end Codec

end SecureGroup
