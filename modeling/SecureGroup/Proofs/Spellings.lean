import SecureGroup.Proofs.Sealing
import SecureGroup.Proofs.Signatures

/-!
# How an envelope can be spelled

A reader of the wire format takes more octets than the writer gives.  A number may be written in
more groups of seven bits than it needs, up to the width that is read
(`Wire.Varint.decode_eq_ok_iff`), and octets behind a value are ignored.  So an envelope has a
spelling for every choice of these, and no other (`Envelope.ofBytes_eq_ok_iff`); two spellings are
never the same octets (`Envelope.spelled_injective`), and the writer's is the shortest
(`Envelope.exists_spelled_eq_encode`).
-/

namespace SecureGroup

/-! ## Numbers -/

namespace Wire.Varint

/-- A number in some groups of seven bits and one more, whether it needs them or not. -/
def inGroups : Nat → Nat → List UInt8
  | 0, n => [UInt8.ofNat n]
  | more + 1, n => UInt8.ofNat (n % 128 + 128) :: inGroups more (n / 128)

/-- A number is within a width, and so are the groups in which it is written. -/
structure Within (bits more n : Nat) : Prop where
  groups : 7 * more < bits
  width : n < limit bits
  room : n < limit (7 * (more + 1))

variable {bits more more' n : Nat} {bs rest : List UInt8}

@[simp]
theorem length_inGroups (more n : Nat) : (inGroups more n).length = more + 1 := by
  induction more generalizing n with
  | zero => rfl
  | succ more ih => rw [inGroups, List.length_cons, ih]

/-- A number has the groups of its lower half and those of the rest. -/
theorem within_succ_iff (hbits : 7 < bits) :
    Within bits (more + 1) n ↔ Within (bits - 7) more (n / 128) := by
  obtain ⟨k, rfl⟩ : ∃ k, bits = k + 7 := ⟨bits - 7, by omega⟩
  have hroom : limit (7 * (more + 1 + 1)) = 128 * limit (7 * (more + 1)) := limit_add_seven _
  rw [Nat.add_sub_cancel]
  constructor
  · rintro ⟨hgroups, hwidth, hn⟩
    rw [limit_add_seven] at hwidth
    rw [hroom] at hn
    exact ⟨by omega, by omega, by omega⟩
  · rintro ⟨hgroups, hwidth, hn⟩
    refine ⟨by omega, ?_, ?_⟩
    · rw [limit_add_seven]
      omega
    · rw [hroom]
      omega

theorem decode_inGroups (h : Within bits more n) :
    decode bits (inGroups more n ++ rest) = .ok (n, rest) := by
  induction more generalizing bits n with
  | zero =>
    have hsmall : n < 128 := h.room
    have hb : (UInt8.ofNat n).toNat = n := by simp; omega
    rw [inGroups, List.cons_append, decode, hb, if_pos ⟨hsmall, h.width⟩]
    rfl
  | succ more ih =>
    have hbits : 7 < bits := by
      have hgroups := h.groups
      omega
    have hb : (UInt8.ofNat (n % 128 + 128)).toNat = n % 128 + 128 := by simp; omega
    have hrest := ih ((within_succ_iff hbits).1 h)
    rw [inGroups, List.cons_append, decode, hb, if_neg (by omega), if_neg (by omega), hrest]
    simp only [Except.ok.injEq, Prod.mk.injEq, and_true]
    omega

theorem exists_groups (hbits : 0 < bits) (h : decode bits bs = .ok (n, rest)) :
    ∃ more, Within bits more n ∧ bs = inGroups more n ++ rest := by
  induction bs generalizing bits n with
  | nil => cases h
  | cons b bs ih =>
    have hb : ∀ k, k = b.toNat → UInt8.ofNat k = b := by
      rintro k rfl
      exact UInt8.ofNat_toNat
    unfold decode at h
    split at h
    · next hlast =>
      cases h
      exact ⟨0, ⟨hbits, hlast.2, hlast.1⟩, by rw [inGroups, hb _ rfl]; rfl⟩
    · next hmore =>
      split at h
      · cases h
      · next hwide =>
        have hlimit : 128 ≤ limit bits := by
          obtain ⟨k, rfl⟩ : ∃ k, bits = k + 7 := ⟨bits - 7, by omega⟩
          have hpos : 0 < limit k := by
            rw [limit, Nat.shiftLeft_eq, Nat.one_mul]
            exact Nat.two_pow_pos k
          rw [limit_add_seven]
          omega
        split at h
        · next m rest' hdecode =>
          cases h
          obtain ⟨more, hwithin, rfl⟩ := ih (by omega) hdecode
          have hbyte := b.toNat_lt
          have hquot : (b.toNat % 128 + 128 * m) / 128 = m := by omega
          have hhead : UInt8.ofNat ((b.toNat % 128 + 128 * m) % 128 + 128) = b :=
            hb _ (by omega)
          refine ⟨more + 1, (within_succ_iff (by omega)).2 (by rwa [hquot]), ?_⟩
          rw [inGroups, hhead, hquot, List.cons_append]
        · cases h

/-- A number is read from its groups, however many they are, and from nothing else. -/
theorem decode_eq_ok_iff (hbits : 0 < bits) : decode bits bs = .ok (n, rest) ↔
    ∃ more, Within bits more n ∧ bs = inGroups more n ++ rest := by
  constructor
  · exact exists_groups hbits
  · rintro ⟨more, h, rfl⟩
    exact decode_inGroups h

/-- Groups of one number tell how many they are. -/
theorem inGroups_append_injective {rest' : List UInt8} (h : Within bits more n)
    (h' : Within bits more' n) (heq : inGroups more n ++ rest = inGroups more' n ++ rest') :
    more = more' ∧ rest = rest' := by
  have hread : decode bits (inGroups more n ++ rest) = .ok (n, rest) := decode_inGroups h
  rw [heq, decode_inGroups h'] at hread
  obtain rfl : rest' = rest := congrArg Prod.snd (Except.ok.inj hread)
  have hlength := congrArg List.length (List.append_cancel_right heq)
  rw [length_inGroups, length_inGroups] at hlength
  exact ⟨by omega, rfl⟩

/-- The writer uses as few groups as it can. -/
theorem exists_encode_eq (hbits : 0 < bits) (h : n < limit bits) :
    ∃ more, Within bits more n ∧ encode n = inGroups more n ∧
      ∀ more', Within bits more' n → more ≤ more' := by
  induction n using Nat.strongRecOn generalizing bits with
  | ind n ih =>
    rw [encode]
    split
    · next small => exact ⟨0, ⟨hbits, h, small⟩, rfl, fun more' _ => Nat.zero_le more'⟩
    · next big =>
      have hwide := seven_lt_of_lt_limit h big
      obtain ⟨more, hwithin, heq, hleast⟩ := ih (n / 128) (by omega) (by omega : 0 < bits - 7)
        (div_lt_limit h hwide)
      refine ⟨more + 1, (within_succ_iff hwide).2 hwithin, by rw [heq, inGroups], ?_⟩
      intro more' hmore'
      cases more' with
      | zero => exact absurd hmore'.room big
      | succ more' => exact Nat.succ_le_succ (hleast more' ((within_succ_iff hwide).1 hmore'))

end Wire.Varint

/-! ## Codecs -/

namespace Codec

open Wire.Varint

variable {α β : Type} {a : Codec α} {b : Codec β}

/-- The octets from which a codec reads a value, whatever follows them. -/
structure Reads (c : Codec α) (form : α → Bytes → Prop) : Prop where
  decode_eq_ok_iff : ∀ {bs x rest}, c.decode bs = .ok (x, rest) ↔
    ∃ octets, form x octets ∧ bs = octets ++ rest

theorem reads_octet : Reads octet fun b octets => octets = [b] where
  decode_eq_ok_iff {bs x rest} := by
    cases bs with
    | nil => simp [octet]
    | cons b bs => simp [octet, eq_comm]

theorem reads_octets (n : Nat) : Reads (octets n) fun o octets => octets = o.toList where
  decode_eq_ok_iff {bs x rest} := by
    constructor
    · intro h
      simp only [octets, takeOctets] at h
      split at h
      · cases h
        exact ⟨_, rfl, (List.take_append_drop n bs).symm⟩
      · cases h
    · rintro ⟨_, rfl, rfl⟩
      exact takeOctets_append x.length_eq rest

theorem reads_word64 : Reads word64 fun w octets =>
    ∃ more, Within 64 more w.toNat ∧ octets = inGroups more w.toNat where
  decode_eq_ok_iff {bs x rest} := by
    have hbits : 0 < 64 := by decide
    constructor
    · intro h
      simp only [word64] at h
      cases hdecode : Wire.Varint.decode 64 bs with
      | error cause =>
        rw [hdecode] at h
        cases h
      | ok found =>
        obtain ⟨n, rest'⟩ := found
        rw [hdecode] at h
        cases h
        obtain ⟨more, hwithin, rfl⟩ := (Wire.Varint.decode_eq_ok_iff hbits).1 hdecode
        have hn : (UInt64.ofNat n).toNat = n := UInt64.toNat_ofNat_of_lt' hwithin.width
        rw [hn]
        exact ⟨_, ⟨more, hwithin, rfl⟩, rfl⟩
    · rintro ⟨_, ⟨more, hwithin, rfl⟩, rfl⟩
      have hdecode : Wire.Varint.decode 64 (inGroups more x.toNat ++ rest) =
          .ok (x.toNat, rest) := decode_inGroups hwithin
      simp only [word64, hdecode, Except.map, UInt64.ofNat_toNat]

theorem reads_bytes : Reads bytes fun b octets =>
    ∃ more, Within 64 more b.length ∧
      octets = inGroups more b.length ++ b where
  decode_eq_ok_iff {bs x rest} := by
    have hbits : 0 < 64 := by decide
    simp only [bytes, bind_eq_ok_iff]
    constructor
    · rintro ⟨⟨n, behind⟩, hcount, ⟨o, rest'⟩, htake, h⟩
      cases h
      obtain ⟨more, hwithin, hbs⟩ := (Wire.Varint.decode_eq_ok_iff hbits).1 hcount
      obtain ⟨octets, hoctets, hbehind⟩ := (reads_octets n).decode_eq_ok_iff.1 htake
      have hlength : List.length o.toList = n := o.length_toList
      refine ⟨inGroups more n ++ o.toList, ⟨more, ?_, ?_⟩, ?_⟩
      · rwa [hlength]
      · rw [hlength]
      · rw [hbs, List.append_assoc, ← hoctets]
        exact congrArg (inGroups more n ++ ·) hbehind
    · rintro ⟨_, ⟨more, hwithin, rfl⟩, rfl⟩
      refine ⟨(x.length, x ++ rest), ?_, (⟨x, rfl⟩, rest), takeOctets_append rfl rest, rfl⟩
      rw [List.append_assoc]
      exact (Wire.Varint.decode_eq_ok_iff hbits).2 ⟨more, hwithin, rfl⟩

theorem reads_pair {fa : α → Bytes → Prop} {fb : β → Bytes → Prop} (ha : Reads a fa)
    (hb : Reads b fb) : Reads (pair a b) fun p octets =>
      ∃ front back, fa p.1 front ∧ fb p.2 back ∧ octets = front ++ back where
  decode_eq_ok_iff {bs x rest} := by
    simp only [pair, bind_eq_ok_iff]
    constructor
    · rintro ⟨⟨y, behind⟩, hfront, ⟨z, rest'⟩, hback, h⟩
      cases h
      obtain ⟨front, hy, rfl⟩ := ha.decode_eq_ok_iff.1 hfront
      obtain ⟨back, hz, rfl⟩ := hb.decode_eq_ok_iff.1 hback
      exact ⟨front ++ back, ⟨front, back, hy, hz, rfl⟩, (List.append_assoc _ _ _).symm⟩
    · rintro ⟨_, ⟨front, back, hy, hz, rfl⟩, rfl⟩
      refine ⟨(x.1, back ++ rest), ?_, (x.2, rest), ?_, rfl⟩
      · rw [List.append_assoc]
        exact ha.decode_eq_ok_iff.2 ⟨front, hy, rfl⟩
      · exact hb.decode_eq_ok_iff.2 ⟨back, hz, rfl⟩

theorem reads_convert {fa : α → Bytes → Prop} (ha : Reads a fa) (write : β → α)
    (read : α → Option β) : Reads (a.convert write read) fun y octets =>
      ∃ x, fa x octets ∧ read x = some y where
  decode_eq_ok_iff {bs y rest} := by
    simp only [convert, bind_eq_ok_iff]
    constructor
    · rintro ⟨⟨x, rest'⟩, hdecode, h⟩
      obtain ⟨octets, hx, rfl⟩ := ha.decode_eq_ok_iff.1 hdecode
      cases hread : read x with
      | none =>
        rw [hread] at h
        cases h
      | some z =>
        rw [hread] at h
        cases h
        exact ⟨octets, ⟨x, hx, hread⟩, rfl⟩
    · rintro ⟨octets, ⟨x, hx, hread⟩, rfl⟩
      refine ⟨(x, rest), ha.decode_eq_ok_iff.2 ⟨octets, hx, rfl⟩, ?_⟩
      rw [hread]
      rfl

end Codec

/-! ## Envelopes -/

/-- How many groups more than one each number of an envelope has. -/
@[ext]
structure Envelope.Spelling where
  clock : Nat
  ciphertext : Nat
  signature : Nat

namespace Envelope

open Wire.Varint

/-- The octets of an envelope in a spelling. -/
def spelled (e : Envelope) (s : Spelling) : Bytes :=
  e.version :: (e.sender.bytes.toList ++ (inGroups s.clock e.clock.toNat ++ (e.nonce.toList ++
    (inGroups s.ciphertext e.ciphertext.length ++ (e.ciphertext ++
      (inGroups s.signature e.signature.length ++ e.signature))))))

/-- The numbers of an envelope have room in a spelling. -/
structure Spelling.Fits (s : Spelling) (e : Envelope) : Prop where
  clock : Within 64 s.clock e.clock.toNat
  ciphertext : Within 64 s.ciphertext e.ciphertext.length
  signature : Within 64 s.signature e.signature.length

variable {e : Envelope} {s s' : Spelling} {bs rest rest' : Bytes}

/-- Different spellings are different octets, whatever stands behind them. -/
theorem spelled_injective (hs : s.Fits e) (hs' : s'.Fits e)
    (h : e.spelled s ++ rest = e.spelled s' ++ rest') : s = s' ∧ rest = rest' := by
  unfold spelled at h
  simp only [List.cons_append, List.append_assoc] at h
  obtain ⟨-, h⟩ := List.cons.inj h
  have h := List.append_cancel_left h
  obtain ⟨hclock, h⟩ := inGroups_append_injective hs.clock hs'.clock h
  have h := List.append_cancel_left h
  obtain ⟨hciphertext, h⟩ := inGroups_append_injective hs.ciphertext hs'.ciphertext h
  have h := List.append_cancel_left h
  obtain ⟨hsignature, h⟩ := inGroups_append_injective hs.signature hs'.signature h
  exact ⟨Spelling.ext hclock hciphertext hsignature, List.append_cancel_left h⟩

variable [Suite]

theorem reads_sender : PublicKey.codec.Reads fun k octets =>
    k.Valid ∧ octets = k.bytes.toList where
  decode_eq_ok_iff {bs k rest} := by
    refine (Codec.reads_convert (Codec.reads_octets 32) _ _).decode_eq_ok_iff.trans
      (exists_congr fun octets => and_congr_left fun _ => ?_)
    constructor
    · rintro ⟨o, rfl, hk⟩
      split at hk
      · next hvalid =>
        cases hk
        exact ⟨hvalid, rfl⟩
      · cases hk
    · rintro ⟨hvalid, rfl⟩
      exact ⟨k.bytes, rfl, if_pos hvalid⟩

theorem reads_codec : codec.Reads fun e octets =>
    e.sender.Valid ∧ ∃ s : Spelling, s.Fits e ∧ octets = e.spelled s where
  decode_eq_ok_iff {bs e rest} := by
    refine (Codec.reads_convert (Codec.reads_pair Codec.reads_octet (Codec.reads_pair reads_sender
      (Codec.reads_pair Codec.reads_word64 (Codec.reads_pair (Codec.reads_octets 12)
        (Codec.reads_pair Codec.reads_bytes Codec.reads_bytes))))) _ _).decode_eq_ok_iff.trans
      (exists_congr fun octets => and_congr_left fun _ => ?_)
    constructor
    · rintro ⟨⟨v, k, c, n, t, g⟩, ⟨_, _, rfl, ⟨_, _, ⟨hvalid, rfl⟩, ⟨_, _,
        ⟨clock, hclock, rfl⟩, ⟨_, _, rfl, ⟨_, _, ⟨ciphertext, hciphertext, rfl⟩,
        ⟨signature, hsignature, rfl⟩, rfl⟩, rfl⟩, rfl⟩, rfl⟩, rfl⟩, he⟩
      cases he
      refine ⟨hvalid, ⟨clock, ciphertext, signature⟩, ⟨hclock, hciphertext, hsignature⟩, ?_⟩
      simp only [spelled, List.append_assoc, List.singleton_append]
    · rintro ⟨hvalid, s, hfits, rfl⟩
      refine ⟨(e.version, e.sender, e.clock, e.nonce, e.ciphertext, e.signature),
        ⟨_, _, rfl, ⟨_, _, ⟨hvalid, rfl⟩, ⟨_, _, ⟨s.clock, hfits.clock, rfl⟩,
        ⟨_, _, rfl, ⟨_, _, ⟨s.ciphertext, hfits.ciphertext, rfl⟩,
        ⟨s.signature, hfits.signature, rfl⟩, rfl⟩, rfl⟩, rfl⟩, rfl⟩, ?_⟩, rfl⟩
      simp only [spelled, List.append_assoc, List.singleton_append]

/-- An envelope is read from its spellings, with anything behind them, and from nothing else. -/
theorem ofBytes_eq_ok_iff : ofBytes bs = .ok e ↔
    e.sender.Valid ∧ ∃ (s : Spelling) (rest : Bytes), s.Fits e ∧ bs = e.spelled s ++ rest := by
  have hread : ofBytes bs = .ok e ↔ ∃ rest, codec.decode bs = .ok (e, rest) := by
    unfold ofBytes Codec.read
    cases codec.decode bs with
    | error fault =>
      constructor
      · intro h
        cases h
      · rintro ⟨rest, h⟩
        cases h
    | ok found =>
      constructor
      · intro h
        cases h
        exact ⟨found.2, rfl⟩
      · rintro ⟨rest, h⟩
        cases h
        rfl
  rw [hread]
  constructor
  · rintro ⟨rest, hdecode⟩
    obtain ⟨_, ⟨hvalid, s, hfits, rfl⟩, rfl⟩ := reads_codec.decode_eq_ok_iff.1 hdecode
    exact ⟨hvalid, s, rest, hfits, rfl⟩
  · rintro ⟨hvalid, s, rest, hfits, rfl⟩
    exact ⟨rest, reads_codec.decode_eq_ok_iff.2 ⟨_, ⟨hvalid, s, hfits, rfl⟩, rfl⟩⟩

theorem ofBytes_append (h : ofBytes bs = .ok e) (more : Bytes) : ofBytes (bs ++ more) = .ok e := by
  obtain ⟨hvalid, s, rest, hfits, rfl⟩ := ofBytes_eq_ok_iff.1 h
  rw [List.append_assoc]
  exact ofBytes_eq_ok_iff.2 ⟨hvalid, s, rest ++ more, hfits, rfl⟩

/-- The writer takes the shortest spelling. -/
theorem exists_spelled_eq_encode (h : e.Sound) : ∃ s : Spelling, s.Fits e ∧
    codec.encode e = e.spelled s ∧
    ∀ s' : Spelling, s'.Fits e → (e.spelled s).length ≤ (e.spelled s').length := by
  have hbits : 0 < 64 := by decide
  obtain ⟨clock, hclock, hclockEq, hleastClock⟩ := exists_encode_eq hbits e.clock.toNat_lt
  obtain ⟨ciphertext, hciphertext, hciphertextEq, hleastCiphertext⟩ :=
    exists_encode_eq hbits h.ciphertext
  obtain ⟨signature, hsignature, hsignatureEq, hleastSignature⟩ :=
    exists_encode_eq hbits h.signature
  refine ⟨⟨clock, ciphertext, signature⟩, ⟨hclock, hciphertext, hsignature⟩, ?_, ?_⟩
  · simp only [spelled, ← hclockEq, ← hciphertextEq, ← hsignatureEq]
    simp [codec, Codec.convert, Codec.pair, Codec.octet, Codec.octets, Codec.word64, Codec.bytes,
      PublicKey.codec]
  · intro s' hs'
    have hle := hleastClock _ hs'.clock
    have hle' := hleastCiphertext _ hs'.ciphertext
    have hle'' := hleastSignature _ hs'.signature
    simp only [spelled, List.length_cons, List.length_append, length_inGroups]
    omega

end Envelope

end SecureGroup
