import Mathlib.Data.List.TakeWhile
import Mathlib.Data.Nat.Digits.Lemmas
import SecureGroup.Base58

/-!
# Base58 text reads back

Digits and octets are those of Mathlib's positional numerals (`toDigits_eq`, `toOctets_eq`), so a
number survives either base.  What numerals forget are zeros at the front; the text counts them in
digits of its own.  Main statements: the text of a byte string is decoded to it (`decode_encode`),
and no other text is (`decode_eq_ok_iff`).
-/

namespace SecureGroup.Base58

/-! ## Numerals -/

theorem toDigits_eq (n : Nat) : toDigits n = Nat.digits 58 n := by
  fun_induction toDigits n with
  | case1 => rw [Nat.digits_zero]
  | case2 n hn ih => rw [Nat.digits_def' (by decide) (Nat.pos_of_ne_zero hn), ih]

theorem ofDigits_eq (ds : List Nat) : ofDigits ds = Nat.ofDigits 58 ds := by
  induction ds with
  | nil => rfl
  | cons d ds ih => rw [ofDigits, ih, Nat.ofDigits_cons]

theorem toOctets_eq (n : Nat) : toOctets n = (Nat.digits 256 n).map UInt8.ofNat := by
  fun_induction toOctets n with
  | case1 => rw [Nat.digits_zero, List.map_nil]
  | case2 n hn ih =>
    rw [Nat.digits_def' (by decide) (Nat.pos_of_ne_zero hn), List.map_cons, ih]

theorem toNatBE_append (bs : Bytes) (b : UInt8) :
    Bytes.toNatBE (bs ++ [b]) = 256 * Bytes.toNatBE bs + b.toNat := by
  rw [Bytes.toNatBE, List.foldl_append]
  rfl

theorem toNatBE_eq (bs : Bytes) :
    Bytes.toNatBE bs = Nat.ofDigits 256 (bs.reverse.map UInt8.toNat) := by
  induction bs using List.reverseRecOn with
  | nil => rfl
  | append_singleton bs b ih =>
    rw [toNatBE_append, ih, List.reverse_concat, List.map_cons, Nat.ofDigits_cons, Nat.add_comm]

/-! ## Zeros at the front -/

section

variable {α : Type} [DecidableEq α] {zero : α} {l : List α}

theorem replicate_append_dropWhile (zero : α) (l : List α) :
    List.replicate (l.takeWhile (· == zero)).length zero ++ l.dropWhile (· == zero) = l := by
  have hzeros : l.takeWhile (· == zero) =
      List.replicate (l.takeWhile (· == zero)).length zero :=
    List.eq_replicate_length.2 fun a ha => by simpa using List.mem_takeWhile_imp ha
  rw [← hzeros, List.takeWhile_append_dropWhile]

def NoZeroFirst (zero : α) (l : List α) : Prop := ∀ h : l ≠ [], l.head h ≠ zero

theorem noZeroFirst_dropWhile (zero : α) (l : List α) :
    NoZeroFirst zero (l.dropWhile (· == zero)) := by
  intro h
  simpa using List.head_dropWhile_not (· == zero) h

/-- Zeros in front of something else are counted. -/
theorem takeWhile_replicate_append (h : NoZeroFirst zero l) (n : Nat) :
    (List.replicate n zero ++ l).takeWhile (· == zero) = List.replicate n zero := by
  rw [List.takeWhile_append_of_pos (by simp)]
  cases l with
  | nil => rw [List.takeWhile_nil, List.append_nil]
  | cons a l =>
    have ha : a ≠ zero := h (List.cons_ne_nil a l)
    simp [ha]

end

theorem toNatBE_replicate_append (n : Nat) (bs : Bytes) :
    Bytes.toNatBE (List.replicate n 0 ++ bs) = Bytes.toNatBE bs := by
  rw [toNatBE_eq, toNatBE_eq, List.reverse_append, List.reverse_replicate, List.map_append,
    List.map_replicate]
  exact Nat.ofDigits_append_replicate_zero _

/-- The octets of the number of a byte string are the byte string, but for zeros at the front. -/
theorem toOctets_toNatBE {bs : Bytes} (h : NoZeroFirst 0 bs) :
    toOctets (Bytes.toNatBE bs) = bs.reverse := by
  have hlast : ∀ hne : bs.reverse.map UInt8.toNat ≠ [],
      (bs.reverse.map UInt8.toNat).getLast hne ≠ 0 := by
    intro hne
    rw [List.getLast_map, List.getLast_reverse]
    exact fun hzero => h _ (UInt8.toNat_inj.1 hzero)
  have hdigits : ∀ d ∈ bs.reverse.map UInt8.toNat, d < 256 := by
    intro d hd
    obtain ⟨b, -, rfl⟩ := List.mem_map.1 hd
    exact b.toNat_lt
  have hoctet : UInt8.ofNat ∘ UInt8.toNat = id := funext fun _ => UInt8.ofNat_toNat
  rw [toOctets_eq, toNatBE_eq, Nat.digits_ofDigits 256 (by decide) _ hdigits hlast, List.map_map,
    hoctet, List.map_id]

theorem noZeroFirst_digits (n : Nat) : NoZeroFirst 0 (Nat.digits 58 n).reverse := by
  intro h
  rw [List.head_reverse]
  have hn : n ≠ 0 := by
    rintro rfl
    exact h (by rw [Nat.digits_zero, List.reverse_nil])
  exact Nat.getLast_digit_ne_zero 58 hn

theorem noZeroFirst_octets (n : Nat) : NoZeroFirst 0 (toOctets n).reverse := by
  intro h
  have hn : n ≠ 0 := by
    rintro rfl
    exact h (by rw [toOctets, if_pos rfl, List.reverse_nil])
  have hne : Nat.digits 256 n ≠ [] := Nat.digits_ne_nil_iff_ne_zero.2 hn
  have hlast : (toOctets n).reverse.head h = UInt8.ofNat ((Nat.digits 256 n).getLast hne) := by
    rw [List.head_reverse]
    simp only [toOctets_eq, List.getLast_map]
  have hlt : (Nat.digits 256 n).getLast hne < 256 :=
    Nat.digits_lt_base (by decide) (List.getLast_mem hne)
  rw [hlast, ne_eq, ← UInt8.toNat_inj, UInt8.toNat_ofNat_of_lt' hlt]
  exact Nat.getLast_digit_ne_zero 256 hn

theorem toNatBE_octets (n : Nat) : Bytes.toNatBE (toOctets n).reverse = n := by
  have hoctets : (toOctets n).map UInt8.toNat = Nat.digits 256 n := by
    rw [toOctets_eq, List.map_map]
    refine (List.map_congr_left fun d hd => ?_).trans (List.map_id _)
    exact UInt8.toNat_ofNat_of_lt' (Nat.digits_lt_base (by decide) hd)
  rw [toNatBE_eq, List.reverse_reverse, hoctets, Nat.ofDigits_digits]

theorem digits_ofDigits {ds : List Nat} (hlt : ∀ d ∈ ds, d < 58) (h : NoZeroFirst 0 ds) :
    (Nat.digits 58 (Nat.ofDigits 58 ds.reverse)).reverse = ds := by
  have hlast : ∀ hne : ds.reverse ≠ [], ds.reverse.getLast hne ≠ 0 := by
    intro hne
    rw [List.getLast_reverse]
    exact h _
  have hdigits : ∀ d ∈ ds.reverse, d < 58 := fun d hd => hlt d (List.mem_reverse.1 hd)
  rw [Nat.digits_ofDigits 58 (by decide) _ hdigits hlast, List.reverse_reverse]

/-! ## Characters -/

theorem value?_digits : ∀ d < 58, (digits[d]!).toNat < 128 ∧ value? digits[d]! = some d := by
  decide

theorem values_map_digits {ds : List Nat} (h : ∀ d ∈ ds, d < 58) (place : Nat) :
    values place (ds.map (digits[·]!)) = .ok ds := by
  induction ds generalizing place with
  | nil => rfl
  | cons d ds ih =>
    obtain ⟨hascii, hvalue⟩ := value?_digits d (h d List.mem_cons_self)
    have hrest := ih (fun c hc => h c (List.mem_cons_of_mem d hc)) (place + 1)
    rw [List.map_cons, values, if_neg (Nat.not_le.2 hascii), hvalue]
    dsimp only
    rw [hrest]
    rfl

theorem alphabet_eq : alphabet = (List.range 58).map (digits[·]!) := by
  decide

/-- Every digit has a value, and stands at its place. -/
theorem exists_digit {c : Char} (hc : c ∈ alphabet) : ∃ d < 58, digits[d]! = c := by
  rw [alphabet_eq] at hc
  obtain ⟨d, hd, hdigit⟩ := List.mem_map.1 hc
  exact ⟨d, List.mem_range.1 hd, hdigit⟩

theorem value?_eq_none_iff {c : Char} : value? c = none ↔ c ∉ alphabet := by
  rw [value?, List.idxOf?_eq_none_iff]

/-- What is read from characters are the digits that they write. -/
theorem eq_map_of_values {cs : List Char} {ds : List Nat} {place : Nat}
    (h : values place cs = .ok ds) : (∀ d ∈ ds, d < 58) ∧ cs = ds.map (digits[·]!) := by
  induction cs generalizing ds place with
  | nil =>
    cases h
    exact ⟨List.forall_mem_nil _, rfl⟩
  | cons c cs ih =>
    rw [values] at h
    split at h
    · cases h
    · split at h
      · cases h
      · next v hv =>
        cases hrest : values (place + 1) cs with
        | error fault =>
          rw [hrest] at h
          cases h
        | ok rest =>
          rw [hrest] at h
          cases h
          have hc : c ∈ alphabet := by
            by_contra hc
            rw [value?_eq_none_iff.2 hc] at hv
            cases hv
          obtain ⟨d, hd, rfl⟩ := exists_digit hc
          obtain rfl : d = v := Option.some.inj ((value?_digits d hd).2.symm.trans hv)
          obtain ⟨hlt, hcs⟩ := ih hrest
          refine ⟨?_, ?_⟩
          · intro e he
            rcases List.mem_cons.1 he with rfl | he
            · exact hd
            · exact hlt e he
          · rw [List.map_cons, ← hcs]

theorem values_of_not_mem {cs : List Char} {c : Char} (hc : c ∈ cs) (hnot : c ∉ alphabet)
    (place : Nat) : ∃ fault, values place cs = .error fault := by
  cases hvalues : values place cs with
  | error fault => exact ⟨fault, rfl⟩
  | ok ds =>
    obtain ⟨hlt, hcs⟩ := eq_map_of_values hvalues
    rw [hcs] at hc
    obtain ⟨d, hd, rfl⟩ := List.mem_map.1 hc
    exact absurd (value?_eq_none_iff.2 hnot) (by simp [(value?_digits d (hlt d hd)).2])

/-! ## Main statements -/

theorem decode_encode (bs : Bytes) : decode (encode bs) = .ok bs := by
  obtain ⟨zeros, hzeros⟩ : ∃ zeros, (bs.takeWhile (· == 0)).length = zeros := ⟨_, rfl⟩
  obtain ⟨rest, hrest⟩ : ∃ rest, bs.dropWhile (· == 0) = rest := ⟨_, rfl⟩
  have hbs := replicate_append_dropWhile 0 bs
  rw [hzeros, hrest] at hbs
  have hfirst : NoZeroFirst 0 rest := hrest ▸ noZeroFirst_dropWhile 0 bs
  have hvalue : Bytes.toNatBE bs = Bytes.toNatBE rest := by
    rw [← hbs, toNatBE_replicate_append]
  -- the text is the characters of these digits
  obtain ⟨ds, hds⟩ : ∃ ds, (Nat.digits 58 (Bytes.toNatBE bs)).reverse = ds := ⟨_, rfl⟩
  have htext : (encode bs).toList = (List.replicate zeros 0 ++ ds).map (digits[·]!) := by
    rw [encode, String.toList_ofList, hzeros, toDigits_eq, hds, List.map_append,
      List.map_replicate]
    rfl
  have hlt : ∀ d ∈ List.replicate zeros 0 ++ ds, d < 58 := by
    intro d hd
    rcases List.mem_append.1 hd with hd | hd
    · rw [List.eq_of_mem_replicate hd]
      decide
    · rw [← hds, List.mem_reverse] at hd
      exact Nat.digits_lt_base (by decide) hd
  have hcount : ((List.replicate zeros 0 ++ ds).takeWhile (· == 0)).length = zeros := by
    rw [takeWhile_replicate_append (hds ▸ noZeroFirst_digits _), List.length_replicate]
  have hnumber : ofDigits (List.replicate zeros 0 ++ ds).reverse = Bytes.toNatBE rest := by
    rw [List.reverse_append, List.reverse_replicate, ← hds, List.reverse_reverse, ofDigits_eq,
      Nat.ofDigits_append_replicate_zero, Nat.ofDigits_digits, hvalue]
  rw [decode, htext, values_map_digits hlt]
  dsimp only [Except.map]
  rw [hcount, hnumber, toOctets_toNatBE hfirst, List.reverse_reverse, hbs]

theorem encode_of_decode {s : String} {bs : Bytes} (h : decode s = .ok bs) : encode bs = s := by
  cases hvalues : values 0 s.toList with
  | error fault =>
    rw [decode, hvalues] at h
    cases h
  | ok ds =>
    rw [decode, hvalues] at h
    cases h
    obtain ⟨hlt, hs⟩ := eq_map_of_values hvalues
    obtain ⟨zeros, hzeros⟩ : ∃ zeros, (ds.takeWhile (· == 0)).length = zeros := ⟨_, rfl⟩
    obtain ⟨rest, hrest⟩ : ∃ rest, ds.dropWhile (· == 0) = rest := ⟨_, rfl⟩
    have hds := replicate_append_dropWhile 0 ds
    rw [hzeros, hrest] at hds
    have hfirst : NoZeroFirst 0 rest := hrest ▸ noZeroFirst_dropWhile 0 ds
    have hrestlt : ∀ d ∈ rest, d < 58 := fun d hd =>
      hlt d (hds ▸ List.mem_append_right _ hd)
    have hnumber : ofDigits ds.reverse = Nat.ofDigits 58 rest.reverse := by
      rw [← hds, List.reverse_append, List.reverse_replicate, ofDigits_eq,
        Nat.ofDigits_append_replicate_zero]
    refine String.toList_inj.1 ?_
    dsimp only
    rw [hzeros, encode, String.toList_ofList, takeWhile_replicate_append (noZeroFirst_octets _),
      List.length_replicate, toNatBE_replicate_append, toNatBE_octets, toDigits_eq, hnumber,
      digits_ofDigits hrestlt hfirst, hs, ← hds, List.map_append, List.map_replicate]
    rfl

/-- Zeros in front of a byte string are written as so many digits for zero. -/
theorem encode_replicate_append (n : Nat) (bs : Bytes) :
    encode (List.replicate n 0 ++ bs) = String.ofList (List.replicate n '1') ++ encode bs := by
  have hcount : ((List.replicate n 0 ++ bs).takeWhile (· == 0)).length =
      n + (bs.takeWhile (· == 0)).length := by
    rw [List.takeWhile_append_of_pos (by simp), List.length_append, List.length_replicate]
  rw [encode, encode, hcount, toNatBE_replicate_append, ← String.ofList_append,
    List.replicate_add, List.append_assoc]

theorem decode_eq_ok_iff {s : String} {bs : Bytes} : decode s = .ok bs ↔ s = encode bs := by
  constructor
  · intro h
    exact (encode_of_decode h).symm
  · rintro rfl
    exact decode_encode bs

end SecureGroup.Base58
