import Mathlib.Data.List.Basic
import Mathlib.Data.List.TakeDrop
import SecureGroup.Json.Parser
import SecureGroup.Json.Printer

/-!
# JSON text reads back

A value without floating-point numbers is read from its compact text as it was, whatever follows the
text in the container around it (`Exact.reads`), and so a whole text is parsed as the value that it
was written from (`parse_render`).  Objects are read with their fields sorted by name; `Exact` says
that a value has them so, and `ofFields_spec` that every object made of fields does.

No text of a value holds a control (`Exact.oneLine`): texts escape theirs, and nothing else writes
any.
-/

namespace SecureGroup.Json

/-! ## Texts -/

theorem hexDigitValue?_hexDigit : ∀ n < 16, hexDigitValue? (hexDigit n) = some n := by
  decide

theorem numbered?_control {c : Char} (h : c.toNat < 32) (rest : List Char) :
    numbered? ('0' :: '0' :: hexDigit (c.toNat / 16) :: hexDigit (c.toNat % 16) :: rest) =
      some (c, rest) := by
  have hzero : hexDigitValue? '0' = some 0 := by decide
  have hhigh := hexDigitValue?_hexDigit (c.toNat / 16) (by omega)
  have hlow := hexDigitValue?_hexDigit (c.toNat % 16) (by omega)
  have hsum : 4096 * 0 + 256 * 0 + 16 * (c.toNat / 16) + c.toNat % 16 = c.toNat := by omega
  have hunit : unit? ('0' :: '0' :: hexDigit (c.toNat / 16) :: hexDigit (c.toNat % 16) :: rest) =
      some (c.toNat, rest) := by
    simp only [unit?, hzero, hhigh, hlow, hsum, Option.bind_eq_bind, Option.bind_some,
      Option.pure_def]
  rw [numbered?, hunit]
  simp only [Option.bind_eq_bind, Option.bind_some]
  rw [if_neg (by omega), if_neg (by omega), Char.ofNat_toNat]
  rfl

theorem textBody?_shortForm {e d : Char} (h : shortForm? e = some d) (fuel : Nat)
    (rest : List Char) : textBody? (fuel + 1) ('\\' :: e :: rest) =
      (textBody? fuel rest).map fun found => (d :: found.1, found.2) := by
  have hne : e ≠ 'u' := by
    rintro rfl
    cases h
  rw [textBody?.eq_def]
  simp only [Char.reduceEq, if_false, if_true, Char.reduceToNat, Nat.reduceLT, h]
  cases textBody? fuel rest <;> rfl

theorem textBody?_numbered {cs rest : List Char} {d : Char} (h : numbered? cs = some (d, rest))
    (fuel : Nat) : textBody? (fuel + 1) ('\\' :: 'u' :: cs) =
      (textBody? fuel rest).map fun found => (d :: found.1, found.2) := by
  rw [textBody?.eq_def]
  simp only [Char.reduceEq, if_false, if_true, Char.reduceToNat, Nat.reduceLT, h,
    Option.bind_eq_bind, Option.bind_some]
  cases textBody? fuel rest <;> rfl

theorem textBody?_plain {c : Char} (hquote : c ≠ '"') (hslash : c ≠ '\\') (hplain : 32 ≤ c.toNat)
    (fuel : Nat) (rest : List Char) : textBody? (fuel + 1) (c :: rest) =
      (textBody? fuel rest).map fun found => (c :: found.1, found.2) := by
  rw [textBody?.eq_def]
  simp only [if_neg hquote, if_neg hslash, if_neg (Nat.not_lt.2 hplain)]
  cases textBody? fuel rest <;> rfl

/-- A character inside a text is read as it was written, whatever follows. -/
theorem textBody?_escape (c : Char) (fuel : Nat) (rest : List Char) :
    textBody? (fuel + 1) (escape c ++ rest) =
      (textBody? fuel rest).map fun found => (c :: found.1, found.2) := by
  have hnumber : ∀ n, c.toNat = n → c = Char.ofNat n := fun n h => by rw [← h, Char.ofNat_toNat]
  unfold escape
  split
  · next h => subst h; exact textBody?_shortForm rfl fuel rest
  split
  · next h => subst h; exact textBody?_shortForm rfl fuel rest
  split
  · next h => subst h; exact textBody?_shortForm rfl fuel rest
  split
  · next h => subst h; exact textBody?_shortForm rfl fuel rest
  split
  · next h => subst h; exact textBody?_shortForm rfl fuel rest
  split
  · next h => exact hnumber _ h ▸ textBody?_shortForm rfl fuel rest
  split
  · next h => exact hnumber _ h ▸ textBody?_shortForm rfl fuel rest
  split
  · next h => exact textBody?_numbered (numbered?_control h rest) fuel
  · next hquote hslash _ _ _ _ _ hcontrol =>
    exact textBody?_plain hquote hslash (Nat.not_lt.1 hcontrol) fuel rest

/-- The characters of a text are read up to its quotation mark. -/
theorem textBody?_flatMap {cs : List Char} {fuel : Nat} (h : cs.length < fuel) (rest : List Char) :
    textBody? fuel (cs.flatMap escape ++ '"' :: rest) = some (cs, rest) := by
  induction cs generalizing fuel with
  | nil =>
    obtain ⟨fuel, rfl⟩ := Nat.exists_eq_add_of_lt h
    rfl
  | cons c cs ih =>
    obtain ⟨fuel, rfl⟩ := Nat.exists_eq_succ_of_ne_zero (Nat.ne_zero_of_lt h)
    rw [List.flatMap_cons, List.append_assoc, textBody?_escape, ih (Nat.lt_of_succ_lt_succ h)]
    rfl

theorem escape_ne_nil (c : Char) : escape c ≠ [] := by
  unfold escape
  repeat' split
  all_goals exact List.cons_ne_nil _ _

theorem length_le_length_flatMap (cs : List Char) : cs.length ≤ (cs.flatMap escape).length := by
  induction cs with
  | nil => exact Nat.le_refl 0
  | cons c cs ih =>
    have hpos := List.length_pos_iff.2 (escape_ne_nil c)
    rw [List.flatMap_cons, List.length_append, List.length_cons]
    omega

theorem text?_quoted (s : String) (rest : List Char) :
    text? (quoted s ++ rest) = some (s, rest) := by
  have hlength := length_le_length_flatMap s.toList
  have hroom : s.toList.length < (s.toList.flatMap escape ++ '"' :: rest).length + 1 := by
    rw [List.length_append]
    omega
  have hbody := textBody?_flatMap hroom rest
  have htext : quoted s ++ rest = '"' :: (s.toList.flatMap escape ++ '"' :: rest) := by
    simp [quoted]
  rw [htext, text?, hbody, Option.map_some]
  dsimp only
  rw [String.ofList_toList]

/-! ## Numbers -/

/-- What may come after a value: the end, or what goes on or ends the container around it. -/
def Stops (rest : List Char) : Prop := ∀ c ∈ rest.head?, c = ',' ∨ c = ']' ∨ c = '\x7d'

theorem stops_nil : Stops [] := by
  intro c hc
  cases hc

theorem stops_cons {c : Char} (h : c = ',' ∨ c = ']' ∨ c = '\x7d') (rest : List Char) :
    Stops (c :: rest) := by
  intro d hd
  rw [List.head?_cons, Option.mem_some_iff] at hd
  rw [← hd]
  exact h

/-- Digits are taken up to what may come after a value. -/
theorem span_digits {ds rest : List Char} (hds : ∀ c ∈ ds, isDigit c = true) (hrest : Stops rest) :
    (ds ++ rest).span isDigit = (ds, rest) := by
  have hnone : rest.takeWhile isDigit = [] ∧ rest.dropWhile isDigit = rest := by
    cases rest with
    | nil => exact ⟨rfl, rfl⟩
    | cons c rest =>
      have hc : ¬ isDigit c = true := by
        rcases hrest c rfl with rfl | rfl | rfl <;> decide
      exact ⟨List.takeWhile_cons_of_neg hc, List.dropWhile_cons_of_neg hc⟩
  rw [List.span_eq_takeWhile_dropWhile, List.takeWhile_append_of_pos hds,
    List.dropWhile_append_of_pos hds, hnone.1, hnone.2, List.append_nil]

/-- A significand takes all digits of a number that fits. -/
theorem absorb_eq {significand taken : Nat} {ds : List Char}
    (h : Nat.ofDigitChars 10 ds significand ≤ maxSignificand) :
    absorb significand taken ds = (Nat.ofDigitChars 10 ds significand, taken + ds.length) := by
  induction ds generalizing significand taken with
  | nil => rfl
  | cons d ds ih =>
    have hnext : Nat.ofDigitChars 10 (d :: ds) significand =
        Nat.ofDigitChars 10 ds (10 * significand + digitValue d) := Nat.ofDigitChars_cons
    rw [hnext] at h
    -- digits that follow only make the number larger
    have hgrows : 10 * significand + digitValue d ≤
        Nat.ofDigitChars 10 ds (10 * significand + digitValue d) := by
      have hpos : 0 < 10 ^ ds.length := Nat.pow_pos (by decide)
      have hmul := Nat.le_mul_of_pos_left (10 * significand + digitValue d) hpos
      rw [Nat.ofDigitChars_eq_ofDigitChars_zero]
      omega
    rw [hnext, List.length_cons, absorb, if_pos (Nat.le_trans hgrows h), ih h,
      Nat.add_right_comm, Nat.add_assoc]

theorem isDigit_of_mem_toDigits {n : Nat} : ∀ c ∈ Nat.toDigits 10 n, isDigit c = true :=
  fun _ hc => Nat.isDigit_of_mem_toDigits (by decide) (by decide) hc

theorem exists_toDigits_eq (n : Nat) :
    ∃ d ds, Nat.toDigits 10 n = d :: ds ∧ isDigit d = true := by
  obtain ⟨d, ds, hds⟩ := List.exists_cons_of_ne_nil (Nat.toDigits_ne_nil (n := n) (b := 10))
  exact ⟨d, ds, hds, isDigit_of_mem_toDigits d (by rw [hds]; exact List.mem_cons_self)⟩

/-- Only zero is written with a zero in front. -/
theorem eq_zero_of_head?_toDigits {n : Nat} (h : (Nat.toDigits 10 n).head? = some '0') :
    n = 0 := by
  induction n using Nat.strongRecOn with
  | ind n ih =>
    by_cases hn : n < 10
    · rw [Nat.toDigits_of_lt_base hn, List.head?_cons, Option.some.injEq] at h
      exact Nat.digitChar_eq_zero.1 h
    · rw [Nat.toDigits_of_base_le (by decide) (Nat.not_lt.1 hn),
        List.head?_append_of_ne_nil _ Nat.toDigits_ne_nil] at h
      have hzero := ih (n / 10) (by omega) h
      omega

/-- The digits of a number that fits are read as that number. -/
theorem unsigned?_toDigits {n : Nat} (hn : n ≤ maxSignificand) (negative : Bool)
    {rest : List Char} (hrest : Stops rest) :
    unsigned? negative (Nat.toDigits 10 n ++ rest) = unsigned?.whole negative n 0 rest := by
  have hplain : ¬ ((Nat.toDigits 10 n).isEmpty = true ∨
      ((Nat.toDigits 10 n).head? = some '0' ∧ 1 < (Nat.toDigits 10 n).length)) := by
    rintro (hempty | ⟨hhead, hlong⟩)
    · exact Nat.toDigits_ne_nil (List.isEmpty_iff.1 hempty)
    · rw [eq_zero_of_head?_toDigits hhead] at hlong
      exact absurd hlong (by decide)
  have habsorb : absorb 0 0 (Nat.toDigits 10 n) = (n, (Nat.toDigits 10 n).length) := by
    have hvalue : Nat.ofDigitChars 10 (Nat.toDigits 10 n) 0 = n := Nat.ofDigitChars_ten_toDigits
    rw [absorb_eq (by rw [hvalue]; exact hn), hvalue, Nat.zero_add]
  have hshift : ((Nat.toDigits 10 n).length : Int) - (Nat.toDigits 10 n).length = 0 := by omega
  rw [unsigned?, span_digits isDigit_of_mem_toDigits hrest]
  simp only [if_neg hplain, habsorb, hshift]
  cases rest with
  | nil => rfl
  | cons c rest =>
    obtain rfl | rfl | rfl := hrest c rfl
    · rfl
    · rfl
    · rfl

/-- An integer of 64 bits, with a sign or without one. -/
def Fits (n : Int) : Prop := -0x8000000000000000 ≤ n ∧ n < 0x10000000000000000

theorem number?_intChars {n : Int} (hn : Fits n) {rest : List Char} (hrest : Stops rest) :
    number? (intChars n ++ rest) = some (.integer n, rest) := by
  obtain ⟨hlow, hhigh⟩ := hn
  have hmax : maxSignificand = 0xffffffffffffffff := rfl
  unfold intChars
  by_cases hneg : n < 0
  · rw [if_pos hneg, List.cons_append, number?, unsigned?_toDigits (by omega) true hrest,
      unsigned?.whole]
    rw [if_neg (by omega), if_neg (by decide), if_pos (by omega)]
    have hvalue : -(n.natAbs : Int) = n := by omega
    rw [hvalue]
  · rw [if_neg hneg]
    have hsign : ∀ cs, Nat.toDigits 10 n.natAbs ++ rest ≠ '-' :: cs := by
      intro cs hcs
      obtain ⟨d, ds, hds, hdigit⟩ := exists_toDigits_eq n.natAbs
      rw [hds, List.cons_append, List.cons.injEq] at hcs
      rw [hcs.1] at hdigit
      exact absurd hdigit (by decide)
    rw [number?.eq_def]
    split
    · next cs hcs => exact absurd hcs (hsign cs)
    · rw [unsigned?_toDigits (by omega) false hrest, unsigned?.whole]
      rw [if_neg (by omega), if_pos (by decide)]
      have hvalue : (n.natAbs : Int) = n := by omega
      rw [hvalue]

/-! ## Objects -/

/-- The fields of an object stand in the order of their names, each name once. -/
def Sorted (fields : List (String × Json)) : Prop := fields.Pairwise fun a b => a.1 < b.1

theorem insert_of_last {name : String} {value : Json} {fields : List (String × Json)}
    (h : ∀ f ∈ fields, f.1 < name) : insert name value fields = fields ++ [(name, value)] := by
  induction fields with
  | nil => rfl
  | cons f fields ih =>
    have hf := h f List.mem_cons_self
    rw [insert, if_neg (String.lt_asymm hf), if_pos hf,
      ih fun g hg => h g (List.mem_cons_of_mem f hg), List.cons_append]

theorem foldl_insert_eq {front fields : List (String × Json)} (h : Sorted (front ++ fields)) :
    fields.foldl (fun acc f => insert f.1 f.2 acc) front = front ++ fields := by
  induction fields generalizing front with
  | nil => exact (List.append_nil front).symm
  | cons f fields ih =>
    have hlast : ∀ g ∈ front, g.1 < f.1 := fun g hg =>
      (List.pairwise_append.1 h).2.2 g hg f List.mem_cons_self
    have happend : front ++ f :: fields = front ++ [f] ++ fields := by
      rw [List.append_assoc, List.singleton_append]
    rw [happend] at h ⊢
    rw [List.foldl_cons, insert_of_last hlast]
    exact ih h

theorem ofFields_eq {fields : List (String × Json)} (h : Sorted fields) :
    ofFields fields = object fields :=
  congrArg object (@foldl_insert_eq [] fields h)

/-- Names that are not apart are the same. -/
theorem eq_of_not_lt {m n : String} (h : ¬ m < n) (h' : ¬ n < m) : m = n :=
  String.le_antisymm (String.not_lt.1 h') (String.not_lt.1 h)

theorem lookup_cons_eq_ite (name : String) (value : Json) (fields : List (String × Json))
    (n : String) : ((name, value) :: fields).lookup n =
      if n = name then some value else fields.lookup n := by
  rw [List.lookup_cons]
  by_cases h : n = name
  · rw [if_pos h, beq_iff_eq.2 h]
  · rw [if_neg h, beq_eq_false_iff_ne.2 h]

theorem lookup_insert (name : String) (value : Json) (fields : List (String × Json)) (n : String) :
    (insert name value fields).lookup n = if n = name then some value else fields.lookup n := by
  induction fields with
  | nil => exact lookup_cons_eq_ite name value [] n
  | cons f fields ih =>
    obtain ⟨m, v⟩ := f
    rw [insert]
    split
    · exact lookup_cons_eq_ite name value _ n
    · next hbefore =>
      split
      · next hafter =>
        have hne : m ≠ name := by
          rintro rfl
          exact String.lt_irrefl m hafter
        rw [lookup_cons_eq_ite, lookup_cons_eq_ite, ih]
        by_cases hm : n = m
        · rw [if_pos hm, if_pos hm, if_neg (by rw [hm]; exact hne)]
        · rw [if_neg hm, if_neg hm]
      · next hafter =>
        rw [eq_of_not_lt hbefore hafter, lookup_cons_eq_ite, lookup_cons_eq_ite]
        by_cases hm : n = m
        · rw [if_pos hm, if_pos hm]
        · rw [if_neg hm, if_neg hm, if_neg hm]

theorem mem_of_mem_insert {name : String} {value : Json} {fields : List (String × Json)}
    {f : String × Json} (h : f ∈ insert name value fields) : f = (name, value) ∨ f ∈ fields := by
  induction fields with
  | nil => exact Or.inl (List.mem_singleton.1 h)
  | cons g fields ih =>
    rw [insert] at h
    split at h
    · exact List.mem_cons.1 h
    · split at h
      · obtain rfl | h := List.mem_cons.1 h
        · exact Or.inr List.mem_cons_self
        · exact (ih h).imp_right (List.mem_cons_of_mem g)
      · exact (List.mem_cons.1 h).imp_right (List.mem_cons_of_mem g)

theorem sorted_insert (name : String) (value : Json) {fields : List (String × Json)}
    (h : Sorted fields) : Sorted (insert name value fields) := by
  induction fields with
  | nil => exact List.pairwise_singleton _ _
  | cons g fields ih =>
    obtain ⟨hg, hfields⟩ := List.pairwise_cons.1 h
    rw [insert]
    split
    · next hbefore =>
      refine List.pairwise_cons.2 ⟨fun f hf => ?_, h⟩
      obtain rfl | hf := List.mem_cons.1 hf
      · exact hbefore
      · exact String.lt_trans hbefore (hg f hf)
    · next hbefore =>
      split
      · next hafter =>
        refine List.pairwise_cons.2 ⟨fun f hf => ?_, ih hfields⟩
        obtain rfl | hf := mem_of_mem_insert hf
        · exact hafter
        · exact hg f hf
      · next hafter =>
        refine List.pairwise_cons.2 ⟨fun f hf => ?_, hfields⟩
        rw [eq_of_not_lt hbefore hafter]
        exact hg f hf

theorem foldl_insert_spec (fields : List (String × Json)) {front : List (String × Json)}
    (hfront : Sorted front) :
    let kept := fields.foldl (fun acc f => insert f.1 f.2 acc) front
    Sorted kept ∧ (∀ f ∈ kept, f ∈ fields ∨ f ∈ front) ∧
      ∀ name, kept.lookup name = (fields.reverse.lookup name).or (front.lookup name) := by
  induction fields generalizing front with
  | nil => exact ⟨hfront, fun f hf => Or.inr hf, fun name => rfl⟩
  | cons g fields ih =>
    obtain ⟨hsorted, hmem, hlookup⟩ := ih (sorted_insert g.1 g.2 hfront)
    refine ⟨hsorted, fun f hf => ?_, fun name => ?_⟩
    · obtain hf | hf := hmem f hf
      · exact Or.inl (List.mem_cons_of_mem g hf)
      · obtain rfl | hf := mem_of_mem_insert hf
        · exact Or.inl List.mem_cons_self
        · exact Or.inr hf
    · rw [List.foldl_cons, hlookup, lookup_insert, List.reverse_cons, List.lookup_append,
        Option.or_assoc, lookup_cons_eq_ite]
      by_cases h : name = g.1
      · rw [if_pos h, if_pos h, Option.some_or]
      · rw [if_neg h, if_neg h, List.lookup_nil, Option.none_or]

/-- What an object holds that is made of some fields: the fields are sorted, each is one of those
given, and the last one of a name counts. -/
theorem ofFields_spec (fields : List (String × Json)) :
    ∃ kept, ofFields fields = object kept ∧ Sorted kept ∧ (∀ f ∈ kept, f ∈ fields) ∧
      ∀ name, kept.lookup name = fields.reverse.lookup name := by
  obtain ⟨hsorted, hmem, hlookup⟩ := foldl_insert_spec fields List.Pairwise.nil
  refine ⟨_, rfl, hsorted, fun f hf => ?_, fun name => ?_⟩
  · exact (hmem f hf).resolve_right List.not_mem_nil
  · exact (hlookup name).trans Option.or_none

/-- A name before all names of some fields is not among them. -/
theorem lookup_eq_none_of_lt {name : String} {fields : List (String × Json)}
    (h : ∀ f ∈ fields, name < f.1) : fields.lookup name = none := by
  refine List.lookup_eq_none_iff.2 fun f hf => bne_iff_ne.2 ?_
  rintro rfl
  exact String.lt_irrefl f.1 (h f hf)

/-- Sorted fields are determined by what is found under each name. -/
theorem Sorted.eq_of_lookup {xs ys : List (String × Json)} (hx : Sorted xs) (hy : Sorted ys)
    (h : ∀ name, xs.lookup name = ys.lookup name) : xs = ys := by
  induction xs generalizing ys with
  | nil =>
    cases ys with
    | nil => rfl
    | cons g ys =>
      have hg := h g.1
      rw [lookup_cons_eq_ite g.1 g.2, if_pos rfl] at hg
      cases hg
  | cons f xs ih =>
    cases ys with
    | nil =>
      have hf := h f.1
      rw [lookup_cons_eq_ite f.1 f.2, if_pos rfl] at hf
      cases hf
    | cons g ys =>
      obtain ⟨hfirstx, hrestx⟩ := List.pairwise_cons.1 hx
      obtain ⟨hfirsty, hresty⟩ := List.pairwise_cons.1 hy
      have hif : ∀ name, (if name = f.1 then some f.2 else xs.lookup name) =
          if name = g.1 then some g.2 else ys.lookup name := fun name => by
        rw [← lookup_cons_eq_ite f.1 f.2, ← lookup_cons_eq_ite g.1 g.2]
        exact h name
      -- the least name of either side has no value on the other, unless it is the least there too
      have hname : f.1 = g.1 := by
        refine eq_of_not_lt (fun hlt => ?_) fun hlt => ?_
        · have hf := hif f.1
          rw [if_pos rfl, if_neg (String.ne_of_lt hlt), lookup_eq_none_of_lt fun u hu =>
            String.lt_trans hlt (hfirsty u hu)] at hf
          cases hf
        · have hg := hif g.1
          rw [if_pos rfl, if_neg (String.ne_of_lt hlt), lookup_eq_none_of_lt fun u hu =>
            String.lt_trans hlt (hfirstx u hu)] at hg
          cases hg
      have hvalue : f.2 = g.2 := by
        have hf := hif f.1
        rw [if_pos rfl, if_pos hname] at hf
        exact Option.some.inj hf
      have hrest : xs = ys := by
        refine ih hrestx hresty fun name => ?_
        by_cases hhead : name = f.1
        · rw [hhead, lookup_eq_none_of_lt hfirstx, hname, lookup_eq_none_of_lt hfirsty]
        · have htail := hif name
          rwa [if_neg hhead, if_neg (hname ▸ hhead)] at htail
      rw [Prod.ext hname hvalue, hrest]

/-! ## Values -/

/-- A value that text keeps: no floating-point number in it, at most `depth` containers deep, and
with what any value holds of itself, that its integers have 64 bits and its fields are sorted. -/
inductive Exact : Nat → Json → Prop where
  | null {depth : Nat} : Exact depth null
  | bool {depth : Nat} (b : Bool) : Exact depth (bool b)
  | int {depth : Nat} {n : Int} (h : Fits n) : Exact depth (int n)
  | string {depth : Nat} (s : String) : Exact depth (string s)
  | array {depth : Nat} {items : List Json} (h : ∀ v ∈ items, Exact depth v) :
    Exact (depth + 1) (array items)
  | object {depth : Nat} {fields : List (String × Json)} (hsorted : Sorted fields)
    (h : ∀ f ∈ fields, Exact depth f.2) : Exact (depth + 1) (object fields)

/-- A text that starts with neither a blank nor the end of a container. -/
def Begins (cs : List Char) : Prop :=
  ∃ c rest, cs = c :: rest ∧ isSpace c = false ∧ c ≠ ']' ∧ c ≠ '\x7d'

theorem Begins.append {cs : List Char} (h : Begins cs) (rest : List Char) :
    Begins (cs ++ rest) := by
  obtain ⟨c, tail, rfl, hc⟩ := h
  exact ⟨c, tail ++ rest, rfl, hc⟩

theorem skipSpace_cons {c : Char} (hc : isSpace c = false) (cs : List Char) :
    skipSpace (c :: cs) = c :: cs :=
  List.dropWhile_cons_of_neg (by rw [hc]; decide)

theorem Begins.skipSpace_eq {cs : List Char} (h : Begins cs) : skipSpace cs = cs := by
  obtain ⟨c, tail, rfl, hc, -⟩ := h
  exact skipSpace_cons hc tail

theorem begins_quoted (s : String) : Begins (quoted s) :=
  ⟨'"', s.toList.flatMap escape ++ ['"'], rfl, by decide, by decide, by decide⟩

/-- The name of a field is read up to its colon. -/
theorem text?_skipSpace_quoted (name : String) (rest : List Char) :
    text? (skipSpace (quoted name ++ rest)) = some (name, rest) := by
  rw [((begins_quoted name).append rest).skipSpace_eq, text?_quoted]

/-- An integer starts with its sign or with a digit. -/
theorem exists_intChars_eq (n : Int) :
    ∃ c rest, intChars n = c :: rest ∧ (c = '-' ∨ isDigit c = true) := by
  obtain ⟨d, ds, hds, hdigit⟩ := exists_toDigits_eq n.natAbs
  unfold intChars
  split
  · exact ⟨'-', Nat.toDigits 10 n.natAbs, rfl, Or.inl rfl⟩
  · exact ⟨d, ds, hds, Or.inr hdigit⟩

/-- A character that starts an integer starts nothing else. -/
theorem ne_of_starts {c d : Char} (hc : c = '-' ∨ isDigit c = true)
    (hd : d ≠ '-' ∧ isDigit d = false) : c ≠ d := by
  rintro rfl
  obtain hc | hc := hc
  · exact hd.1 hc
  · rw [hc] at hd
    exact absurd hd.2 (by decide)

theorem begins_intChars (n : Int) : Begins (intChars n) := by
  obtain ⟨c, rest, heq, hc⟩ := exists_intChars_eq n
  have hspace : isSpace c = false := by
    have h1 := ne_of_starts hc (d := ' ') (by decide)
    have h2 := ne_of_starts hc (d := '\n') (by decide)
    have h3 := ne_of_starts hc (d := '\t') (by decide)
    have h4 := ne_of_starts hc (d := '\r') (by decide)
    simp only [isSpace, beq_eq_false_iff_ne.2 h1, beq_eq_false_iff_ne.2 h2,
      beq_eq_false_iff_ne.2 h3, beq_eq_false_iff_ne.2 h4, Bool.or_false]
  exact ⟨c, rest, heq, hspace, ne_of_starts hc (by decide), ne_of_starts hc (by decide)⟩

theorem chars_array (items : List Json) :
    chars (array items) = '[' :: (itemChars items ++ [']']) := by
  rw [chars, List.cons_append]

theorem chars_object (fields : List (String × Json)) :
    chars (object fields) = '\x7b' :: (fieldChars fields ++ ['\x7d']) := by
  rw [chars, List.cons_append]

theorem Exact.begins {depth : Nat} {v : Json} (h : Exact depth v) : Begins (chars v) := by
  cases h with
  | null => exact ⟨'n', ['u', 'l', 'l'], rfl, by decide⟩
  | bool b =>
    cases b with
    | false => exact ⟨'f', ['a', 'l', 's', 'e'], rfl, by decide⟩
    | true => exact ⟨'t', ['r', 'u', 'e'], rfl, by decide⟩
  | int _ => exact begins_intChars _
  | string s => exact begins_quoted s
  | array _ => exact ⟨'[', _, chars_array _, by decide⟩
  | object _ _ => exact ⟨'\x7b', _, chars_object _, by decide⟩

theorem itemChars_cons_cons (v w : Json) (items : List Json) :
    itemChars (v :: w :: items) = chars v ++ ',' :: itemChars (w :: items) :=
  itemChars.eq_3 v (w :: items) (List.cons_ne_nil w items)

theorem fieldChars_singleton (f : String × Json) :
    fieldChars [f] = quoted f.1 ++ ':' :: chars f.2 :=
  fieldChars.eq_2 f.1 f.2

theorem fieldChars_cons_cons (f g : String × Json) (fields : List (String × Json)) :
    fieldChars (f :: g :: fields) =
      quoted f.1 ++ ':' :: chars f.2 ++ ',' :: fieldChars (g :: fields) :=
  fieldChars.eq_3 f.1 f.2 (g :: fields) (List.cons_ne_nil g fields)

/-- The text of a value is read as that value, whatever follows it. -/
def Reads (depth : Nat) (v : Json) : Prop :=
  ∀ (fuel : Nat) (rest : List Char), 2 * (chars v).length ≤ fuel → Stops rest →
    value? fuel depth (chars v ++ rest) = some (v, rest)

theorem items?_itemChars {depth : Nat} {items : List Json} (hne : items ≠ [])
    (hread : ∀ v ∈ items, Reads depth v) {fuel : Nat}
    (hfuel : 2 * (itemChars items).length < fuel) (rest : List Char) :
    items? fuel depth (itemChars items ++ ']' :: rest) = some (items, rest) := by
  induction items generalizing fuel with
  | nil => exact absurd rfl hne
  | cons v items ih =>
    obtain ⟨fuel, rfl⟩ := Nat.exists_eq_succ_of_ne_zero (Nat.ne_zero_of_lt hfuel)
    have hv := hread v List.mem_cons_self fuel
    cases items with
    | nil =>
      rw [itemChars] at hfuel ⊢
      rw [items?, hv (']' :: rest) (by omega) (stops_cons (by decide) rest)]
      rfl
    | cons w items =>
      rw [itemChars_cons_cons, List.length_append, List.length_cons] at hfuel
      have hroom : 2 * (itemChars (w :: items)).length < fuel := by omega
      have hitems := ih (List.cons_ne_nil w items)
        (fun u hu => hread u (List.mem_cons_of_mem v hu)) hroom
      have hcomma := skipSpace_cons (c := ',') (by decide) (itemChars (w :: items) ++ ']' :: rest)
      rw [itemChars_cons_cons, List.append_assoc, List.cons_append, items?,
        hv _ (by omega) (stops_cons (by decide) _)]
      simp only [Option.bind_eq_bind, Option.bind_some, hcomma, hitems, Option.pure_def]

theorem fields?_fieldChars {depth : Nat} {fields : List (String × Json)} (hne : fields ≠ [])
    (hread : ∀ f ∈ fields, Reads depth f.2) {fuel : Nat}
    (hfuel : 2 * (fieldChars fields).length < fuel) (rest : List Char) :
    fields? fuel depth (fieldChars fields ++ '\x7d' :: rest) = some (fields, rest) := by
  induction fields generalizing fuel with
  | nil => exact absurd rfl hne
  | cons f fields ih =>
    obtain ⟨fuel, rfl⟩ := Nat.exists_eq_succ_of_ne_zero (Nat.ne_zero_of_lt hfuel)
    have hv := hread f List.mem_cons_self fuel
    have hcolon := skipSpace_cons (c := ':') (by decide)
    cases fields with
    | nil =>
      have hend := skipSpace_cons (c := '\x7d') (by decide) rest
      rw [fieldChars_singleton, List.length_append, List.length_cons] at hfuel
      have hvalue := hv ('\x7d' :: rest) (by omega) (stops_cons (by decide) rest)
      rw [fieldChars_singleton, List.append_assoc, List.cons_append, fields?]
      simp only [text?_skipSpace_quoted, hcolon, Option.bind_eq_bind, Option.bind_some, hvalue,
        hend, Option.pure_def]
    | cons g fields =>
      rw [fieldChars_cons_cons, List.length_append, List.length_append, List.length_cons,
        List.length_cons] at hfuel
      have hroom : 2 * (fieldChars (g :: fields)).length < fuel := by omega
      have hfields := ih (List.cons_ne_nil g fields)
        (fun u hu => hread u (List.mem_cons_of_mem f hu)) hroom
      have hcomma := skipSpace_cons (c := ',') (by decide)
        (fieldChars (g :: fields) ++ '\x7d' :: rest)
      have hvalue := hv (',' :: (fieldChars (g :: fields) ++ '\x7d' :: rest)) (by omega)
        (stops_cons (by decide) _)
      rw [fieldChars_cons_cons, List.append_assoc, List.append_assoc, List.cons_append,
        List.cons_append, fields?]
      simp only [text?_skipSpace_quoted, hcolon, Option.bind_eq_bind, Option.bind_some, hvalue,
        hcomma, hfields, Option.pure_def]

/-- A value that is no container is read in one step. -/
theorem reads_of_step {depth : Nat} {v : Json} (hne : chars v ≠ [])
    (hstep : ∀ fuel rest, Stops rest →
      value? (fuel + 1) depth (chars v ++ rest) = some (v, rest)) : Reads depth v := by
  intro fuel rest hfuel hrest
  have hpos := List.length_pos_iff.2 hne
  obtain ⟨fuel, rfl⟩ : ∃ n, fuel = n + 1 := ⟨fuel - 1, by omega⟩
  exact hstep fuel rest hrest

theorem reads_int {n : Int} (hn : Fits n) (depth : Nat) : Reads depth (int n) := by
  obtain ⟨c, tail, heq, hc⟩ := exists_intChars_eq n
  have hchars : chars (int n) = c :: tail := heq
  refine reads_of_step (by rw [hchars]; exact List.cons_ne_nil c tail) fun fuel rest hrest => ?_
  have hskip := ((begins_intChars n).append rest).skipSpace_eq
  have hnumber := number?_intChars hn hrest
  rw [heq, List.cons_append] at hskip hnumber
  rw [hchars, List.cons_append, value?, hskip]
  simp only [if_neg (ne_of_starts hc (d := 'n') (by decide)),
    if_neg (ne_of_starts hc (d := 't') (by decide)),
    if_neg (ne_of_starts hc (d := 'f') (by decide)),
    if_neg (ne_of_starts hc (d := '"') (by decide)),
    if_neg (ne_of_starts hc (d := '[') (by decide)),
    if_neg (ne_of_starts hc (d := '\x7b') (by decide)), hnumber, Option.map_some]
  rfl

theorem reads_string (s : String) (depth : Nat) : Reads depth (string s) := by
  refine reads_of_step (List.cons_ne_nil _ _) fun fuel rest _ => ?_
  have htext := text?_quoted s rest
  have heq : quoted s ++ rest = '"' :: (s.toList.flatMap escape ++ ['"'] ++ rest) := rfl
  rw [heq] at htext
  rw [chars, heq, value?, skipSpace_cons (by decide)]
  simp only [Char.reduceEq, if_false, if_true, htext, Option.map_some]

theorem Exact.begins_itemChars {depth : Nat} {items : List Json} (hne : items ≠ [])
    (h : ∀ v ∈ items, Exact depth v) : Begins (itemChars items) := by
  cases items with
  | nil => exact absurd rfl hne
  | cons v items =>
    have hv := (h v List.mem_cons_self).begins
    cases items with
    | nil => exact hv
    | cons w items =>
      rw [itemChars_cons_cons]
      exact hv.append _

theorem begins_fieldChars {fields : List (String × Json)} (hne : fields ≠ []) :
    Begins (fieldChars fields) := by
  cases fields with
  | nil => exact absurd rfl hne
  | cons f fields =>
    cases fields with
    | nil => exact (begins_quoted f.1).append (':' :: chars f.2)
    | cons g fields =>
      rw [fieldChars_cons_cons]
      exact ((begins_quoted f.1).append _).append _

theorem reads_array {depth : Nat} {items : List Json} (h : ∀ v ∈ items, Exact depth v)
    (hread : ∀ v ∈ items, Reads depth v) : Reads (depth + 1) (array items) := by
  intro fuel rest hfuel _
  rw [chars_array, List.length_cons, List.length_append, List.length_singleton] at hfuel
  obtain ⟨fuel, rfl⟩ : ∃ n, fuel = n + 1 := ⟨fuel - 1, by omega⟩
  rw [chars_array, List.cons_append, List.append_assoc, List.singleton_append, value?,
    skipSpace_cons (by decide)]
  simp only [Char.reduceEq, if_false, if_true]
  by_cases hne : items = []
  · rw [hne]
    rfl
  · have hbegins := (Exact.begins_itemChars hne h).append (']' :: rest)
    have hroom : 2 * (itemChars items).length < fuel := by omega
    have hitems := items?_itemChars hne hread hroom rest
    rw [hbegins.skipSpace_eq]
    obtain ⟨c, tail, heq, -, hc, -⟩ := hbegins
    rw [heq] at hitems ⊢
    split
    · next hbracket =>
      cases hbracket
      exact absurd rfl hc
    · rw [hitems]
      rfl

theorem reads_object {depth : Nat} {fields : List (String × Json)} (hsorted : Sorted fields)
    (hread : ∀ f ∈ fields, Reads depth f.2) : Reads (depth + 1) (object fields) := by
  intro fuel rest hfuel _
  rw [chars_object, List.length_cons, List.length_append, List.length_singleton] at hfuel
  obtain ⟨fuel, rfl⟩ : ∃ n, fuel = n + 1 := ⟨fuel - 1, by omega⟩
  rw [chars_object, List.cons_append, List.append_assoc, List.singleton_append, value?,
    skipSpace_cons (by decide)]
  simp only [Char.reduceEq, if_false, if_true]
  by_cases hne : fields = []
  · rw [hne]
    rfl
  · have hbegins := (begins_fieldChars hne).append ('\x7d' :: rest)
    have hroom : 2 * (fieldChars fields).length < fuel := by omega
    have hfields := fields?_fieldChars hne hread hroom rest
    rw [hbegins.skipSpace_eq]
    obtain ⟨c, tail, heq, -, -, hc⟩ := hbegins
    rw [heq] at hfields ⊢
    split
    · next hbrace =>
      cases hbrace
      exact absurd rfl hc
    · rw [hfields, Option.map_some]
      simp only [ofFields_eq hsorted]

theorem Exact.reads {depth : Nat} {v : Json} (h : Exact depth v) : Reads depth v := by
  induction h with
  | null => exact reads_of_step (List.cons_ne_nil _ _) fun _ _ _ => rfl
  | bool b =>
    cases b with
    | false => exact reads_of_step (List.cons_ne_nil _ _) fun _ _ _ => rfl
    | true => exact reads_of_step (List.cons_ne_nil _ _) fun _ _ _ => rfl
  | int hn => exact reads_int hn _
  | string s => exact reads_string s _
  | array h ih => exact reads_array h ih
  | object hsorted _ ih => exact reads_object hsorted ih

/-- A value that text keeps is what its text is parsed as. -/
theorem parse_render {v : Json} (h : Exact maxDepth v) : parse (render v) = some v := by
  have hreads := h.reads (fuelFor (chars v)) [] (by rw [fuelFor]; omega) stops_nil
  rw [List.append_nil] at hreads
  rw [parse, render, String.toList_ofList, hreads]
  rfl

/-! ## Lines -/

/-- A text without controls, and so on one line. -/
def OneLine (cs : List Char) : Prop := ∀ c ∈ cs, 32 ≤ c.toNat

theorem oneLine_nil : OneLine [] := by
  intro c hc
  cases hc

theorem OneLine.append {cs ds : List Char} (hcs : OneLine cs) (hds : OneLine ds) :
    OneLine (cs ++ ds) := by
  intro c hc
  obtain hc | hc := List.mem_append.1 hc
  · exact hcs c hc
  · exact hds c hc

theorem OneLine.cons {c : Char} {cs : List Char} (hc : 32 ≤ c.toNat) (hcs : OneLine cs) :
    OneLine (c :: cs) :=
  List.forall_mem_cons.2 ⟨hc, hcs⟩

theorem oneLine_of_all {cs : List Char} (h : cs.all (fun c => 32 ≤ c.toNat) = true) :
    OneLine cs := by
  intro c hc
  exact of_decide_eq_true (List.all_eq_true.1 h c hc)

theorem oneLine_hexDigit : ∀ n < 16, 32 ≤ (hexDigit n).toNat := by
  decide

theorem oneLine_escape (c : Char) : OneLine (escape c) := by
  unfold escape
  repeat' split
  iterate 7 exact oneLine_of_all rfl
  · next h =>
    have hhigh := oneLine_hexDigit (c.toNat / 16) (by omega)
    have hlow := oneLine_hexDigit (c.toNat % 16) (by omega)
    have hfront : OneLine ['\\', 'u', '0', '0'] := oneLine_of_all rfl
    exact hfront.append (.cons hhigh (.cons hlow oneLine_nil))
  · next h =>
    exact oneLine_nil.cons (Nat.not_lt.1 h)

theorem oneLine_quoted (s : String) : OneLine (quoted s) := by
  have hbody : OneLine (s.toList.flatMap escape) := by
    intro c hc
    obtain ⟨d, -, hd⟩ := List.mem_flatMap.1 hc
    exact oneLine_escape d c hd
  have hquote : OneLine ['"'] := oneLine_of_all rfl
  exact hquote.append (hbody.append hquote)

theorem oneLine_intChars (n : Int) : OneLine (intChars n) := by
  have hdigits : OneLine (Nat.toDigits 10 n.natAbs) := by
    intro c hc
    have hdigit := isDigit_of_mem_toDigits c hc
    rw [isDigit, Bool.and_eq_true, decide_eq_true_eq, decide_eq_true_eq] at hdigit
    have hlow : 48 ≤ c.toNat := hdigit.1
    omega
  unfold intChars
  split
  · exact hdigits.cons (by decide)
  · exact hdigits

theorem oneLine_itemChars {items : List Json} (h : ∀ v ∈ items, OneLine (chars v)) :
    OneLine (itemChars items) := by
  induction items with
  | nil => exact oneLine_nil
  | cons v items ih =>
    have hv := h v List.mem_cons_self
    cases items with
    | nil => exact hv
    | cons w items =>
      rw [itemChars_cons_cons]
      exact hv.append (.cons (by decide) (ih fun u hu => h u (List.mem_cons_of_mem v hu)))

theorem oneLine_fieldChars {fields : List (String × Json)} (h : ∀ f ∈ fields, OneLine (chars f.2)) :
    OneLine (fieldChars fields) := by
  induction fields with
  | nil => exact oneLine_nil
  | cons f fields ih =>
    have hf : OneLine (quoted f.1 ++ ':' :: chars f.2) :=
      (oneLine_quoted f.1).append (.cons (by decide) (h f List.mem_cons_self))
    cases fields with
    | nil => exact hf
    | cons g fields =>
      rw [fieldChars_cons_cons]
      exact hf.append (.cons (by decide) (ih fun u hu => h u (List.mem_cons_of_mem f hu)))

theorem oneLine_object {fields : List (String × Json)} (h : ∀ f ∈ fields, OneLine (chars f.2)) :
    OneLine (chars (object fields)) := by
  rw [chars_object]
  exact .cons (by decide) ((oneLine_fieldChars h).append (oneLine_nil.cons (by decide)))

theorem Exact.oneLine {depth : Nat} {v : Json} (h : Exact depth v) : OneLine (chars v) := by
  induction h with
  | null => exact oneLine_of_all rfl
  | bool b =>
    cases b with
    | false => exact oneLine_of_all rfl
    | true => exact oneLine_of_all rfl
  | int _ => exact oneLine_intChars _
  | string s => exact oneLine_quoted s
  | array _ ih =>
    rw [chars_array]
    exact .cons (by decide) ((oneLine_itemChars ih).append (oneLine_nil.cons (by decide)))
  | object _ _ ih => exact oneLine_object ih

end SecureGroup.Json
