import Mathlib.Logic.Relation
import SecureGroup.Proofs.Derivation
import SecureGroup.Proofs.Shape

/-!
# Listing again

Reading messages changes the keys: the furthest states of the chains move on, and marks are left.
All that a device does with its keys takes them further (`ChainKeys.Furthers`): a chain that cannot
be read stays so, and the others are read from the same states on and no less far.  So what came of
a look-up comes of it again, unless the position was too far past the furthest state
(`ChainKeys.Furthers.messageKey`).  Therefore a listing that was read before is found again at the
beginning of every later one, whatever was sent, looked up or added to the log meanwhile, as long as
no chain is learned (`Message.Listed.found_again`).
-/

namespace SecureGroup

variable [Suite]

/-! ## Further keys -/

namespace ChainKeys

variable {k k' k'' : ChainKeys} {device : PublicKey} {chainId counter : UInt64}

/-- Every chain that can be read is read from some state on. -/
def InOrder (k : ChainKeys) : Prop :=
  ∀ device chainId, k.ratchet? device chainId = none ∨
    ∃ start h, start.chainId = chainId ∧ k.Reads device start h

/-- Keys that read the same chains from the same states on, and no less far. -/
structure Furthers (k k' : ChainKeys) : Prop where
  maxSkipped : k'.maxSkipped = k.maxSkipped
  unknown : ∀ {device chainId}, k.ratchet? device chainId = none → k'.ratchet? device chainId = none
  reads : ∀ {device start h}, k.Reads device start h → ∃ h', h ≤ h' ∧ k'.Reads device start h'

theorem Furthers.refl (k : ChainKeys) : k.Furthers k where
  maxSkipped := rfl
  unknown := id
  reads hk := ⟨_, Nat.le_refl _, hk⟩

theorem Furthers.trans (h : k.Furthers k') (h' : k'.Furthers k'') : k.Furthers k'' where
  maxSkipped := h'.maxSkipped.trans h.maxSkipped
  unknown hk := h'.unknown (h.unknown hk)
  reads hk := by
    obtain ⟨n, hn, hk'⟩ := h.reads hk
    obtain ⟨m, hm, hk''⟩ := h'.reads hk'
    exact ⟨m, Nat.le_trans hn hm, hk''⟩

theorem furthers_messageKey (k : ChainKeys) (device : PublicKey) (chainId counter : UInt64) :
    k.Furthers (k.messageKey device chainId counter).2 where
  maxSkipped := k.maxSkipped_messageKey device chainId counter
  unknown := by
    intro other id hnone
    have hfirst := (Uses.reads k device chainId counter).first? other id
    rw [first?, first?, hnone, Option.map_none, Option.map_eq_none_iff] at hfirst
    exact hfirst
  reads hk := hk.messageKey device chainId counter

/-- Whatever a device does with its keys takes them further. -/
theorem Uses.furthers (h : Uses k k') : k.Furthers k' := by
  cases h with
  | sends => exact ⟨rfl, id, fun hk => ⟨_, Nat.le_refl _, hk⟩⟩
  | resumes counter => exact ⟨rfl, id, fun hk => ⟨_, Nat.le_refl _, hk⟩⟩
  | reads device chainId counter => exact k.furthers_messageKey device chainId counter

theorem furthers_of_uses (h : Relation.ReflTransGen Uses k k') : k.Furthers k' := by
  induction h with
  | refl => exact .refl k
  | tail _ step ih => exact ih.trans step.furthers

theorem InOrder.of_furthers (hk : k.InOrder) (h : k.Furthers k') : k'.InOrder := by
  intro device chainId
  rcases hk device chainId with hnone | ⟨start, n, hid, hreads⟩
  · exact Or.inl (h.unknown hnone)
  · obtain ⟨m, -, hreads'⟩ := h.reads hreads
    exact Or.inr ⟨start, m, hid, hreads'⟩

theorem inOrder_afterAll (ownDevice : PublicKey) (own : ChainKey) (maxSkipped : Nat)
    (calls : List Call) : ((ofChain ownDevice own maxSkipped).afterAll calls).InOrder := by
  intro device chainId
  have hfirst := first?_afterAll ownDevice own maxSkipped calls device chainId
  cases hstart : start? ownDevice own calls device chainId with
  | none =>
    rw [hstart, first?, Option.map_eq_none_iff] at hfirst
    exact Or.inl hfirst
  | some start =>
    obtain ⟨h, hreads⟩ : ∃ h, ((ofChain ownDevice own maxSkipped).afterAll calls).Reads device
        start h := (reads_afterAll hstart).imp fun h => And.left
    exact Or.inr ⟨start, h, chainId_of_start? hstart, hreads⟩

/-- What comes of a look-up that is made again: the same, or anything but an unknown chain when the
position was too far before. -/
inductive Lookup.Again (counter : UInt64) :
    Except Error (Option (Octets 32)) → Except Error (Option (Octets 32)) → Prop
  | same (found : Except Error (Option (Octets 32))) : Lookup.Again counter found found
  | ahead (distance distance' : Nat) :
      Lookup.Again counter (.error (.counterAhead counter.toNat distance))
        (.error (.counterAhead counter.toNat distance'))
  | caught (distance : Nat) (key : Octets 32) :
      Lookup.Again counter (.error (.counterAhead counter.toNat distance)) (.ok (some key))

/-- What came of a look-up comes of it again, unless the position was too far. -/
theorem Furthers.messageKey (hk : k.InOrder)
    (h : (k.messageKey device chainId counter).2.Furthers k') :
    Lookup.Again counter (k.messageKey device chainId counter).1
      (k'.messageKey device chainId counter).1 := by
  rcases hk device chainId with hnone | ⟨start, n, rfl, hreads⟩
  · have hkey : ∀ {k : ChainKeys}, k.ratchet? device chainId = none →
        k.messageKey device chainId counter = (.ok none, k) := by
      intro k hnone
      rw [ChainKeys.messageKey, hnone]
    rw [hkey hnone] at h ⊢
    rw [hkey (h.unknown hnone)]
    exact .same _
  by_cases hbefore : counter.toNat < start.counter.toNat
  · obtain ⟨hkey, hafter⟩ := hreads.messageKey_of_lt hbefore
    obtain ⟨m, -, hreads'⟩ := h.reads hafter
    rw [hkey, (hreads'.messageKey_of_lt hbefore).1]
    exact .same _
  obtain ⟨d, hd⟩ := Nat.exists_eq_add_of_le (Nat.not_lt.1 hbefore)
  have hskip : k'.maxSkipped = k.maxSkipped :=
    h.maxSkipped.trans (k.maxSkipped_messageKey device start.chainId counter)
  by_cases hnear : d ≤ n + k.maxSkipped
  · -- the furthest state has come to the position, and does not move back
    obtain ⟨hkey, hafter⟩ := hreads.messageKey_of_le hnear hd
    obtain ⟨m, hm, hreads'⟩ := h.reads hafter
    have hnear' : d ≤ m + k'.maxSkipped := by omega
    rw [hkey, (hreads'.messageKey_of_le hnear' hd).1]
    exact .same _
  · obtain ⟨hkey, hafter⟩ := hreads.messageKey_of_far (Nat.not_le.1 hnear) hd
    obtain ⟨m, -, hreads'⟩ := h.reads hafter
    rw [hkey]
    by_cases hnear' : d ≤ m + k'.maxSkipped
    · rw [(hreads'.messageKey_of_le hnear' hd).1]
      exact .caught _ _
    · rw [(hreads'.messageKey_of_far (Nat.not_le.1 hnear') hd).1]
      exact .ahead _ _

end ChainKeys

/-! ## Listings -/

namespace Message

variable {reader : Log.Reader} {keys keys' k₁ k₂ k₃ : ChainKeys} {l l' : List Log.Entry}
  {items items' : List Item} {opened : Log.Opened}

/-- What becomes of an item when its entry is listed again: it stays as it is; but if it was too far
past what was known of the chain, it may be decrypted, or fail for another reason. -/
inductive Item.Again : Item → Item → Prop
  | same (item : Item) : Item.Again item item
  | still (entry : EntryHash) (device : PublicKey) (counter distance : Nat) (fault : Fault) :
      Item.Again (.undecryptable entry device (.key (.counterAhead counter distance)))
        (.undecryptable entry device fault)
  | caught (entry : EntryHash) (device : PublicKey) (counter : UInt64) (distance : Nat)
      (payload : Bytes) :
      Item.Again (.undecryptable entry device (.key (.counterAhead counter.toNat distance)))
        (.decrypted ⟨entry, device, counter, payload⟩)

theorem furthers_itemOf (keys : ChainKeys) (opened : Log.Opened) :
    keys.Furthers (itemOf keys opened).2 := by
  rcases (itemOf_cases keys opened).2 with h | ⟨device, chainId, counter, h⟩
  · rw [h]
    exact .refl keys
  · rw [h]
    exact keys.furthers_messageKey device chainId counter

/-- An entry whose item was made under some keys is listed again under further ones. -/
theorem again_itemOf (hk : keys.InOrder) (h : (itemOf keys opened).2.Furthers keys') :
    (itemOf keys opened).1.Again (itemOf keys' opened).1 := by
  cases hbody : Body.codec.read opened.payload with
  | error fault =>
    have hitem : ∀ keys, itemOf keys opened =
        (.undecryptable opened.hash opened.sender (.body fault), keys) := by
      intro keys
      rw [itemOf, hbody]
    rw [hitem, hitem]
    exact .same _
  | ok body =>
    have hkeys : (itemOf keys opened).2 =
        (keys.messageKey opened.sender body.chainId body.counter).2 := by
      rw [itemOf, hbody]
    rw [hkeys] at h
    have hagain := h.messageKey hk
    generalize hfound : (keys.messageKey opened.sender body.chainId body.counter).1 = found,
      hfound' : (keys'.messageKey opened.sender body.chainId body.counter).1 = found' at hagain
    cases hagain with
    | same =>
      have hsame : (itemOf keys opened).1 = (itemOf keys' opened).1 := by
        rw [itemOf, itemOf, hbody]
        dsimp only
        rw [hfound, hfound']
      rw [hsame]
      exact .same _
    | ahead distance distance' =>
      rw [itemOf_undecryptable hbody hfound, itemOf_undecryptable hbody hfound']
      exact .still _ _ _ _ _
    | caught distance key =>
      rw [itemOf_undecryptable hbody hfound]
      cases hbox : SecretBox.reveal key body.box with
      | ok payload =>
        rw [itemOf_decrypted hbody hfound' hbox]
        exact .caught _ _ _ _ _
      | error cause =>
        have hitem : (itemOf keys' opened).1 =
            .undecryptable opened.hash opened.sender (.key cause) := by
          rw [itemOf, hbody]
          dsimp only
          rw [hfound']
          dsimp only
          rw [hbox]
        rw [hitem]
        exact .still _ _ _ _ _

/-- A listing leaves its keys further, and each of its items was made in between. -/
theorem Listed.furthers (h : Listed reader ChainKeys.Uses keys l items keys') :
    keys.Furthers keys' ∧
      List.Forall₂ (ItemBetween reader ChainKeys.Furthers keys keys') (reader.accepted l) items :=
  h.forall₂_itemBetween .refl (fun _ _ _ => .trans) (fun _ _ => ChainKeys.Uses.furthers)
    furthers_itemOf

/-- A message log is listed twice, and since the first listing began no chain was learned, but keys
were looked up, messages were sent, and the log has grown, in any order and also while the listings
were read.  Then the second listing begins with an item for every item of the first, and this is the
same item, unless the entry was too far past what was known of its chain: such an entry may be
decrypted now, and if not it is undecryptable again.  What follows is about the new entries. -/
theorem Listed.found_again {ownDevice : PublicKey} {own : ChainKey} {maxSkipped : Nat}
    {calls : List ChainKeys.Call} {more : List Log.Entry}
    (first : Listed reader ChainKeys.Uses
      ((ChainKeys.ofChain ownDevice own maxSkipped).afterAll calls) l items k₁)
    (meantime : Relation.ReflTransGen ChainKeys.Uses k₁ k₂)
    (second : Listed reader ChainKeys.Uses k₂ (l ++ more) items' k₃) :
    List.Forall₂ Item.Again items (items'.take items.length) ∧
      List.Forall₂ (Item.About reader) (reader.accepted more) (items'.drop items.length) := by
  have horder := ChainKeys.inOrder_afterAll ownDevice own maxSkipped calls
  have haccepted : reader.accepted (l ++ more) = reader.accepted l ++ reader.accepted more :=
    List.filter_append _ _
  have hlength : (reader.accepted l).length = items.length := first.furthers.2.length_eq
  have hagain := second.furthers.2
  have habout := second.forall₂_about
  rw [haccepted] at hagain habout
  replace hagain := List.forall₂_take items.length hagain
  replace habout := List.forall₂_drop items.length habout
  rw [← hlength, List.take_left, hlength] at hagain
  rw [← hlength, List.drop_left, hlength] at habout
  refine ⟨forall₂_of_common first.furthers.2 hagain ?_, habout⟩
  rintro e i j ⟨opened, k, hread, rfl, hk, hlast⟩ ⟨opened', k', hread', rfl, hk', -⟩
  obtain rfl := Except.ok.inj (hread.symm.trans hread')
  exact again_itemOf (horder.of_furthers hk)
    (hlast.trans ((ChainKeys.furthers_of_uses meantime).trans hk'))

end Message

end SecureGroup

/-! ## A log that is listed twice -/

namespace SecureGroup.Plain

attribute [local instance] Suite.plain

def writeAt (device : UInt8) (d : Desk) (place : Nat) (payload : Bytes) : Desk :=
  (write device { d with keys := { d.keys with own := (chains device).own.advance place } }
    payload).2

end SecureGroup.Plain

namespace SecureGroup.Message

attribute [local instance] Suite.plain

open Plain

/-- A reader knows a chain from its second place on and looks at most four places ahead.  It lists a
message before that place, one that is too far ahead, and one that it can read; then it looks two
keys up and sends, another message comes, and it lists the log again. -/
theorem Listed.found_again_after_lookups :
    let before := writeAt 2 (writeAt 2 (writeAt 2 (desk 2) 0 [1]) 10 [2]) 1 [3]
    let after := writeAt 2 before 8 [4]
    let device := (key 2).pub
    let chain := (chains 2).own.advance 1
    let keys := (ChainKeys.ofChain (key 9).pub (chains 9).own 4).afterAll [.register device chain]
    let first := list (.of group .messages) keys before.entries
    let later := ((first.2.messageKey device chain.chainId 5).2.messageKey device chain.chainId
      8).2.nextOwn.2
    let second := list (.of group .messages) later after.entries
    first.1.map (·.message?.isSome) = [false, false, true] ∧
      second.1.map (·.message?.isSome) = [false, true, true, true] ∧
      List.Forall₂ Item.Again first.1 (second.1.take 3) := by
  intro before after device chain keys first later second
  have hfacts : first.1.map (·.message?.isSome) = [false, false, true] ∧
      second.1.map (·.message?.isSome) = [false, true, true, true] ∧
      after.entries = before.entries ++ after.entries.drop 3 ∧ first.1.length = 3 := by
    decide +kernel
  obtain ⟨hfirst, hsecond, hgrown, hlength⟩ := hfacts
  have hread : Listed (.of group .messages) ChainKeys.Uses keys before.entries first.1 first.2 :=
    listed_list _ _ _ _
  have hreadAgain : Listed (.of group .messages) ChainKeys.Uses later
      (before.entries ++ after.entries.drop 3) second.1 second.2 :=
    hgrown ▸ listed_list _ _ _ _
  have hmeantime : Relation.ReflTransGen ChainKeys.Uses first.2 later :=
    ((Relation.ReflTransGen.single (.reads _ _ _ _)).tail (.reads _ _ _ _)).tail (.sends _)
  have hagain := (Listed.found_again hread hmeantime hreadAgain).1
  rw [hlength] at hagain
  exact ⟨hfirst, hsecond, hagain⟩

end SecureGroup.Message
