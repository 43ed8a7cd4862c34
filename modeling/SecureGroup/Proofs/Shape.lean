import SecureGroup.Proofs.Delivery
import SecureGroup.Proofs.Exchange

/-!
# The shape of a listing

A listing is read item by item, and its reader may be doing other things with the keys meanwhile
(`Message.Listed`).  An entry that does not open gives no item, and whether it opens does not depend
on the keys; every other entry gives one item, and what is known of the chain decides what that item
is, but not which entry and device it names.  So two holders of any keys, who read the same entries
through bindings of the same group, find as many items, about the same entries and devices, in the
order of the log (`Message.Listed.same_shape`).
-/

namespace SecureGroup

variable [Suite]

/-- The entries of a log that a reader can open. -/
def Log.Reader.accepted (reader : Log.Reader) (l : List Log.Entry) : List Log.Entry :=
  l.filter fun e => (reader.read e).isOk

theorem Log.Reader.accepted_cons_of_error {reader : Log.Reader} {e : Log.Entry} {cause : Error}
    (h : reader.read e = .error cause) (l : List Log.Entry) :
    reader.accepted (e :: l) = reader.accepted l :=
  List.filter_cons_of_neg (by rw [h]; exact Bool.false_ne_true)

theorem Log.Reader.accepted_cons_of_ok {reader : Log.Reader} {e : Log.Entry} {opened : Log.Opened}
    (h : reader.read e = .ok opened) (l : List Log.Entry) :
    reader.accepted (e :: l) = e :: reader.accepted l :=
  List.filter_cons_of_pos (by rw [h]; rfl)

namespace Message

def Item.device : Item → PublicKey
  | decrypted m => m.device
  | pending _ device _ => device
  | undecryptable _ device _ => device

def Item.counter? : Item → Option UInt64
  | decrypted m => some m.counter
  | pending _ _ counter => some counter
  | undecryptable _ _ _ => none

/-- Two items are about the same entry and device, and show no different positions. -/
structure Item.Like (i j : Item) : Prop where
  entry : i.entry = j.entry
  device : i.device = j.device
  counter : ∀ n ∈ i.counter?, ∀ m ∈ j.counter?, n = m

/-- The items that are read one by one, when something may be done with the keys in between. -/
inductive Listed (reader : Log.Reader) (between : ChainKeys → ChainKeys → Prop) :
    ChainKeys → List Log.Entry → List Item → ChainKeys → Prop
  | done (keys : ChainKeys) : Listed reader between keys [] [] keys
  /-- An entry that does not open is passed over. -/
  | skipped {keys keys' last : ChainKeys} {e : Log.Entry} {cause : Error} {l : List Log.Entry}
      {items : List Item} (found : decrypt reader keys e = (.error cause, keys'))
      (rest : Listed reader between keys' l items last) :
      Listed reader between keys (e :: l) items last
  | item {keys keys' last : ChainKeys} {e : Log.Entry} {item : Item} {l : List Log.Entry}
      {items : List Item} (found : decrypt reader keys e = (.ok item, keys'))
      (rest : Listed reader between keys' l items last) :
      Listed reader between keys (e :: l) (item :: items) last
  | meanwhile {keys keys' last : ChainKeys} {l : List Log.Entry} {items : List Item}
      (step : between keys keys') (rest : Listed reader between keys' l items last) :
      Listed reader between keys l items last

variable {reader : Log.Reader} {keys keys' last last' : ChainKeys} {e : Log.Entry} {item : Item}
  {cause : Error} {l : List Log.Entry} {items items' : List Item}
  {between between' : ChainKeys → ChainKeys → Prop}

/-! ## One entry -/

/-- An entry gives no item exactly if it does not open, whatever the keys are. -/
theorem decrypt_eq_error_iff :
    decrypt reader keys e = (.error cause, keys') ↔
      reader.read e = .error cause ∧ keys' = keys := by
  unfold decrypt
  cases hread : reader.read e with
  | error cause' => simp [eq_comm]
  | ok opened => simp

theorem decrypt_eq_ok_iff :
    decrypt reader keys e = (.ok item, keys') ↔
      ∃ opened, reader.read e = .ok opened ∧ itemOf keys opened = (item, keys') := by
  unfold decrypt
  cases hread : reader.read e with
  | error cause' => simp
  | ok opened => simp [Prod.ext_iff]

/-- The keys do not decide which entry, device and position an item is about. -/
theorem itemOf_shape (keys : ChainKeys) (opened : Log.Opened) :
    (itemOf keys opened).1.device = opened.sender ∧
      ∀ n ∈ (itemOf keys opened).1.counter?,
        ∃ body, Body.codec.read opened.payload = .ok body ∧ n = body.counter := by
  unfold itemOf
  split
  · refine ⟨rfl, ?_⟩
    rintro n ⟨⟩
  · next body hbody =>
    dsimp only
    split
    · refine ⟨rfl, ?_⟩
      rintro n ⟨⟩
    · refine ⟨rfl, ?_⟩
      rintro n ⟨⟩
      exact ⟨body, hbody, rfl⟩
    · split
      · refine ⟨rfl, ?_⟩
        rintro n ⟨⟩
        exact ⟨body, hbody, rfl⟩
      · refine ⟨rfl, ?_⟩
        rintro n ⟨⟩

/-! ## All entries -/

theorem listed_list (reader : Log.Reader) (between : ChainKeys → ChainKeys → Prop)
    (keys : ChainKeys) (l : List Log.Entry) :
    Listed reader between keys l (list reader keys l).1 (list reader keys l).2 := by
  induction l generalizing keys with
  | nil => exact .done keys
  | cons e l ih =>
    cases h : reader.read e with
    | error cause =>
      rw [list_cons_of_error keys h]
      exact .skipped (decrypt_eq_error_iff.2 ⟨h, rfl⟩) (ih keys)
    | ok opened =>
      rw [list_cons_of_ok keys h]
      exact .item (decrypt_eq_ok_iff.2 ⟨opened, h, rfl⟩) (ih _)

/-- An item comes of an entry under keys that lie, in some order of keys, between others. -/
def ItemBetween (reader : Log.Reader) (R : ChainKeys → ChainKeys → Prop) (first last : ChainKeys)
    (e : Log.Entry) (item : Item) : Prop :=
  ∃ opened k, reader.read e = .ok opened ∧ item = (itemOf k opened).1 ∧ R first k ∧
    R (itemOf k opened).2 last

/-- The items of a listing are those of the entries that open, one after the other, under keys that
the reader had come to by then.  Whatever the steps in between and the look-ups keep of the keys
holds from the first keys to those, and from what became of them to the last ones. -/
theorem Listed.forall₂_itemBetween {R : ChainKeys → ChainKeys → Prop}
    (h : Listed reader between keys l items last) (refl : ∀ k, R k k)
    (trans : ∀ k k' k'', R k k' → R k' k'' → R k k'') (step : ∀ k k', between k k' → R k k')
    (lookup : ∀ k opened, R k (itemOf k opened).2) :
    R keys last ∧ List.Forall₂ (ItemBetween reader R keys last) (reader.accepted l) items := by
  have hsooner : ∀ {k k' last : ChainKeys} {l : List Log.Entry} {items : List Item}, R k k' →
      List.Forall₂ (ItemBetween reader R k' last) l items →
      List.Forall₂ (ItemBetween reader R k last) l items := by
    intro k k' last l items hk
    refine List.Forall₂.imp ?_
    rintro e item ⟨opened, k₁, hread, hitem, hk₁, hlast⟩
    exact ⟨opened, k₁, hread, hitem, trans _ _ _ hk hk₁, hlast⟩
  induction h with
  | done keys => exact ⟨refl keys, .nil⟩
  | skipped found rest ih =>
    obtain ⟨hread, rfl⟩ := decrypt_eq_error_iff.1 found
    rw [Log.Reader.accepted_cons_of_error hread]
    exact ih
  | @item keys keys' last e item l items found rest ih =>
    obtain ⟨opened, hread, hitem⟩ := decrypt_eq_ok_iff.1 found
    obtain ⟨hlast, hitems⟩ := ih
    have hkeys := lookup keys opened
    rw [Log.Reader.accepted_cons_of_ok hread]
    rw [hitem] at hkeys
    refine ⟨trans _ _ _ hkeys hlast, .cons ⟨opened, keys, hread, ?_, refl keys, ?_⟩
      (hsooner hkeys hitems)⟩
    · rw [hitem]
    · rwa [hitem]
  | meanwhile hstep rest ih =>
    obtain ⟨hlast, hitems⟩ := ih
    exact ⟨trans _ _ _ (step _ _ hstep) hlast, hsooner (step _ _ hstep) hitems⟩

omit [Suite] in
/-- The items of two listings go together, if what comes of one entry does. -/
theorem forall₂_of_common {α : Type} {P Q : α → Item → Prop} {S : Item → Item → Prop}
    {as : List α} (hp : List.Forall₂ P as items) (hq : List.Forall₂ Q as items')
    (join : ∀ a i j, P a i → Q a j → S i j) : List.Forall₂ S items items' := by
  induction hp generalizing items' with
  | nil =>
    cases hq
    exact .nil
  | cons hhead _ ih =>
    cases hq with
    | cons hhead' htail' => exact .cons (join _ _ _ hhead hhead') (ih htail')

/-- What an item says of the entry that it comes of. -/
def Item.About (reader : Log.Reader) (e : Log.Entry) (item : Item) : Prop :=
  ∃ opened, reader.read e = .ok opened ∧ item.entry = e.hash ∧ item.device = opened.sender ∧
    ∀ n ∈ item.counter?, ∃ body, Body.codec.read opened.payload = .ok body ∧ n = body.counter

/-- A listing has one item for every entry that opens, and it is about the entry. -/
theorem Listed.forall₂_about (h : Listed reader between keys l items last) :
    List.Forall₂ (Item.About reader) (reader.accepted l) items := by
  have hitems := (h.forall₂_itemBetween (R := fun _ _ => True) (fun _ => trivial)
    (fun _ _ _ _ _ => trivial) (fun _ _ _ => trivial) fun _ _ => trivial).2
  refine hitems.imp ?_
  rintro e item ⟨opened, k, hread, rfl, -, -⟩
  obtain ⟨hdevice, hcounter⟩ := itemOf_shape k opened
  exact ⟨opened, hread, (itemOf_cases k opened).1.trans (Log.Reader.hash_of_read hread), hdevice,
    hcounter⟩

theorem Item.About.like {j : Item} (hi : item.About reader e) (hj : j.About reader e) :
    item.Like j := by
  obtain ⟨opened, hread, hentry, hdevice, hcounter⟩ := hi
  obtain ⟨opened', hread', hentry', hdevice', hcounter'⟩ := hj
  obtain rfl := Except.ok.inj (hread.symm.trans hread')
  refine ⟨hentry.trans hentry'.symm, hdevice.trans hdevice'.symm, fun n hn m hm => ?_⟩
  obtain ⟨body, hbody, rfl⟩ := hcounter n hn
  obtain ⟨body', hbody', rfl⟩ := hcounter' m hm
  rw [Except.ok.inj (hbody.symm.trans hbody')]

theorem map_entry_of_about (h : List.Forall₂ (Item.About reader) l items) :
    items.map (·.entry) = l.map (·.hash) := by
  induction h with
  | nil => rfl
  | cons hhead _ ih =>
    obtain ⟨opened, -, hentry, -⟩ := hhead
    rw [List.map_cons, List.map_cons, hentry, ih]

omit [Suite] in
theorem map_source_of_like (h : List.Forall₂ Item.Like items items') :
    items.map (fun i => (i.entry, i.device)) = items'.map fun i => (i.entry, i.device) := by
  induction h with
  | nil => rfl
  | cons hhead _ ih => rw [List.map_cons, List.map_cons, ih, hhead.entry, hhead.device]

/-- Two holders of any keys list the same entries through bindings of the message log of one group,
whatever the bindings were used for and whatever is done with the keys meanwhile.  Each gets exactly
one item for every entry that opens, in the order of the log and about that entry, and none for the
others.  So they get as many items, about the same entries and devices in the same order, and where
both see a position it is the same.  Listing without pause is one way to do so. -/
theorem Listed.same_shape {g : Group} {n n' : Nat} {b b' : Log.Binding}
    (hb : Log.Binding.Used g .messages n b) (hb' : Log.Binding.Used g .messages n' b')
    (h : Listed b.toReader between keys l items last)
    (h' : Listed b'.toReader between' keys' l items' last') :
    b.toReader.accepted l = b'.toReader.accepted l ∧
      items.map (·.entry) = (b.toReader.accepted l).map (·.hash) ∧
      List.Forall₂ (Item.About b.toReader) (b.toReader.accepted l) items ∧
      items.length = items'.length ∧
      items.map (fun i => (i.entry, i.device)) = items'.map (fun i => (i.entry, i.device)) ∧
      List.Forall₂ Item.Like items items' ∧
      Listed b.toReader between keys l (list b.toReader keys l).1 (list b.toReader keys l).2 := by
  have hreader : b'.toReader = b.toReader := hb'.toReader_eq.trans hb.toReader_eq.symm
  rw [hreader] at h' ⊢
  have hlike : List.Forall₂ Item.Like items items' :=
    forall₂_of_common h.forall₂_about h'.forall₂_about fun e i j hi hj => hi.like hj
  exact ⟨rfl, map_entry_of_about h.forall₂_about, h.forall₂_about, hlike.length_eq,
    map_source_of_like hlike, hlike, listed_list b.toReader between keys l⟩

end Message

end SecureGroup

/-! ## Two holders -/

namespace SecureGroup.Message

attribute [local instance] Suite.plain

open Plain

/-- Two messages with garbage between them, for a reader that knows the chain from the second
position on, and for one that does not know it. -/
theorem Listed.same_shape_two_holders :
    let entries := (write 2 (add (write 2 (desk 2) [1]).2 [7]) [2]).2.entries
    let knower := ((chains 9).register (key 2).pub ((chains 2).own.advance 1)).2
    let known := (list (.of group .messages) knower entries).1
    let unknown := (list (.of group .messages) (chains 8) entries).1
    entries.length = 3 ∧ known.map (·.message?.isSome) = [false, true] ∧
      unknown.map (·.message?.isSome) = [false, false] ∧
      known.map (fun i => (i.entry, i.device)) = unknown.map (fun i => (i.entry, i.device)) ∧
      List.Forall₂ Item.Like known unknown := by
  intro entries knower known unknown
  have hfacts : entries.length = 3 ∧ known.map (·.message?.isSome) = [false, true] ∧
      unknown.map (·.message?.isSome) = [false, false] := by
    decide +kernel
  obtain ⟨-, -, -, -, hsource, hlike, -⟩ := Listed.same_shape
    (.new (g := group) 0) (.closed (.new (g := group) 5))
    (listed_list (.of group .messages) (fun _ _ => True) knower entries)
    (listed_list (.of group .messages) (fun _ _ => True) (chains 8) entries)
  exact ⟨hfacts.1, hfacts.2.1, hfacts.2.2, hsource, hlike⟩

end SecureGroup.Message
