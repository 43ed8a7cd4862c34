import SecureGroup.Proofs.Ratchet
import SecureGroup.Proofs.Signatures
import SecureGroup.Message

/-!
# Listings of a message log

A listing looks at most one key up for every entry of the log, and its items stand in the order of
their entries.  When the messages of a chain stand in a log in order, among whatever else
(`Interleaved`), a reader that holds the chain from some first known state on sees each of them as
it should: pending before that state, and decrypted from there on (`Interleaved.filter_list_eq`).
Nothing that was looked up before, and nothing else in the log, changes that: a listing comes to the
positions of the chain one after the other, so each of them is at most one past the furthest state
by then (`Message.list_carried`).
-/

namespace SecureGroup

variable [Suite]

/-! ## Listings -/

theorem Log.Reader.hash_of_read {reader : Log.Reader} {e : Log.Entry} {opened : Log.Opened}
    (h : reader.read e = .ok opened) : opened.hash = e.hash := by
  rw [read, bind_eq_ok_iff] at h
  obtain ⟨envelope, -, h⟩ := h
  rw [bind_eq_ok_iff] at h
  obtain ⟨payload, -, h⟩ := h
  exact (Except.ok.inj h) ▸ rfl

namespace Message

variable {reader : Log.Reader} {keys : ChainKeys} {l l' : List Log.Entry} {e : Log.Entry}
  {opened : Log.Opened} {item : Item}

def Item.entry : Item → EntryHash
  | decrypted m => m.entry
  | pending entry _ _ => entry
  | undecryptable entry _ _ => entry

theorem list_cons_of_error {cause : Error} (keys : ChainKeys) (h : reader.read e = .error cause) :
    list reader keys (e :: l) = list reader keys l := by
  rw [list, decrypt, h]

theorem list_cons_of_ok (keys : ChainKeys) (h : reader.read e = .ok opened) :
    list reader keys (e :: l) =
      ((itemOf keys opened).1 :: (list reader (itemOf keys opened).2 l).1,
        (list reader (itemOf keys opened).2 l).2) := by
  rw [list, decrypt, h]

theorem list_append (reader : Log.Reader) (keys : ChainKeys) (l l' : List Log.Entry) :
    list reader keys (l ++ l') =
      ((list reader keys l).1 ++ (list reader (list reader keys l).2 l').1,
        (list reader (list reader keys l).2 l').2) := by
  induction l generalizing keys with
  | nil => rfl
  | cons e rest ih =>
    rw [List.cons_append]
    cases h : reader.read e with
    | error cause => rw [list_cons_of_error keys h, list_cons_of_error keys h, ih]
    | ok opened => rw [list_cons_of_ok keys h, list_cons_of_ok keys h, ih, List.cons_append]

/-- The item of an opened entry is about the entry, and its key is looked up at most once. -/
theorem itemOf_cases (keys : ChainKeys) (opened : Log.Opened) :
    (itemOf keys opened).1.entry = opened.hash ∧
      ((itemOf keys opened).2 = keys ∨ ∃ device chainId counter,
        (itemOf keys opened).2 = (keys.messageKey device chainId counter).2) := by
  unfold itemOf
  split
  · exact ⟨rfl, Or.inl rfl⟩
  · next body hbody =>
    refine ⟨?_, Or.inr ⟨opened.sender, body.chainId, body.counter, rfl⟩⟩
    dsimp only
    split
    · rfl
    · rfl
    · split <;> rfl

/-- What every look-up keeps, a listing keeps. -/
theorem list_invariant {P : ChainKeys → Prop} (hk : P keys)
    (lookup : ∀ k device chainId counter, P k → P (k.messageKey device chainId counter).2) :
    P (list reader keys l).2 := by
  induction l generalizing keys with
  | nil => exact hk
  | cons e rest ih =>
    cases h : reader.read e with
    | error cause =>
      rw [list_cons_of_error keys h]
      exact ih hk
    | ok opened =>
      rw [list_cons_of_ok keys h]
      apply ih
      rcases (itemOf_cases keys opened).2 with h | ⟨device, chainId, counter, h⟩
      · rwa [h]
      · rw [h]
        exact lookup keys device chainId counter hk

theorem holds_list {device : PublicKey} {start : ChainKey} (hk : keys.Holds device start) :
    (list reader keys l).2.Holds device start :=
  list_invariant (P := fun k => k.Holds device start) hk
    fun _ device chainId counter hk => hk.messageKey device chainId counter

theorem reads_list {device : PublicKey} {start : ChainKey} {h : Nat}
    (hk : keys.Reads device start h) :
    ∃ h', h ≤ h' ∧ (list reader keys l).2.Reads device start h' := by
  refine list_invariant (P := fun k => ∃ h', h ≤ h' ∧ k.Reads device start h')
    ⟨h, Nat.le_refl h, hk⟩ ?_
  rintro k device chainId counter ⟨h', hle, hreads⟩
  obtain ⟨h'', hle', hreads'⟩ := hreads.messageKey device chainId counter
  exact ⟨h'', Nat.le_trans hle hle', hreads'⟩

theorem maxSkipped_list (reader : Log.Reader) (keys : ChainKeys) (l : List Log.Entry) :
    (list reader keys l).2.maxSkipped = keys.maxSkipped :=
  list_invariant (P := fun k => k.maxSkipped = keys.maxSkipped) rfl
    fun k device chainId counter hk => (k.maxSkipped_messageKey device chainId counter).trans hk

/-- Every item of a listing is about one of the entries. -/
theorem entry_mem_of_mem_list (hi : item ∈ (list reader keys l).1) :
    item.entry ∈ l.map (·.hash) := by
  induction l generalizing keys with
  | nil => cases hi
  | cons e rest ih =>
    rw [List.map_cons]
    cases h : reader.read e with
    | error cause =>
      rw [list_cons_of_error keys h] at hi
      exact List.mem_cons_of_mem _ (ih hi)
    | ok opened =>
      rw [list_cons_of_ok keys h] at hi
      rcases List.mem_cons.1 hi with rfl | hi
      · rw [(itemOf_cases keys opened).1, Log.Reader.hash_of_read h]
        exact List.mem_cons_self
      · exact List.mem_cons_of_mem _ (ih hi)

end Message

/-! ## Messages in a log -/

/-- A message that was sent, and what the writer learned of its entry. -/
structure Sent where
  ref : Log.Ref
  payload : Bytes

def Sent.hash (s : Sent) : EntryHash := s.ref.hash

/-- An entry is the message that the holder of a chain key sends next. -/
def Log.Reader.Carries (reader : Log.Reader) (sender : PublicKey) (own : ChainKey) (payload : Bytes)
    (e : Log.Entry) : Prop :=
  ∃ opened nonce, reader.read e = .ok opened ∧ opened.sender = sender ∧
    Message.Body.codec.read opened.payload =
      .ok ⟨own.chainId, own.counter, SecretBox.sealWith own.messageKey nonce payload⟩

variable {reader : Log.Reader} {own : ChainKey} {payload : Bytes} {e : Log.Entry}

/-- An entry is at one position only. -/
theorem Log.Reader.Carries.counter_eq {sender : PublicKey} {own' : ChainKey} {payload' : Bytes}
    (h : reader.Carries sender own payload e) (h' : reader.Carries sender own' payload' e) :
    own.counter = own'.counter := by
  obtain ⟨opened, nonce, hread, -, hbody⟩ := h
  obtain ⟨opened', nonce', hread', -, hbody'⟩ := h'
  obtain rfl := Except.ok.inj (hread.symm.trans hread')
  exact congrArg Message.Body.counter (Except.ok.inj (hbody.symm.trans hbody'))

/-! ## The item of a message -/

/-- The item of a message that was sent: its position is its place among the messages, counted from
the position of the first one, and it is pending when the reader knows the chain from a later place
on. -/
def Sent.item (sender : PublicKey) (origin : UInt64) (known place : Nat) (s : Sent) :
    Message.Item :=
  if place < known then .pending s.hash sender (origin + .ofNat place)
  else .decrypted ⟨s.hash, sender, origin + .ofNat place, s.payload⟩

omit [Suite] in
theorem Sent.entry_item (sender : PublicKey) (origin : UInt64) (known place : Nat) (s : Sent) :
    (s.item sender origin known place).entry = s.hash := by
  unfold item
  split <;> rfl

namespace Message

variable {keys : ChainKeys} {opened : Log.Opened} {body : Body}

theorem itemOf_pending (hbody : Body.codec.read opened.payload = .ok body)
    (hkey : (keys.messageKey opened.sender body.chainId body.counter).1 = .ok none) :
    itemOf keys opened = (.pending opened.hash opened.sender body.counter,
      (keys.messageKey opened.sender body.chainId body.counter).2) := by
  rw [itemOf, hbody]
  dsimp only
  rw [hkey]

theorem itemOf_decrypted {key : Octets 32} (hbody : Body.codec.read opened.payload = .ok body)
    (hkey : (keys.messageKey opened.sender body.chainId body.counter).1 = .ok (some key))
    (hbox : SecretBox.reveal key body.box = .ok payload) :
    itemOf keys opened = (.decrypted ⟨opened.hash, opened.sender, body.counter, payload⟩,
      (keys.messageKey opened.sender body.chainId body.counter).2) := by
  rw [itemOf, hbody]
  dsimp only
  rw [hkey]
  dsimp only
  rw [hbox]

theorem itemOf_undecryptable {cause : Error} (hbody : Body.codec.read opened.payload = .ok body)
    (hkey : (keys.messageKey opened.sender body.chainId body.counter).1 = .error cause) :
    itemOf keys opened = (.undecryptable opened.hash opened.sender (.key cause),
      (keys.messageKey opened.sender body.chainId body.counter).2) := by
  rw [itemOf, hbody]
  dsimp only
  rw [hkey]

/-- A reader that is at most one position behind sees the next message as it should, and is at most
one position behind afterwards. -/
theorem list_carried (enc : Suite.EncryptionLaw) {sender : PublicKey} {origin : ChainKey}
    {known place h : Nat} (he : reader.Carries sender (origin.advance place) payload e)
    (hk : keys.Reads sender (origin.advance known) h) (skip : 1 ≤ keys.maxSkipped)
    (ready : place ≤ known + h + 1) (hknown : origin.counter.toNat + known < UInt64.size)
    (hplace : origin.counter.toNat + place < UInt64.size) :
    (list reader keys [e]).1 = [Sent.item sender origin.counter known place ⟨e.ref, payload⟩] ∧
      ∃ h', place ≤ known + h' ∧
        (list reader keys [e]).2.Reads sender (origin.advance known) h' := by
  obtain ⟨opened, nonce, hread, rfl, hbody⟩ := he
  have hhash := Log.Reader.hash_of_read hread
  have hchain : (origin.advance place).chainId = (origin.advance known).chainId := by
    rw [ChainKey.chainId_advance, ChainKey.chainId_advance]
  have hcounter := ChainKey.toNat_counter_advance hplace
  have hstart := ChainKey.toNat_counter_advance hknown
  rw [list_cons_of_ok keys hread, list, Sent.item, ← ChainKey.counter_advance]
  by_cases hbefore : place < known
  · have hlt : (origin.advance place).counter.toNat < (origin.advance known).counter.toNat := by
      omega
    obtain ⟨hkey, hreads⟩ := hk.messageKey_of_lt hlt
    rw [← hchain] at hkey hreads
    rw [itemOf_pending hbody hkey, if_pos hbefore, hhash]
    exact ⟨rfl, h, by omega, hreads⟩
  · obtain ⟨d, rfl⟩ := Nat.exists_eq_add_of_le (Nat.not_lt.1 hbefore)
    have hle : d ≤ h + keys.maxSkipped := by omega
    have hpast : (origin.advance (known + d)).counter.toNat =
        (origin.advance known).counter.toNat + d := by omega
    obtain ⟨hkey, hreads⟩ := hk.messageKey_of_le hle hpast
    rw [← hchain] at hkey hreads
    rw [← ChainKey.advance_add] at hkey
    have hbox := SecretBox.reveal_sealWith enc (origin.advance (known + d)).messageKey nonce payload
    rw [itemOf_decrypted hbody hkey hbox, if_neg hbefore, hhash]
    exact ⟨rfl, max h d, by omega, hreads⟩

end Message

/-! ## Logs with messages -/

/-- A log in which some messages stand in order, each under a hash of its own, among whatever else
was there or was added. -/
inductive Woven : List Sent → List Log.Entry → Prop
  | start (l : List Log.Entry) : Woven [] l
  | other {sent : List Sent} {l : List Log.Entry} {e : Log.Entry} (before : Woven sent l)
      (fresh : e.hash ∉ l.map (·.hash)) : Woven sent (l ++ [e])
  | message {sent : List Sent} {l : List Log.Entry} {e : Log.Entry} (before : Woven sent l)
      (fresh : e.hash ∉ l.map (·.hash)) (payload : Bytes) :
      Woven (sent ++ [⟨e.ref, payload⟩]) (l ++ [e])

namespace Woven

variable {sent : List Sent} {l : List Log.Entry} {keys : ChainKeys}

omit [Suite]

theorem hashes_subset (h : Woven sent l) : sent.map Sent.hash ⊆ l.map (·.hash) := by
  induction h with
  | start l => exact List.nil_subset _
  | other before fresh ih =>
    rw [List.map_append]
    exact List.subset_append_of_subset_left _ ih
  | message before fresh payload ih =>
    rw [List.map_append, List.map_append]
    exact List.append_subset.2 ⟨List.subset_append_of_subset_left _ ih,
      List.subset_append_of_subset_right _ (List.Subset.refl _)⟩

theorem nodup_hashes (h : Woven sent l) : (sent.map Sent.hash).Nodup := by
  induction h with
  | start l => exact List.nodup_nil
  | other before fresh ih => exact ih
  | message before fresh payload ih =>
    rw [List.map_append, List.map_singleton, List.nodup_append]
    refine ⟨ih, List.pairwise_singleton _ _, fun a ha b hb heq => ?_⟩
    rw [heq, List.mem_singleton.1 hb] at ha
    exact fresh (before.hashes_subset ha)

/-- Of what belongs to a log and a message that is added to it, the messages so far and the new one
pick what belongs to them. -/
theorem filter_message {α : Type} {f : α → EntryHash} {as : List α} {a : α} {s : Sent}
    (ha : ∀ a ∈ as, f a ∈ l.map (·.hash)) (fresh : s.hash ∉ l.map (·.hash)) (hs : f a = s.hash) :
    (as ++ [a]).filter (fun a => f a ∈ (sent ++ [s]).map Sent.hash) =
      as.filter (fun a => f a ∈ sent.map Sent.hash) ++ [a] := by
  have hold : as.filter (fun a => f a ∈ (sent ++ [s]).map Sent.hash) =
      as.filter (fun a => f a ∈ sent.map Sent.hash) := by
    refine List.filter_congr fun b hb => ?_
    have hne : f b ≠ s.hash := fun heq => fresh (heq ▸ ha b hb)
    rw [List.map_append, List.map_singleton, decide_eq_decide, List.mem_append, List.mem_singleton]
    exact or_iff_left hne
  have hnew : [a].filter (fun a => f a ∈ (sent ++ [s]).map Sent.hash) = [a] := by
    simp [hs]
  rw [List.filter_append, hold, hnew]

theorem refs_eq (h : Woven sent l) :
    (l.filter (·.hash ∈ sent.map Sent.hash)).map (·.ref) = sent.map (·.ref) := by
  induction h with
  | start l =>
    rw [List.filter_eq_nil_iff.2 (by simp)]
    rfl
  | @other sent l e before fresh ih =>
    have hnot : e.hash ∉ sent.map Sent.hash := fun hm => fresh (before.hashes_subset hm)
    rw [List.filter_append, List.filter_cons_of_neg (by simpa using hnot), List.filter_nil,
      List.append_nil, ih]
  | @message sent l e before fresh payload ih =>
    rw [filter_message (fun a ha => List.mem_map_of_mem ha) fresh rfl, List.map_append, ih,
      List.map_append, List.map_singleton, List.map_singleton]

/-- No item of another entry is about one of the messages. -/
theorem filter_list_other [Suite] (h : Woven sent l) (fresh : e.hash ∉ l.map (·.hash))
    (reader : Log.Reader) (keys : ChainKeys) :
    (Message.list reader keys [e]).1.filter (fun item => item.entry ∈ sent.map Sent.hash) = [] := by
  refine List.filter_eq_nil_iff.2 fun item hi => ?_
  have hentry := List.mem_singleton.1 (Message.entry_mem_of_mem_list hi)
  rw [decide_eq_true_eq, hentry]
  exact fun hm => fresh (h.hashes_subset hm)

end Woven

/-- A log in which the messages of a chain stand in order, each under a hash of its own, among
whatever else was there or was added. -/
inductive Interleaved (reader : Log.Reader) (sender : PublicKey) (origin : ChainKey) :
    List Sent → List Log.Entry → Prop
  | start (l : List Log.Entry) : Interleaved reader sender origin [] l
  | other {sent : List Sent} {l : List Log.Entry} {e : Log.Entry}
      (before : Interleaved reader sender origin sent l) (fresh : e.hash ∉ l.map (·.hash)) :
      Interleaved reader sender origin sent (l ++ [e])
  | message {sent : List Sent} {l : List Log.Entry} {e : Log.Entry} {payload : Bytes}
      (before : Interleaved reader sender origin sent l) (fresh : e.hash ∉ l.map (·.hash))
      (carries : reader.Carries sender (origin.advance sent.length) payload e) :
      Interleaved reader sender origin (sent ++ [⟨e.ref, payload⟩]) (l ++ [e])

namespace Interleaved

variable {sender : PublicKey} {origin : ChainKey} {sent : List Sent} {l : List Log.Entry}
  {keys : ChainKeys} {known : Nat}

theorem woven (h : Interleaved reader sender origin sent l) : Woven sent l := by
  induction h with
  | start l => exact .start l
  | other before fresh ih => exact ih.other fresh
  | message before fresh carries ih => exact ih.message fresh _

theorem nodup_hashes (h : Interleaved reader sender origin sent l) :
    (sent.map Sent.hash).Nodup :=
  h.woven.nodup_hashes

theorem refs_eq (h : Interleaved reader sender origin sent l) :
    (l.filter (·.hash ∈ sent.map Sent.hash)).map (·.ref) = sent.map (·.ref) :=
  h.woven.refs_eq

/-- What was sent stands at a position of its own. -/
theorem exists_carries (h : Interleaved reader sender origin sent l) (he : e ∈ l)
    (hs : e.hash ∈ sent.map Sent.hash) :
    ∃ place payload, place < sent.length ∧
      reader.Carries sender (origin.advance place) payload e := by
  induction h with
  | start l => cases hs
  | other before fresh ih =>
    rcases List.mem_append.1 he with he | he
    · exact ih he hs
    · rw [List.mem_singleton.1 he] at hs
      exact absurd (before.woven.hashes_subset hs) fresh
  | @message sent l new payload before fresh carries ih =>
    rw [List.length_append, List.length_singleton]
    rcases List.mem_append.1 he with he | he
    · have hne : e.hash ≠ new.hash := fun heq => fresh (heq ▸ List.mem_map_of_mem he)
      rw [List.map_append, List.map_singleton, List.mem_append, List.mem_singleton] at hs
      obtain ⟨place, payload, hlt, hcarries⟩ := ih he (hs.resolve_right hne)
      exact ⟨place, payload, Nat.lt_succ_of_lt hlt, hcarries⟩
    · rw [List.mem_singleton.1 he]
      exact ⟨sent.length, payload, Nat.lt_succ_self _, carries⟩

theorem not_carries (h : Interleaved reader sender origin sent l) (he : e ∈ l)
    (hs : e.hash ∈ sent.map Sent.hash)
    (room : origin.counter.toNat + sent.length < UInt64.size) :
    ¬ reader.Carries sender (origin.advance sent.length) payload e := by
  intro hnext
  obtain ⟨place, payload, hlt, hcarries⟩ := h.exists_carries he hs
  have hcounter := congrArg UInt64.toNat (hcarries.counter_eq hnext)
  rw [ChainKey.toNat_counter_advance (by omega), ChainKey.toNat_counter_advance room] at hcounter
  omega

/-- A reader that holds the chain sees every message as it should, and is at most one position
behind the next one. -/
theorem filter_list_eq (enc : Suite.EncryptionLaw) (h : Interleaved reader sender origin sent l)
    (hk : keys.Holds sender (origin.advance known)) (skip : 1 ≤ keys.maxSkipped)
    (hknown : origin.counter.toNat + known < UInt64.size)
    (room : origin.counter.toNat + sent.length < UInt64.size) :
    (Message.list reader keys l).1.filter (fun item => item.entry ∈ sent.map Sent.hash) =
        sent.mapIdx (Sent.item sender origin.counter known) ∧
      ∃ h, sent.length ≤ known + h + 1 ∧
        (Message.list reader keys l).2.Reads sender (origin.advance known) h := by
  induction h with
  | start l =>
    have hholds : (Message.list reader keys l).2.Holds sender (origin.advance known) :=
      Message.holds_list hk
    obtain ⟨h, hreads⟩ := hholds.reads
    exact ⟨List.filter_eq_nil_iff.2 (by simp), h, Nat.zero_le _, hreads⟩
  | @other sent l e before fresh ih =>
    obtain ⟨hitems, h, hready, hreads⟩ := ih room
    rw [Message.list_append]
    refine ⟨?_, ?_⟩
    · rw [List.filter_append, hitems, before.woven.filter_list_other fresh, List.append_nil]
    · have hlater : ∃ h', h ≤ h' ∧ (Message.list reader (Message.list reader keys l).2 [e]).2.Reads
          sender (origin.advance known) h' := Message.reads_list hreads
      obtain ⟨h', hle, hreads'⟩ := hlater
      exact ⟨h', by omega, hreads'⟩
  | @message sent l e payload before fresh carries ih =>
    have hroom : origin.counter.toNat + sent.length + 1 < UInt64.size := by
      simpa only [List.length_append, List.length_singleton, Nat.add_assoc] using room
    obtain ⟨hitems, h, hready, hreads⟩ := ih (by omega)
    rw [← Message.maxSkipped_list reader keys l] at skip
    obtain ⟨hitem, h', hle, hreads'⟩ := Message.list_carried enc carries hreads skip hready hknown
      (by omega)
    rw [Message.list_append]
    refine ⟨?_, h', by rw [List.length_append, List.length_singleton]; omega, hreads'⟩
    rw [hitem, Woven.filter_message (fun _ hi => Message.entry_mem_of_mem_list hi) fresh
      (Sent.entry_item _ _ _ _ _), hitems, List.mapIdx_concat]

end Interleaved

end SecureGroup
