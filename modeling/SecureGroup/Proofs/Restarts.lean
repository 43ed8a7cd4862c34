import Mathlib.Data.List.Perm.Subperm
import SecureGroup.Session
import SecureGroup.Proofs.Lapses
import SecureGroup.Proofs.Secrets

/-!
# Chains across restarts

A device that is opened again goes on with the chain that it used before: it starts from the origin
of the chain and moves past every position that the message log shows as used by it
(`Replica.OnChain.resume`).  What is in the log that is no message of the device on this chain does
not count, and neither do messages that were composed and did not come to the log.  Since a message
takes its position before it is sealed, messages on their way hold positions of their own
(`Session.Kept`), and no step of a session uses a position again (`Session.Kept.step`).  So the log
never shows two messages of the device at one position of its chain, however often the device was
opened (`Session.Runs.used_nodup`).
-/

namespace SecureGroup

variable [Suite]

/-! ## Positions of a chain -/

namespace Message

variable {reader : Log.Reader} {device : PublicKey} {chainId : UInt64}
  {e e' : Log.Entry} {keys keys' : ChainKeys} {payload body : Bytes} {n n' : Entropy}

/-- What comes after an entry is the position after its own. -/
theorem nextAfter?_eq (reader : Log.Reader) (device : PublicKey) (chainId : UInt64)
    (e : Log.Entry) :
    nextAfter? reader device chainId e = (position? reader device chainId e).map (· + 1) := by
  unfold nextAfter? position? Body.position?
  cases reader.read e with
  | error cause => rfl
  | ok opened =>
    dsimp only
    by_cases hsender : opened.sender = device
    · rw [if_neg (by exact fun hne => hne hsender), if_pos hsender]
      cases Body.codec.read opened.payload with
      | error fault => rfl
      | ok body =>
        dsimp only
        split <;> rfl
    · rw [if_pos hsender, if_neg hsender]
      rfl

theorem foreign_iff :
    reader.Foreign device chainId e ↔ position? reader device chainId e = none := by
  rw [Log.Reader.Foreign, nextAfter?_eq, Option.map_eq_none_iff]

/-- The position of an entry depends on its octets. -/
theorem position?_congr (h : e.payload = e'.payload) :
    position? reader device chainId e = position? reader device chainId e' := by
  unfold position? Log.Reader.read
  rw [h]
  simp only [bind, Except.bind]
  cases Envelope.ofBytes e'.payload with
  | error cause => rfl
  | ok envelope =>
    dsimp only
    cases envelope.reveal reader.address.group reader.key <;> rfl

/-- What is composed names the next position of the sending chain. -/
theorem position?_of_compose (composed : compose keys payload n = ((body, keys'), n'))
    (fits : body.length < UInt64.size) :
    Body.position? keys.own.chainId body = some keys.own.counter := by
  have hbody : Body.codec.encode ⟨keys.own.chainId, keys.own.counter,
      SecretBox.sealWith keys.own.messageKey (Draw.octets 12 n).1 payload⟩ = body :=
    congrArg (·.1.1) composed
  subst hbody
  have hbox := Nat.lt_of_le_of_lt (Body.length_box_le _) fits
  rw [Body.position?, Body.faithful_codec.read_encode hbox]
  exact if_pos rfl

/-- What is sealed has the position that its body names. -/
theorem position?_sealWith (sig : Suite.SignatureLaw) (enc : Suite.EncryptionLaw)
    {b : Log.Binding} {own : PrivateKey} {nonce : Octets 12}
    (he : e.payload = (b.sealWith own body nonce).1) (fits : e.payload.length < UInt64.size) :
    position? b.toReader own.pub chainId e = Body.position? chainId body := by
  rw [position?, Log.Binding.read_sealWith sig enc he fits]
  exact if_pos rfl

end Message

/-! ## The sending chain -/

namespace ChainKey

/-- A chain that is moved to a position is there or further. -/
theorem toNat_counter_advanceTo (c : ChainKey) (counter : UInt64) :
    (c.advanceTo counter).counter.toNat = max c.counter.toNat counter.toNat := by
  have hlt := counter.toNat_lt
  have hlt' := c.counter.toNat_lt
  rw [advanceTo, toNat_counter_advance (by unfold UInt64.size; omega)]
  omega

end ChainKey

namespace ChainKeys

/-- The keys of a device that sends on a chain: they know the chain from its origin on, and have
come to some position from there. -/
structure Along (device : PublicKey) (origin : ChainKey) (k : ChainKeys) : Prop where
  ownDevice : k.ownDevice = device
  first : k.first? device origin.chainId = some origin
  own : ∃ d, origin.counter.toNat + d < UInt64.size ∧ k.own = origin.advance d

variable {device other : PublicKey} {origin chain : ChainKey} {k : ChainKeys}

omit [Suite] in
theorem ownDevice_register (k : ChainKeys) (device : PublicKey) (chain : ChainKey) :
    (k.register device chain).2.ownDevice = k.ownDevice := by
  unfold register
  dsimp only
  split
  · split <;> rfl
  · rfl

theorem ownDevice_messageKey (k : ChainKeys) (device : PublicKey) (chainId counter : UInt64) :
    (k.messageKey device chainId counter).2.ownDevice = k.ownDevice := by
  unfold messageKey
  split <;> rfl

theorem along_ofChain (device : PublicKey) (chain : ChainKey) (maxSkipped : Nat) :
    (ofChain device chain maxSkipped).Along device chain where
  ownDevice := rfl
  first := by
    rw [first?, ratchet?, ofChain, Table.get?_put_self]
    rfl
  own := ⟨0, chain.counter.toNat_lt, rfl⟩

namespace Along

theorem chainId_eq (h : k.Along device origin) : k.own.chainId = origin.chainId := by
  obtain ⟨d, -, hown⟩ := h.own
  rw [hown, ChainKey.chainId_advance]

theorem origin_eq (h : k.Along device origin) : k.origin = origin := by
  obtain ⟨r, hr, hfirst⟩ := Option.map_eq_some_iff.1 h.first
  rw [ChainKeys.origin, h.ownDevice, h.chainId_eq, hr]
  exact hfirst

theorem le_own (h : k.Along device origin) : origin.counter.toNat ≤ k.own.counter.toNat := by
  obtain ⟨d, hd, hown⟩ := h.own
  rw [hown, ChainKey.toNat_counter_advance hd]
  exact Nat.le_add_right _ d

theorem nextOwn (h : k.Along device origin) (room : k.own.counter.toNat + 1 < UInt64.size) :
    k.nextOwn.2.Along device origin where
  ownDevice := h.ownDevice
  first := h.first
  own := by
    obtain ⟨d, hd, hown⟩ := h.own
    rw [hown, ChainKey.toNat_counter_advance hd] at room
    refine ⟨d + 1, room, ?_⟩
    rw [← ChainKey.next_advance, ← hown]
    rfl

theorem skipOwnTo (h : k.Along device origin) (counter : UInt64) :
    (k.skipOwnTo counter).Along device origin where
  ownDevice := h.ownDevice
  first := h.first
  own := by
    obtain ⟨d, hd, hown⟩ := h.own
    have hcounter := ChainKey.toNat_counter_advanceTo k.own counter
    have hlt := counter.toNat_lt
    have hat : k.own.counter.toNat = origin.counter.toNat + d := by
      rw [hown, ChainKey.toNat_counter_advance hd]
    unfold UInt64.size at hd
    refine ⟨d + (counter.toNat - k.own.counter.toNat), by unfold UInt64.size; omega, ?_⟩
    rw [ChainKey.advance_add, ← hown]
    rfl

theorem messageKey (h : k.Along device origin) (other : PublicKey) (id counter : UInt64) :
    (k.messageKey other id counter).2.Along device origin where
  ownDevice := (k.ownDevice_messageKey other id counter).trans h.ownDevice
  first := ((Uses.reads k other id counter).first? device origin.chainId).trans h.first
  own := by
    rw [own_messageKey]
    exact h.own

theorem register (h : k.Along device origin)
    (hne : (other, chain.chainId) ≠ (device, k.own.chainId)) :
    (k.register other chain).2.Along device origin where
  ownDevice := (k.ownDevice_register other chain).trans h.ownDevice
  first := by
    rw [h.chainId_eq] at hne
    rw [first?_register, if_neg hne.symm, h.first]
  own := by
    rw [own_register]
    exact h.own

end Along

end ChainKeys

/-- All that a batch does to the keys is to learn chains other than the one on which the local
device sends. -/
theorem Metadata.Index.keys_update {self : Participant} {reader : Log.Reader}
    {log : List Log.Entry} {i : Metadata.Index} {P : ChainKeys → Prop}
    (hi : i.Tidy self reader log) (hP : P i.state.keys)
    (register : ∀ (k : ChainKeys) author (chain : ChainKey), P k →
      (author, chain.chainId) ≠ (self.ids.device, k.own.chainId) → P (k.register author chain).2)
    (entries : List Log.Entry) : P (i.update self reader entries).index.state.keys := by
  have hmono := hi.mono fun e he => List.mem_append_left entries he
  have hmoves := (moves_update hmono fun e he => List.mem_append_right log he).1
  generalize (i.update self reader entries).index = j at hmoves
  generalize (i.update self reader entries).notices = told at hmoves
  induction hmoves with
  | refl => exact hP
  | @snoc j k told more before last ih =>
    cases last with
    | invalid mem fresh opens invalid => exact ih
    | @tried _ c _ offered fresh tries =>
      rw [tries.state_eq, State.keys_step]
      split
      · next chain _ =>
        split
        · exact ih
        · next hother =>
          refine register _ _ _ ih fun heq => hother ?_
          exact Prod.mk.inj heq
      · exact ih

/-! ## Opening a replica -/

omit [Suite] in
theorem Message.le_foldl_max {l : List UInt64} {n start : UInt64} (h : n = start ∨ n ∈ l) :
    n.toNat ≤ (l.foldl max start).toNat := by
  induction l generalizing start n with
  | nil => simp_all
  | cons m rest ih =>
    rw [List.foldl_cons]
    have hmax := UInt64.toNat_max start m
    rcases h with rfl | h
    · have := ih (Or.inl (Eq.refl (max n m)))
      omega
    · rcases List.mem_cons.1 h with rfl | h
      · have := ih (Or.inl (Eq.refl (max start n)))
        omega
      · exact ih (Or.inr h)

namespace Log.Store

omit [Suite] in
theorem entries_listen (s : Store) (a b : Address) : (s.listen a).2.entries b = s.entries b := by
  rw [entries, feed_listen, entries]

end Log.Store

/-- What is handed to the store is added, or nothing happens because it takes too long. -/
theorem Log.Binding.submit_cases (b : Log.Binding) (s : Log.Store) (octets : Bytes) :
    (b.submit s octets).2 = s ∨ (b.submit s octets).2 = (s.commit b.address octets).2 := by
  unfold submit
  split
  · exact Or.inr rfl
  · exact Or.inl rfl

namespace Replica

/-- A replica of a group that sends with a device on a chain. -/
structure OnChain (group : Group) (device : PrivateKey) (origin : ChainKey) (r : Replica) :
    Prop where
  owner : r.self.own.device = device
  reader : r.messages.toReader = .of group .messages
  tidy : ∃ log, r.index.Tidy r.self r.metadata.toReader log
  keys : r.keys.Along device.pub origin

variable {group : Group} {device : PrivateKey} {origin chain : ChainKey} {r : Replica}
  {store : Log.Store}

namespace OnChain

theorem withKeys {keys : ChainKeys} (h : r.OnChain group device origin)
    (along : keys.Along device.pub origin) : (r.withKeys keys).OnChain group device origin where
  owner := h.owner
  reader := h.reader
  tidy := by
    obtain ⟨log, htidy⟩ := h.tidy
    exact ⟨log, htidy.nodup, htidy.offered, htidy.opened⟩
  keys := along

theorem device_eq (h : r.OnChain group device origin) : r.self.ids.device = device.pub := by
  rw [r.self.ids_eq, OwnKeys.pub, h.owner]

/-- No batch of the metadata log changes the chain on which the device sends. -/
theorem update (h : r.OnChain group device origin) (entries : List Log.Entry) :
    (r.update entries).2.OnChain group device origin := by
  obtain ⟨log, htidy⟩ := h.tidy
  refine ⟨h.owner, h.reader, ⟨log ++ entries, ?_⟩, ?_⟩
  · have hmono := htidy.mono fun e he => List.mem_append_left entries he
    exact (Metadata.Index.moves_update hmono fun e he => List.mem_append_right log he).1.tidy hmono
  · refine Metadata.Index.keys_update (P := (·.Along device.pub origin)) htidy h.keys ?_ entries
    intro k author chain hk hother
    rw [h.device_eq] at hother
    exact hk.register hother

theorem own_update (h : r.OnChain group device origin) (entries : List Log.Entry) :
    (r.update entries).2.keys.own = r.keys.own := by
  obtain ⟨log, htidy⟩ := h.tidy
  exact Metadata.Index.keys_update (P := (·.own = r.keys.own)) htidy rfl
    (fun k author chain hk _ => (k.own_register author chain).trans hk) entries

theorem replay (h : r.OnChain group device origin) (entries : List Log.Entry) :
    (r.replay entries).OnChain group device origin := by
  unfold Replica.replay
  generalize chunks r.settings.batchSize entries = batches
  induction batches generalizing r with
  | nil => exact h
  | cons batch rest ih => exact ih (h.update batch)

theorem attend (h : r.OnChain group device origin) (store : Log.Store) :
    (r.attend store).1.OnChain group device origin ∧
      ∀ a, (r.attend store).2.entries a = store.entries a := by
  constructor
  · have hheard : OnChain group device origin
        { r with
          heardMetadata := (store.listen r.metadata.address).1
          heardMessages := ((store.listen r.metadata.address).2.listen r.messages.address).1 } :=
      ⟨h.owner, h.reader, h.tidy, h.keys⟩
    exact hheard.replay _
  · intro a
    show ((store.listen _).2.listen _).2.entries a = store.entries a
    rw [Log.Store.entries_listen, Log.Store.entries_listen]

theorem fresh (group : Group) (own : OwnKeys) (settings : Settings) (custody : Custody)
    (chain : ChainKey) :
    (Replica.fresh (.of group own) settings custody
      (.ofChain own.device.pub chain settings.maxSkippedKeys)).OnChain group own.device chain where
  owner := rfl
  reader := rfl
  tidy := ⟨[], Metadata.Index.tidy_empty _⟩
  keys := ChainKeys.along_ofChain _ _ _

theorem resume (h : r.OnChain group device origin) (store : Log.Store) :
    (r.resume store).OnChain group device origin ∧
      ∀ e ∈ store.entries r.messages.address, ∀ n,
        Message.position? (.of group .messages) device.pub origin.chainId e = some n →
          n.toNat + 1 < UInt64.size → n.toNat < (r.resume store).keys.own.counter.toNat := by
  refine ⟨h.withKeys (h.keys.skipOwnTo _), fun e he n hn room => ?_⟩
  have hnext : Message.nextAfter? r.messages.toReader r.keys.ownDevice r.keys.own.chainId e =
      some (n + 1) := by
    rw [Message.nextAfter?_eq, h.reader, h.keys.ownDevice, h.keys.chainId_eq, hn]
    rfl
  have hle : (n + 1).toNat ≤ (((store.entries r.messages.address).filterMap (Message.nextAfter?
      r.messages.toReader r.keys.ownDevice r.keys.own.chainId)).foldl max 0).toNat :=
    Message.le_foldl_max (Or.inr (List.mem_filterMap.2 ⟨e, he, hnext⟩))
  have hone : (n + 1).toNat = n.toNat + 1 := by
    rw [UInt64.toNat_add]
    exact Nat.mod_eq_of_lt room
  show n.toNat < (r.keys.own.advanceTo _).counter.toNat
  rw [ChainKey.toNat_counter_advanceTo]
  omega

section Launch

variable {own : OwnKeys} {settings : Settings} {given : Option ChainKey} {now : Timestamp}
  {draw : Draw (Replica × Log.Store)}

/-- How a replica is opened: it reads the membership log, and goes on with a chain that it is given
or sends on a fresh one. -/
theorem launch_cases (launched : Replica.launch group own settings given now store = .ok draw)
    (n : Entropy) :
    ∃ custody chain, let attended := (Replica.fresh (.of group own) settings custody
        (.ofChain own.device.pub chain settings.maxSkippedKeys)).attend store
      (draw n).1.2 = attended.2 ∧ (given = none ∧ (draw n).1.1 = attended.1 ∨
        given = some chain ∧ (draw n).1.1 = attended.1.resume attended.2) := by
  rw [Replica.launch, bind_eq_ok_iff] at launched
  obtain ⟨-, -, launched⟩ := launched
  rw [bind_eq_ok_iff] at launched
  obtain ⟨custody, -, launched⟩ := launched
  cases given with
  | none =>
    obtain rfl := Except.ok.inj launched
    exact ⟨custody, (ChainKey.generate n).1, rfl, Or.inl ⟨rfl, rfl⟩⟩
  | some chain =>
    obtain rfl := Except.ok.inj launched
    exact ⟨custody, chain, rfl, Or.inr ⟨rfl, rfl⟩⟩

/-- A replica that is opened sends on a chain.  If it is given one, it goes on with it past every
position that the log shows. -/
theorem launch (launched : Replica.launch group own settings given now store = .ok draw)
    (n : Entropy) :
    (∀ a, (draw n).1.2.entries a = store.entries a) ∧
      ∃ origin, (draw n).1.1.OnChain group own.device origin ∧
        ∀ chain, given = some chain → chain = origin ∧
          ∀ e ∈ store.entries (Log.Reader.of group .messages).address, ∀ m,
            Message.position? (.of group .messages) own.device.pub origin.chainId e = some m →
              m.toNat + 1 < UInt64.size → m.toNat < (draw n).1.1.keys.own.counter.toNat := by
  obtain ⟨custody, origin, hstore, hcases⟩ := launch_cases launched n
  obtain ⟨hr, hentries⟩ := (fresh group own settings custody origin).attend store
  rw [hstore]
  rcases hcases with ⟨rfl, hreplica⟩ | ⟨rfl, hreplica⟩
  · rw [hreplica]
    exact ⟨hentries, origin, hr, fun chain hchain => by cases hchain⟩
  · rw [hreplica]
    obtain ⟨hresumed, hpast⟩ := hr.resume _
    rw [hentries, hr.reader] at hpast
    exact ⟨hentries, origin, hresumed, fun chain hchain =>
      ⟨(Option.some.inj hchain).symm, hpast⟩⟩

end Launch

end OnChain

end Replica

/-! ## Sessions -/

namespace Session

/-- The device sends on its chain, no position is used twice, and every position that is used in the
log or by a message on its way is before the next one. -/
structure Kept (group : Group) (device : PrivateKey) (origin : ChainKey) (s : Session) :
    Prop where
  onChain : s.replica.OnChain group device origin
  nodup : (s.used group device.pub origin.chainId ++
    s.underway group device.pub origin.chainId).Nodup
  lt_next : ∀ n ∈ s.used group device.pub origin.chainId ++
    s.underway group device.pub origin.chainId, n.toNat < s.replica.keys.own.counter.toNat

variable {group : Group} {device : PrivateKey} {origin : ChainKey} {s s' : Session}

omit [Suite] in
theorem filterMap_middle {α β : Type} (f : α → Option β) (before rest : List α) (a : α) :
    (before ++ a :: rest).filterMap f =
      before.filterMap f ++ ((f a).toList ++ rest.filterMap f) := by
  rw [List.filterMap_append, List.filterMap_cons]
  cases f a <;> rfl

/-- Adding octets to the message log adds their position, if they have one, or nothing. -/
theorem used_commit (group : Group) (own : PublicKey) (chainId : UInt64) (s : Session)
    (octets : Bytes) :
    let s' := { s with
      store := (s.store.commit (Log.Reader.of group .messages).address octets).2 }
    s'.used group own chainId = s.used group own chainId ∨
      s'.used group own chainId = s.used group own chainId ++
        (Message.position? (.of group .messages) own chainId (.at 0 octets)).toList := by
  intro s'
  rcases s.store.commit_cases (Log.Reader.of group .messages).address octets with
    ⟨-, -, -, hsame⟩ | ⟨-, -, hnew⟩
  · exact Or.inl (congrArg (List.filterMap _) hsame)
  · refine Or.inr ?_
    have hpayload : (Log.Entry.at (s.store.entries (Log.Reader.of group .messages).address).length
        octets).payload = (Log.Entry.at 0 octets).payload := rfl
    rw [used, used, hnew, filterMap_middle, List.filterMap_nil, List.append_nil,
      Message.position?_congr hpayload]

namespace Kept

/-- What uses no new position and leaves the sending chain as it is. -/
theorem of_subperm (h : s.Kept group device origin)
    (onChain : s'.replica.OnChain group device origin)
    (own : s'.replica.keys.own = s.replica.keys.own)
    (sub : (s'.used group device.pub origin.chainId ++
        s'.underway group device.pub origin.chainId).Subperm
      (s.used group device.pub origin.chainId ++ s.underway group device.pub origin.chainId)) :
    s'.Kept group device origin where
  onChain := onChain
  nodup := by
    obtain ⟨l, hperm, hsub⟩ := sub
    exact hperm.nodup_iff.1 (h.nodup.sublist hsub)
  lt_next n hn := by
    rw [own]
    exact h.lt_next n (sub.subset hn)

/-- What changes neither the positions that are used nor the sending chain. -/
theorem of_same (h : s.Kept group device origin)
    (onChain : s'.replica.OnChain group device origin)
    (own : s'.replica.keys.own = s.replica.keys.own)
    (used : s'.used group device.pub origin.chainId = s.used group device.pub origin.chainId)
    (underway : s'.underway group device.pub origin.chainId =
      s.underway group device.pub origin.chainId) : s'.Kept group device origin := by
  refine h.of_subperm onChain own ?_
  rw [used, underway]

/-- A message takes a position after all that are used. -/
theorem compose {payload body : Bytes} {keys : ChainKeys} {n n' : Entropy}
    (h : s.Kept group device origin)
    (composed : Message.compose s.replica.keys payload n = ((body, keys), n'))
    (room : s.replica.keys.own.counter.toNat + 1 < UInt64.size)
    (fits : body.length < UInt64.size) :
    Kept group device origin { s with
      replica := s.replica.withKeys keys
      pending := .composed body :: s.pending } := by
  have hkeys : keys = s.replica.keys.nextOwn.2 := Message.keys_of_compose composed
  have hposition := Message.position?_of_compose composed fits
  rw [h.onChain.keys.chainId_eq] at hposition
  have hnext : keys.own.counter.toNat = s.replica.keys.own.counter.toNat + 1 := by
    rw [hkeys]
    exact ChainKey.toNat_counter_advance (n := 1) room
  have hperm : (s.used group device.pub origin.chainId ++
      Session.underway group device.pub origin.chainId { s with
        replica := s.replica.withKeys keys
        pending := .composed body :: s.pending }).Perm
      (s.replica.keys.own.counter :: (s.used group device.pub origin.chainId ++
        s.underway group device.pub origin.chainId)) := by
    show (s.used group device.pub origin.chainId ++ List.filterMap
      (Pending.position? (.of group .messages) device.pub origin.chainId)
      (.composed body :: s.pending)).Perm _
    rw [List.filterMap_cons_some (by exact hposition)]
    exact List.perm_middle
  refine ⟨h.onChain.withKeys (hkeys ▸ h.onChain.keys.nextOwn room), ?_, fun m hm => ?_⟩
  · refine hperm.nodup_iff.2 (List.nodup_cons.2 ⟨fun hm => ?_, h.nodup⟩)
    exact Nat.lt_irrefl _ (h.lt_next _ hm)
  · show m.toNat < keys.own.counter.toNat
    rw [hnext]
    rcases List.mem_cons.1 (hperm.mem_iff.1 hm) with rfl | hm
    · exact Nat.lt_succ_self _
    · exact Nat.lt_succ_of_lt (h.lt_next m hm)

/-- A message is not on its way any more, and has not come to the log. -/
theorem drop {before rest : List Pending} {p : Pending} (h : s.Kept group device origin)
    (among : s.pending = before ++ p :: rest) :
    Kept group device origin { s with pending := before ++ rest } := by
  have hsub : (before ++ rest).Sublist s.pending := by
    rw [among]
    exact List.Sublist.append_left (List.sublist_cons_self p rest) before
  exact h.of_subperm h.onChain rfl ((hsub.filterMap _).append_left _).subperm

/-- A message that is sealed keeps its position. -/
theorem sealEntry (sig : Suite.SignatureLaw) (enc : Suite.EncryptionLaw)
    {before rest : List Pending} {body octets : Bytes} {binding : Log.Binding} {n n' : Entropy}
    (h : s.Kept group device origin) (among : s.pending = before ++ .composed body :: rest)
    (sealed : s.replica.messages.sealEntry s.replica.self.own.device body n =
      ((octets, binding), n'))
    (fits : octets.length < UInt64.size) :
    Kept group device origin { s with
      replica := { s.replica with messages := binding }
      pending := before ++ .sealed octets :: rest } := by
  have hoctets : octets = (s.replica.messages.sealWith device body (Draw.octets 12 n).1).1 := by
    rw [← h.onChain.owner]
    exact (congrArg (·.1.1) sealed).symm
  have hbinding : binding.toReader = s.replica.messages.toReader :=
    (congrArg (·.1.2.toReader) sealed).symm
  have hposition : Message.position? s.replica.messages.toReader device.pub origin.chainId
      (.at 0 octets) = Message.Body.position? origin.chainId body :=
    Message.position?_sealWith sig enc hoctets fits
  rw [h.onChain.reader] at hposition
  have hsame : Session.underway group device.pub origin.chainId { s with
      replica := { s.replica with messages := binding }
      pending := before ++ .sealed octets :: rest } =
      s.underway group device.pub origin.chainId := by
    simp only [underway, among, List.filterMap_append, List.filterMap_cons, Pending.position?,
      hposition]
  exact h.of_same ⟨h.onChain.owner, hbinding.trans h.onChain.reader, h.onChain.tidy,
    h.onChain.keys⟩ rfl rfl hsame

/-- A message that is handed to the store comes to the log with its position, or is dropped. -/
theorem submit {before rest : List Pending} {octets : Bytes} (h : s.Kept group device origin)
    (among : s.pending = before ++ .sealed octets :: rest) :
    Kept group device origin { s with
      store := (s.replica.messages.submit s.store octets).2
      pending := before ++ rest } := by
  have hdropped := h.drop among
  rcases s.replica.messages.submit_cases s.store octets with hstore | hstore
  · rw [hstore]
    exact hdropped
  rw [hstore, congrArg Log.Reader.address h.onChain.reader]
  rcases used_commit group device.pub origin.chainId s octets with hused | hused
  · exact hdropped.of_same h.onChain rfl hused rfl
  · -- the position is used now, and is not on its way any more
    refine h.of_subperm h.onChain rfl (List.Perm.subperm ?_)
    show (used group device.pub origin.chainId { s with store := _ } ++
      (before ++ rest).filterMap _).Perm (_ ++ s.pending.filterMap _)
    rw [hused, among, filterMap_middle, List.filterMap_append, List.append_assoc]
    exact List.Perm.append_left _ (List.perm_append_comm_assoc _ _ _)

/-- What others add is at no position of the chain. -/
theorem added {octets : Bytes} (h : s.Kept group device origin)
    (foreign : ∀ e : Log.Entry, e.payload = octets → s.replica.messages.toReader.Foreign
      s.replica.self.own.device.pub s.replica.keys.own.chainId e) :
    Kept group device origin
      { s with store := (s.store.commit s.replica.messages.address octets).2 } := by
  have hposition := Message.foreign_iff.1 (foreign (.at 0 octets) rfl)
  rw [h.onChain.reader, h.onChain.owner, h.onChain.keys.chainId_eq] at hposition
  rw [congrArg Log.Reader.address h.onChain.reader]
  have hused := used_commit group device.pub origin.chainId s octets
  rw [hposition, Option.toList_none, List.append_nil, or_self] at hused
  exact h.of_same h.onChain rfl hused rfl

theorem step (sig : Suite.SignatureLaw) (enc : Suite.EncryptionLaw)
    (h : s.Kept group device origin) (last : Step s s') : s'.Kept group device origin := by
  cases last with
  | compose composed room fits => exact h.compose composed room fits
  | refuse before rest among closed => exact h.drop among
  | sealEntry before rest among opened sealed fits => exact h.sealEntry sig enc among sealed fits
  | submit before rest among => exact h.submit among
  | update entries =>
    exact h.of_same (h.onChain.update entries) (h.onChain.own_update entries) rfl rfl
  | lookUp other chainId counter =>
    exact h.of_same (h.onChain.withKeys (h.onChain.keys.messageKey other chainId counter))
      (ChainKeys.own_messageKey _ _ _ _) rfl rfl
  | added foreign => exact h.added foreign
  | aside index self metadata messages entries pending =>
    have hkeys : s'.replica.keys = s.replica.keys := congrArg (·.state.keys) index
    rw [congrArg Log.Reader.address h.onChain.reader] at entries
    refine h.of_same ⟨?_, messages.trans h.onChain.reader, ?_, ?_⟩ ?_ ?_ ?_
    · rw [self]
      exact h.onChain.owner
    · rw [index, self, metadata]
      exact h.onChain.tidy
    · rw [hkeys]
      exact h.onChain.keys
    · rw [hkeys]
    · rw [used, used, entries]
    · rw [underway, underway, pending]

section Launch

variable {own : OwnKeys} {settings : Settings} {given : Option ChainKey} {now : Timestamp}
  {store : Log.Store} {draw : Draw (Replica × Log.Store)}

/-- A session that is opened over a log without messages on its chain. -/
theorem start (launched : Replica.launch group own settings given now store = .ok draw)
    (n : Entropy) (start : (ofDraw draw n).replica.keys.origin = origin)
    (foreign : ∀ e ∈ store.entries (Log.Reader.of group .messages).address,
      (Log.Reader.of group .messages).Foreign own.device.pub origin.chainId e) :
    Kept group own.device origin (ofDraw draw n) := by
  obtain ⟨hentries, origin', hr, -⟩ := Replica.OnChain.launch launched n
  obtain rfl : origin' = origin := hr.keys.origin_eq.symm.trans start
  have hnone : (ofDraw draw n).used group own.device.pub origin'.chainId ++
      (ofDraw draw n).underway group own.device.pub origin'.chainId = [] := by
    rw [used, underway, ofDraw, List.filterMap_nil, List.append_nil, hentries,
      List.filterMap_eq_nil_iff]
    exact fun e he => Message.foreign_iff.1 (foreign e he)
  refine ⟨hr, hnone ▸ List.nodup_nil, fun m hm => ?_⟩
  rw [hnone] at hm
  cases hm

/-- A session that is opened again goes on after every position that is used in the log. -/
theorem reopen (h : s.Kept group own.device origin) (returned : s.pending = [])
    (launched : Replica.launch group own settings (some s.replica.keys.origin) now s.store =
      .ok draw)
    (n : Entropy) : Kept group own.device origin (ofDraw draw n) := by
  obtain ⟨hentries, origin', hr, hgiven⟩ := Replica.OnChain.launch launched n
  obtain ⟨horigin, hpast⟩ := hgiven _ rfl
  rw [h.onChain.keys.origin_eq] at horigin
  subst horigin
  have hsame : (ofDraw draw n).used group own.device.pub origin.chainId ++
      (ofDraw draw n).underway group own.device.pub origin.chainId =
      s.used group own.device.pub origin.chainId ++
        s.underway group own.device.pub origin.chainId := by
    rw [used, used, underway, underway, ofDraw, hentries, returned]
  refine ⟨hr, hsame ▸ h.nodup, fun m hm => ?_⟩
  rw [hsame] at hm
  have hlt := h.lt_next m hm
  have hsize := s.replica.keys.own.counter.toNat_lt
  rw [underway, returned, List.filterMap_nil, List.append_nil] at hm
  obtain ⟨e, he, hposition⟩ := List.mem_filterMap.1 hm
  exact hpast e he m hposition (by unfold UInt64.size; omega)

end Launch

end Kept

/-- What is kept by any run of sessions. -/
theorem Runs.kept (sig : Suite.SignatureLaw) (enc : Suite.EncryptionLaw)
    (h : Runs group device origin s) : s.Kept group device origin := by
  induction h with
  | opened n owner launched start foreign =>
    subst owner
    exact .start launched n start foreign
  | reopened n before returned owner launched ih =>
    subst owner
    exact ih.reopen returned launched n
  | step before last ih => exact ih.step sig enc last

/-- However often a device was opened on a chain, always from the origin of the chain, and however
many of its messages did not come to the log: the positions that the log shows as used by the device
on this chain are all different, and the next message comes after all of them.  The chain goes on
from the same origin each time. -/
theorem Runs.used_nodup (sig : Suite.SignatureLaw) (enc : Suite.EncryptionLaw)
    (h : Runs group device origin s) :
    (s.used group device.pub origin.chainId).Nodup ∧
      (∀ n ∈ s.used group device.pub origin.chainId, n < s.replica.keys.own.counter) ∧
      origin.counter ≤ s.replica.keys.own.counter ∧
      s.replica.keys.own.chainId = origin.chainId ∧ s.replica.keys.origin = origin := by
  have hs := h.kept sig enc
  refine ⟨hs.nodup.of_append_left, fun n hn => ?_, ?_, hs.onChain.keys.chainId_eq,
    hs.onChain.keys.origin_eq⟩
  · exact UInt64.lt_iff_toNat_lt.2 (hs.lt_next n (List.mem_append_left _ hn))
  · exact UInt64.le_iff_toNat_le.2 hs.onChain.keys.le_own

/-! ## What steps make up -/

namespace Runs

/-- A message that is sent in one call is composed, sealed and handed to the store, or refused. -/
theorem call {payload body : Bytes} {keys : ChainKeys} {result : Except Error Log.Ref}
    {binding : Log.Binding} {store : Log.Store} {n n' n'' : Entropy}
    (h : Runs group device origin s)
    (composed : Message.compose s.replica.keys payload n = ((body, keys), n'))
    (appended : s.replica.messages.append s.store s.replica.self.own.device body n' =
      ((result, binding, store), n''))
    (room : s.replica.keys.own.counter.toNat + 1 < UInt64.size)
    (fits : body.length < UInt64.size ∧
      (s.replica.messages.sealEntry s.replica.self.own.device body n').1.1.length < UInt64.size) :
    Runs group device origin
      { s with replica := { s.replica.withKeys keys with messages := binding }, store } := by
  have hcomposed := h.step (.compose composed room fits.1)
  unfold Log.Binding.append at appended
  split at appended
  · next hclosed =>
    cases appended
    exact hcomposed.step (.refuse [] s.pending rfl hclosed)
  · next hopen =>
    have hsealed := hcomposed.step (.sealEntry [] s.pending rfl (eq_false_of_ne_true hopen)
      (n := n') rfl fits.2)
    obtain rfl : (s.replica.messages.sealEntry s.replica.self.own.device body n').1.2 = binding :=
      congrArg (·.1.2.1) appended
    obtain rfl : ((s.replica.messages.sealEntry s.replica.self.own.device body n').1.2.submit
        s.store (s.replica.messages.sealEntry s.replica.self.own.device body n').1.1).2 = store :=
      congrArg (·.1.2.2) appended
    exact hsealed.step (.submit [] s.pending rfl)

/-- A listing looks keys up. -/
theorem list (h : Runs group device origin s) (entries : List Log.Entry) :
    Runs group device origin { s with
      replica := s.replica.withKeys
        (Message.list s.replica.messages.toReader s.replica.keys entries).2 } :=
  Message.list_invariant
    (P := fun keys => Runs group device origin { s with replica := s.replica.withKeys keys }) h
    fun _ other chainId counter hk => hk.step (.lookUp other chainId counter)

theorem tell (h : Runs group device origin s) (ns : List Notification) :
    Runs group device origin { s with replica := s.replica.tell ns } :=
  h.step (.aside rfl rfl rfl rfl rfl rfl)

/-- A delivery of the message log is taken by looking its key up. -/
theorem takeMessage (h : Runs group device origin s) (e : Log.Entry) :
    Runs group device origin { s with replica := s.replica.takeMessage e } := by
  have hkeys : Runs group device origin { s with
      replica := s.replica.withKeys
        (Message.decrypt s.replica.messages.toReader s.replica.keys e).2 } := by
    unfold Message.decrypt
    split
    · exact h
    · next opened _ =>
      rcases (Message.itemOf_cases s.replica.keys opened).2 with hk | ⟨other, chainId, counter, hk⟩
      · dsimp only
        rw [hk]
        exact h
      · dsimp only
        rw [hk]
        exact h.step (.lookUp other chainId counter)
  unfold Replica.takeMessage
  split
  · next hd =>
    rw [hd] at hkeys
    exact hkeys.tell _
  · next hd =>
    rw [hd] at hkeys
    exact hkeys

theorem takeMessages (h : Runs group device origin s) (f : Log.Feed) (n : Nat) :
    Runs group device origin { s with replica := s.replica.takeMessages f n } := by
  induction n generalizing s with
  | zero => exact h
  | succ n ih =>
    unfold Replica.takeMessages
    split
    · exact h
    · next heard _ =>
      exact ih (s := { s with replica := { s.replica with heardMessages := heard } })
        (h.step (.aside rfl rfl rfl rfl rfl rfl))
    · next e heard _ =>
      have hheard : Runs group device origin
          { s with replica := { s.replica with heardMessages := heard } } :=
        h.step (.aside rfl rfl rfl rfl rfl rfl)
      exact ih (hheard.takeMessage e)

theorem replay (h : Runs group device origin s) (entries : List Log.Entry) :
    Runs group device origin { s with replica := s.replica.replay entries } := by
  unfold Replica.replay
  generalize chunks s.replica.settings.batchSize entries = batches
  induction batches generalizing s with
  | nil => exact h
  | cons batch rest ih => exact ih (h.step (.update batch))

theorem takeBatch (h : Runs group device origin s) (f : Log.Feed) :
    Runs group device origin { s with replica := s.replica.takeBatch f } := by
  unfold Replica.takeBatch
  obtain ⟨batch, lost, cursor⟩ :=
    Replica.collect f.deliveries s.replica.settings.batchSize s.replica.heardMetadata
  dsimp only
  have hheard : Runs group device origin
      { s with replica := { s.replica with heardMetadata := cursor } } :=
    h.step (.aside rfl rfl rfl rfl rfl rfl)
  have hupdated : Runs group device origin { s with
      replica := if batch.isEmpty then { s.replica with heardMetadata := cursor }
        else (Replica.update { s.replica with heardMetadata := cursor } batch).2 } := by
    split
    · exact hheard
    · exact hheard.step (.update batch)
  split
  · exact hupdated.replay f.entries
  · exact hupdated

theorem takeBatches (h : Runs group device origin s) (f : Log.Feed) (n : Nat) :
    Runs group device origin { s with replica := s.replica.takeBatches f n } := by
  induction n generalizing s with
  | zero => exact h
  | succ n ih =>
    unfold Replica.takeBatches
    split
    · exact h
    · exact ih (h.takeBatch f)

/-- Reading one of the logs is taking batches, or looking keys up. -/
theorem take (h : Runs group device origin s) (kind : Log.Kind) (n : Nat) :
    Runs group device origin { s with replica := s.replica.take s.store kind n } := by
  cases kind with
  | metadata => exact h.takeBatches _ n
  | messages => exact h.takeMessages _ n

end Runs

end Session

end SecureGroup

/-! ## A device that is opened twice -/

namespace SecureGroup.Plain

attribute [local instance] Suite.plain

/-- Opens device 2 of member 1 over a store, on a chain that it used before or on a fresh one. -/
def opening (chain : Option ChainKey) (store : Log.Store) :
    Except Error (Draw (Replica × Log.Store)) :=
  Replica.launch group ⟨key 1, key 2⟩ ⟨256, 1, 16, 64⟩ chain ⟨0⟩ store

def Opens (chain : Option ChainKey) (store : Log.Store) : Prop :=
  (opening chain store).toOption.isSome = true

instance (chain : Option ChainKey) (store : Log.Store) : Decidable (Opens chain store) :=
  inferInstanceAs (Decidable ((opening chain store).toOption.isSome = true))

def session (chain : Option ChainKey) (store : Log.Store) (h : Opens chain store) : Session :=
  .ofDraw ((opening chain store).toOption.get h) zeros

theorem eq_ok_get {ε α : Type} (x : Except ε α) (h : x.toOption.isSome = true) :
    x = .ok (x.toOption.get h) := by
  cases x with
  | error cause => cases h
  | ok a => rfl

def sends (payload : Bytes) (s : Session) : Session :=
  let ((body, keys), e) := Message.compose s.replica.keys payload zeros
  let ((_, binding, store), _) :=
    s.replica.messages.append s.store s.replica.self.own.device body e
  { s with replica := { s.replica.withKeys keys with messages := binding }, store }

/-- A session in which the log takes so many milliseconds to acknowledge. -/
def waits (ms : Nat) (s : Session) : Session :=
  { s with store := { s.store with delay := some ms } }

section

variable {origin : ChainKey} {s : Session} {chain : Option ChainKey} {store : Log.Store}

/-- Opening over a log without messages starts a run. -/
theorem runs_session (h : Opens chain store)
    (start : (session chain store h).replica.keys.origin = origin)
    (foreign : store.entries (Log.Reader.of group .messages).address = []) :
    Session.Runs group (key 2) origin (session chain store h) :=
  .opened zeros rfl (eq_ok_get _ h) start (by simp [foreign])

/-- Opening again goes on with it. -/
theorem runs_session_again (before : Session.Runs group (key 2) origin s)
    (returned : s.pending = []) (h : Opens (some s.replica.keys.origin) s.store) :
    Session.Runs group (key 2) origin (session (some s.replica.keys.origin) s.store h) :=
  .reopened zeros before returned rfl (eq_ok_get _ h)

/-- Sending is a run of steps. -/
theorem runs_sends {payload : Bytes} (h : Session.Runs group (key 2) origin s)
    (room : s.replica.keys.own.counter.toNat + 1 < UInt64.size)
    (fits : (Message.compose s.replica.keys payload zeros).1.1.length < UInt64.size ∧
      (s.replica.messages.sealEntry s.replica.self.own.device
        (Message.compose s.replica.keys payload zeros).1.1
        (Message.compose s.replica.keys payload zeros).2).1.1.length < UInt64.size) :
    Session.Runs group (key 2) origin (sends payload s) :=
  h.call rfl rfl room fits

theorem runs_waits (h : Session.Runs group (key 2) origin s) (ms : Nat) :
    Session.Runs group (key 2) origin (waits ms s) :=
  h.step (.aside rfl rfl rfl rfl rfl rfl)

end

theorem opens_empty : Opens none .empty := by decide +kernel

/-- The device is opened and sends a message; another one takes too long. -/
def firstSession : Session := sends [2] (waits 5 (sends [1] (session none .empty opens_empty)))

theorem opens_again : Opens (some firstSession.replica.keys.origin) firstSession.store := by
  decide +kernel

/-- The device is opened again, and sends one more message. -/
def secondSession : Session :=
  sends [3] (waits 0 (session (some firstSession.replica.keys.origin) firstSession.store
    opens_again))

end SecureGroup.Plain

namespace SecureGroup.Session

attribute [local instance] Suite.plain

open Plain

/-- The message after the device was opened again takes the position of the one that was not sent,
since the log does not show it as used. -/
theorem used_nodup_reopened :
    let chainId := firstSession.replica.keys.origin.chainId
    secondSession.used group (key 2).pub chainId = [0, 1] ∧
      (secondSession.used group (key 2).pub chainId).Nodup ∧
      ∀ n ∈ secondSession.used group (key 2).pub chainId,
        n < secondSession.replica.keys.own.counter := by
  intro chainId
  have hopened : Runs group (key 2) firstSession.replica.keys.origin
      (session none .empty opens_empty) := runs_session _ (by decide +kernel) rfl
  have hfirst : Runs group (key 2) firstSession.replica.keys.origin firstSession := by
    refine runs_sends (runs_waits (runs_sends hopened ?_ ?_) 5) ?_ ?_
    · decide +kernel
    · decide +kernel
    · decide +kernel
    · decide +kernel
  have hsecond : Runs group (key 2) firstSession.replica.keys.origin secondSession := by
    refine runs_sends (runs_waits (runs_session_again hfirst ?_ _) 0) ?_ ?_
    · decide +kernel
    · decide +kernel
    · decide +kernel
  obtain ⟨hnodup, hlt, -⟩ :=
    hsecond.used_nodup Suite.plain_signatureLaw Suite.plain_encryptionLaw
  exact ⟨by decide +kernel, hnodup, hlt⟩

end SecureGroup.Session
