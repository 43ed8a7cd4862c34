import SecureGroup.Proofs.Listing
import SecureGroup.Proofs.Reached
import SecureGroup.Proofs.Sealing

/-!
# Delivery of messages

A device sends messages on its chain, while others add whatever they like to the log
(`Desk.Sends`).  What it sends next comes to the end of the log under a hash of its own, since what
it sent before stands at other positions (`Desk.Kept.step`).  So the messages stand in the log in
order, and a reader that holds the chain from some first known state on finds exactly one item for
every message: the messages before that state are pending, and all others are decrypted
(`Desk.Sends.list_sent`).
-/

namespace SecureGroup

variable [Suite] {device : PrivateKey} {payload : Bytes} {e : Log.Entry}

/-! ## Writing -/

/-- Octets that a log holds under their hash are not added again; others come to its end. -/
theorem Log.Store.commit_cases (s : Log.Store) (a : Log.Address) (octets : Bytes) :
    (∃ e ∈ s.entries a, e.hash = .of octets ∧ (s.commit a octets).2.entries a = s.entries a) ∨
      EntryHash.of octets ∉ (s.entries a).map (·.hash) ∧
        (s.commit a octets).1 = (Log.Entry.at (s.entries a).length octets).ref ∧
        (s.commit a octets).2.entries a =
          s.entries a ++ [.at (s.entries a).length octets] := by
  have hentries : (s.commit a octets).2.entries a = ((s.feed a).commit octets).2.entries := by
    unfold commit entries feed feed? put
    rw [Table.get?_put_self, Option.getD_some]
  rw [hentries]
  rcases (s.feed a).commit_cases octets with ⟨e, he, hhash, hcommit⟩ | ⟨hfresh, hcommit⟩
  · exact Or.inl ⟨e, he, hhash, congrArg (·.2.entries) hcommit⟩
  · exact Or.inr ⟨hfresh, congrArg (·.1) hcommit, congrArg (·.2.entries) hcommit⟩

theorem Log.Feed.hash_commit (f : Log.Feed) (octets : Bytes) :
    (f.commit octets).1.hash = .of octets := by
  rcases f.commit_cases octets with ⟨e, -, hhash, hcommit⟩ | ⟨-, hcommit⟩
  · exact (congrArg (·.1.hash) hcommit).trans hhash
  · exact congrArg (·.1.hash) hcommit

/-- What is handed to the store stands in the log. -/
theorem Log.Store.exists_ref_commit (s : Log.Store) (a : Log.Address) (octets : Bytes) :
    ∃ e ∈ (s.commit a octets).2.entries a, e.ref = (s.commit a octets).1 := by
  have hfeed : ∃ e ∈ ((s.feed a).commit octets).2.entries,
      e.ref = ((s.feed a).commit octets).1 := by
    rcases (s.feed a).commit_cases octets with ⟨e, he, -, hcommit⟩ | ⟨-, hcommit⟩
    · rw [hcommit]
      exact ⟨e, he, rfl⟩
    · rw [hcommit]
      exact ⟨_, List.mem_append_right _ List.mem_cons_self, rfl⟩
  unfold commit entries
  rwa [feed_put, if_pos rfl]

namespace Log.Binding

variable {b b' : Log.Binding} {s s' : Log.Store} {result : Except Error Log.Ref} {ref : Log.Ref}
  {n n' : Entropy}

/-- What comes of an append: the binding is closed; or the payload is sealed, and its octets are
handed to the store, unless that takes too long. -/
theorem append_cases (h : b.append s device payload n = ((result, b', s'), n')) :
    (b.closed = true ∧ result = .error .closed ∧ b' = b ∧ s' = s) ∨
      ∃ nonce, (b.sealEntry device payload n).1 = b.sealWith device payload nonce ∧
        b'.toReader = b.toReader ∧
        ((∃ ref, result = .ok ref ∧
            s.commit b.address (b.sealWith device payload nonce).1 = (ref, s')) ∨
          b.timeout < s.wait ∧ result = .error (.timeout b.timeout) ∧ s' = s) := by
  unfold append at h
  split at h
  · next hclosed =>
    cases h
    exact Or.inl ⟨hclosed, rfl, rfl, rfl⟩
  · obtain ⟨nonce, hnonce⟩ : ∃ nonce, nonce = (Draw.octets 12 n).1 := ⟨_, rfl⟩
    obtain ⟨octets, hoctets⟩ : ∃ octets, octets = (b.sealWith device payload nonce).1 := ⟨_, rfl⟩
    have hsubmit : (((b.sealWith device payload nonce).2.submit s octets).1,
        (b.sealWith device payload nonce).2,
        ((b.sealWith device payload nonce).2.submit s octets).2) = (result, b', s') := by
      rw [hoctets, hnonce]
      exact congrArg Prod.fst h
    refine Or.inr ⟨nonce, by rw [hnonce]; rfl, ?_⟩
    rw [← hoctets]
    unfold submit at hsubmit
    split at hsubmit
    · cases hsubmit
      exact ⟨rfl, Or.inl ⟨_, rfl, rfl⟩⟩
    · next hlate =>
      cases hsubmit
      exact ⟨rfl, Or.inr ⟨Nat.not_le.1 hlate, rfl, rfl⟩⟩

/-- A payload that was appended was sealed, and its octets were handed to the store. -/
theorem append_eq_ok (h : b.append s device payload n = ((.ok ref, b', s'), n')) :
    ∃ nonce, (b.sealEntry device payload n).1 = b.sealWith device payload nonce ∧
      b'.toReader = b.toReader ∧
      s.commit b.address (b.sealWith device payload nonce).1 = (ref, s') := by
  rcases append_cases h with ⟨-, hclosed, -⟩ | ⟨nonce, hsealed, hreader, ⟨_, href, hcommit⟩ |
    ⟨-, hlate, -⟩⟩
  · cases hclosed
  · cases href
    exact ⟨nonce, hsealed, hreader, hcommit⟩
  · cases hlate

theorem append_eq_error {cause : Error}
    (h : b.append s device payload n = ((.error cause, b', s'), n')) :
    b'.toReader = b.toReader ∧ s' = s := by
  rcases append_cases h with ⟨-, -, rfl, rfl⟩ | ⟨nonce, -, hreader, ⟨_, href, -⟩ |
    ⟨-, -, rfl⟩⟩
  · exact ⟨rfl, rfl⟩
  · cases href
  · exact ⟨hreader, rfl⟩

/-- An entry that answers for an append holds the octets that were sealed, if no other octets in the
log have their hash. -/
theorem payload_of_append (h : b.append s device payload n = ((.ok ref, b', s'), n'))
    (apart : ∀ d ∈ s.entries b.address, d.hash = .of (b.sealEntry device payload n).1.1 →
      d.payload = (b.sealEntry device payload n).1.1)
    (mem : e ∈ s'.entries b.address) (written : e.hash = ref.hash) :
    ∃ nonce, (b.sealEntry device payload n).1 = b.sealWith device payload nonce ∧
      e.payload = (b.sealWith device payload nonce).1 := by
  obtain ⟨nonce, hsealed, -, hcommit⟩ := append_eq_ok h
  refine ⟨nonce, hsealed, ?_⟩
  rw [hsealed] at apart
  generalize (b.sealWith device payload nonce).1 = octets at apart hcommit ⊢
  have hhash : e.hash = .of octets := by
    rw [written, show ref = ((s.feed b.address).commit octets).1 from
      (congrArg Prod.fst hcommit).symm]
    exact Feed.hash_commit _ _
  have hcases := s.commit_cases b.address octets
  rw [hcommit] at hcases
  -- the octets came to the end of the log, or they were there before
  rcases hcases with ⟨-, -, -, hsame⟩ | ⟨hfresh, -, hnew⟩
  · exact apart e (hsame ▸ mem) hhash
  · rw [hnew, List.mem_append, List.mem_singleton] at mem
    rcases mem with hold | rfl
    · exact absurd (List.mem_map.2 ⟨e, hold, hhash⟩) hfresh
    · rfl

end Log.Binding

namespace Message

variable {keys keys' : ChainKeys} {body : Bytes} {n n' : Entropy}

theorem keys_of_compose (composed : compose keys payload n = ((body, keys'), n')) :
    keys' = { keys with own := keys.own.next } :=
  (congrArg (·.1.2) composed).symm

/-- What is composed and sealed is the next message. -/
theorem carries_of_compose (sig : Suite.SignatureLaw) (enc : Suite.EncryptionLaw)
    {b : Log.Binding} {nonce : Octets 12}
    (composed : compose keys payload n = ((body, keys'), n'))
    (he : e.payload = (b.sealWith device body nonce).1)
    (fits : body.length < UInt64.size ∧ e.payload.length < UInt64.size) :
    b.toReader.Carries device.pub keys.own payload e := by
  have hbody : Body.codec.encode ⟨keys.own.chainId, keys.own.counter,
      SecretBox.sealWith keys.own.messageKey (Draw.octets 12 n).1 payload⟩ = body :=
    congrArg (·.1.1) composed
  have hread := Log.Binding.read_sealWith sig enc he fits.2
  refine ⟨_, (Draw.octets 12 n).1, hread, rfl, ?_⟩
  subst hbody
  refine Body.faithful_codec.read_encode ?_
  exact Nat.lt_of_le_of_lt (Body.length_box_le _) fits.1

end Message

/-! ## Steps of a device -/

/-- What a device writes messages with: its chains, the binding of the message log, and the
store. -/
structure Desk where
  keys : ChainKeys
  binding : Log.Binding
  store : Log.Store

namespace Desk

def entries (d : Desk) : List Log.Entry := d.store.entries d.binding.address

/-- What comes of a message that is appended: its octets were in the log already, or they come to
its end. -/
theorem append_cases (sig : Suite.SignatureLaw) (enc : Suite.EncryptionLaw) {d : Desk}
    {body : Bytes} {keys : ChainKeys} {ref : Log.Ref} {binding : Log.Binding} {store : Log.Store}
    {n n' n'' : Entropy} (composed : Message.compose d.keys payload n = ((body, keys), n'))
    (appended : d.binding.append d.store device body n' = ((.ok ref, binding, store), n''))
    (fits : body.length < UInt64.size ∧
      (d.binding.sealEntry device body n').1.1.length < UInt64.size)
    (apart : ∀ e ∈ d.entries, e.hash = .of (d.binding.sealEntry device body n').1.1 →
      e.payload = (d.binding.sealEntry device body n').1.1) :
    binding.toReader = d.binding.toReader ∧
      ((∃ e ∈ d.entries, e.payload = (d.binding.sealEntry device body n').1.1 ∧
          d.binding.toReader.Carries device.pub d.keys.own payload e) ∨
        ∃ e : Log.Entry, ref = e.ref ∧ e.hash ∉ d.entries.map (·.hash) ∧
          d.binding.toReader.Carries device.pub d.keys.own payload e ∧
          Desk.entries ⟨keys, binding, store⟩ = d.entries ++ [e]) := by
  obtain ⟨nonce, hsealed, hbinding, hcommit⟩ := Log.Binding.append_eq_ok appended
  rw [hsealed] at fits apart ⊢
  have hcarries : ∀ e : Log.Entry, e.payload = (d.binding.sealWith device body nonce).1 →
      d.binding.toReader.Carries device.pub d.keys.own payload e :=
    fun e he => Message.carries_of_compose sig enc composed he (he ▸ fits)
  have hcases := d.store.commit_cases d.binding.address (d.binding.sealWith device body nonce).1
  rw [hcommit] at hcases
  refine ⟨hbinding, ?_⟩
  rcases hcases with ⟨e, he, hhash, -⟩ | ⟨hfresh, href, hentries⟩
  · have hpayload := apart e he hhash
    exact Or.inl ⟨e, he, hpayload, hcarries e hpayload⟩
  · have hentries' : Desk.entries ⟨keys, binding, store⟩ =
        d.entries ++ [.at d.entries.length (d.binding.sealWith device body nonce).1] :=
      (congrArg (fun r : Log.Reader => store.entries r.address) hbinding).trans hentries
    exact Or.inr ⟨_, href, hfresh, hcarries _ rfl, hentries'⟩

/-- One step of a device that sent some messages before, and what it sends in it. -/
inductive Step (device : PrivateKey) (sent : List Sent) : Desk → List Sent → Desk → Prop
  /-- The device sends a message.  Its octets can be counted by a word, no other octets in the log
  have the same hash, and nobody but the device itself added these very octets before. -/
  | send {d : Desk} {payload body : Bytes} {keys : ChainKeys} {ref : Log.Ref}
      {binding : Log.Binding} {store : Log.Store} {n n' n'' : Entropy}
      (composed : Message.compose d.keys payload n = ((body, keys), n'))
      (appended : d.binding.append d.store device body n' = ((.ok ref, binding, store), n''))
      (fits : body.length < UInt64.size ∧
        (d.binding.sealEntry device body n').1.1.length < UInt64.size)
      (apart : ∀ e ∈ d.entries, e.hash = .of (d.binding.sealEntry device body n').1.1 →
        e.payload = (d.binding.sealEntry device body n').1.1)
      (unforeseen : ∀ e ∈ d.entries, e.payload = (d.binding.sealEntry device body n').1.1 →
        e.hash ∈ sent.map Sent.hash) :
      Step device sent d [⟨ref, payload⟩] ⟨keys, binding, store⟩
  /-- Others add whatever octets they like to the log. -/
  | added {d : Desk} (octets : Bytes) :
      Step device sent d [] { d with store := (d.store.commit d.binding.address octets).2 }
  /-- Whatever leaves the log and the sending chain as they are: looking keys up, learning chains,
  writing to other logs. -/
  | aside {d d' : Desk} (own : d'.keys.own = d.keys.own)
      (reader : d'.binding.toReader = d.binding.toReader) (entries : d'.entries = d.entries) :
      Step device sent d [] d'

/-- Steps one after the other, and all that the device sends in them. -/
inductive Sends (device : PrivateKey) (start : Desk) : List Sent → Desk → Prop
  | refl : Sends device start [] start
  | snoc {d d' : Desk} {sent more : List Sent} (before : Sends device start sent d)
      (last : Step device sent d more d') : Sends device start (sent ++ more) d'

/-- The chain has moved on by the messages that were sent, and they stand in the log in order. -/
structure Kept (device : PrivateKey) (start : Desk) (sent : List Sent) (d : Desk) : Prop where
  own : d.keys.own = start.keys.own.advance sent.length
  reader : d.binding.toReader = start.binding.toReader
  log : Interleaved start.binding.toReader device.pub start.keys.own sent d.entries

variable {start d d' : Desk} {sent more : List Sent}

theorem Kept.refl (device : PrivateKey) (start : Desk) : Kept device start [] start where
  own := rfl
  reader := rfl
  log := .start _

/-- The next message is not in the log before it is sent, and comes to the end of the log. -/
theorem Kept.step (sig : Suite.SignatureLaw) (enc : Suite.EncryptionLaw)
    (hd : Kept device start sent d) (h : Step device sent d more d')
    (room : start.keys.own.counter.toNat + sent.length < UInt64.size) :
    Kept device start (sent ++ more) d' := by
  cases h with
  | @send payload body keys ref binding store n n' n'' composed appended fits apart unforeseen =>
    obtain ⟨hbinding, hcases⟩ := append_cases sig enc composed appended fits apart
    rw [hd.reader, hd.own] at hcases
    rcases hcases with ⟨e, he, hpayload, hcarries⟩ | ⟨e, rfl, hfresh, hcarries, hentries⟩
    · -- the octets are in the log already, so they were sent before, at another position
      exact absurd hcarries (hd.log.not_carries he (unforeseen e he hpayload) room)
    · have hown : keys.own = d.keys.own.next := by rw [Message.keys_of_compose composed]
      refine ⟨?_, hbinding.trans hd.reader, ?_⟩
      · rw [hown, hd.own, ChainKey.next_advance, List.length_append, List.length_singleton]
      · rw [hentries]
        exact hd.log.message hfresh hcarries
  | added octets =>
    rw [List.append_nil]
    have hcases := d.store.commit_cases d.binding.address octets
    refine ⟨hd.own, hd.reader, ?_⟩
    unfold entries
    dsimp only
    rcases hcases with ⟨e, he, -, hsame⟩ | ⟨hfresh, -, hnew⟩
    · rw [hsame]
      exact hd.log
    · rw [hnew]
      exact hd.log.other hfresh
  | aside own reader entries =>
    rw [List.append_nil]
    exact ⟨own.trans hd.own, reader.trans hd.reader, entries.symm ▸ hd.log⟩

namespace Sends

/-- However the steps went, the messages stand in the log in order. -/
theorem kept (sig : Suite.SignatureLaw) (enc : Suite.EncryptionLaw)
    (h : Sends device start sent d)
    (room : start.keys.own.counter.toNat + sent.length < UInt64.size) :
    Kept device start sent d := by
  induction h with
  | refl => exact .refl device start
  | @snoc d d' sent more before last ih =>
    rw [List.length_append] at room
    have hroom : start.keys.own.counter.toNat + sent.length < UInt64.size := by omega
    exact (ih hroom).step sig enc last hroom

/-- A device sends messages from some position of its chain on, and a reader of the group, the
device itself or another one, knows the chain from a place among these positions or after them on.
Then every listing holds exactly one item for every message that was sent, in the order of the log:
it is pending before the place from which the chain is known, and decrypted from there on. -/
theorem list_sent (sig : Suite.SignatureLaw) (enc : Suite.EncryptionLaw)
    (group : Group) (h : Sends device start sent d)
    (bound : start.binding.toReader = .of group .messages)
    (room : start.keys.own.counter.toNat + sent.length < UInt64.size)
    (known : Nat) (hknown : start.keys.own.counter.toNat + known < UInt64.size) (keys : ChainKeys)
    (hk : keys.Holds device.pub (start.keys.own.advance known)) (skip : 1 ≤ keys.maxSkipped) :
    let listing := Message.list (.of group .messages) keys d.entries
    (sent.map (·.ref.hash)).Nodup ∧
      (d.entries.filter (·.hash ∈ sent.map (·.ref.hash))).map (·.ref) = sent.map (·.ref) ∧
      listing.1.filter (fun item => item.entry ∈ sent.map (·.ref.hash)) =
        (sent.mapIdx fun i s =>
          if i < known then
            .pending s.ref.hash device.pub (start.keys.own.counter + .ofNat i)
          else
            .decrypted ⟨s.ref.hash, device.pub, start.keys.own.counter + .ofNat i, s.payload⟩) ∧
      listing.2.Holds device.pub (start.keys.own.advance known) := by
  intro listing
  have hlog := (h.kept sig enc room).log
  rw [bound] at hlog
  exact ⟨hlog.nodup_hashes, hlog.refs_eq, (hlog.filter_list_eq enc hk skip hknown room).1,
    Message.holds_list hk⟩

end Sends

end Desk

end SecureGroup

/-! ## A small log -/

namespace SecureGroup.Plain

attribute [local instance] Suite.plain

/-- A source of the same word over and over. -/
def zeros : Entropy := ⟨fun _ => 0, 0⟩

def desk (device : UInt8) : Desk := ⟨chains device, .of group .messages 0, .empty⟩

/-- The desk of a device after a message, and what comes of it. -/
def write (device : UInt8) (d : Desk) (payload : Bytes) : Except Error Log.Ref × Desk :=
  let ((body, keys), e) := Message.compose d.keys payload zeros
  let ((result, binding, store), _) := d.binding.append d.store (key device) body e
  (result, ⟨keys, binding, store⟩)

def add (d : Desk) (octets : Bytes) : Desk :=
  { d with store := (d.store.commit d.binding.address octets).2 }

theorem sends_write {device : UInt8} {start d : Desk} {sent : List Sent} {payload : Bytes}
    {ref : Log.Ref} (before : Desk.Sends (key device) start sent d)
    (ok : (write device d payload).1 = .ok ref)
    (fits : (Message.compose d.keys payload zeros).1.1.length < UInt64.size ∧
      (d.binding.sealEntry (key device) (Message.compose d.keys payload zeros).1.1
        (Message.compose d.keys payload zeros).2).1.1.length < UInt64.size)
    (apart : ∀ entry ∈ d.entries, entry.hash ≠ .of (d.binding.sealEntry (key device)
        (Message.compose d.keys payload zeros).1.1
          (Message.compose d.keys payload zeros).2).1.1 ∧
      entry.payload ≠ (d.binding.sealEntry (key device)
        (Message.compose d.keys payload zeros).1.1
          (Message.compose d.keys payload zeros).2).1.1) :
    Desk.Sends (key device) start (sent ++ [⟨ref, payload⟩]) (write device d payload).2 :=
  .snoc before (.send rfl (Prod.ext (Prod.ext ok rfl) rfl) fits
    (fun entry he hhash => absurd hhash (apart entry he).1)
    fun entry he hpayload => absurd hpayload (apart entry he).2)

end SecureGroup.Plain

namespace SecureGroup.Desk

attribute [local instance] Suite.plain

open Plain

/-- A first message is sent, garbage is added, and a second message is sent; the reader knows the
chain from the second position on. -/
theorem list_sent_around_garbage :
    let first := write 2 (desk 2) [1]
    let second := write 2 (add first.2 [7]) [2]
    let knower := ((chains 9).register (key 2).pub ((chains 2).own.advance 1)).2
    ∃ r s, Sends (key 2) (desk 2) [⟨r, [1]⟩, ⟨s, [2]⟩] second.2 ∧
      (Message.list (.of group .messages) knower second.2.entries).1.filter
          (fun item => item.entry ∈ [r.hash, s.hash]) =
        [.pending r.hash (key 2).pub 0, .decrypted ⟨s.hash, (key 2).pub, 1, [2]⟩] := by
  intro first second knower
  obtain ⟨r, hr⟩ : ∃ r, first.1 = .ok r := ⟨_, rfl⟩
  obtain ⟨s, hs⟩ : ∃ s, second.1 = .ok s := ⟨_, rfl⟩
  have hfirst : Sends (key 2) (desk 2) ([] ++ [⟨r, [1]⟩]) first.2 :=
    sends_write .refl hr (by decide +kernel) (by decide +kernel)
  have hadded : Sends (key 2) (desk 2) ([] ++ [⟨r, [1]⟩] ++ []) (add first.2 [7]) :=
    .snoc hfirst (.added [7])
  have hsecond : Sends (key 2) (desk 2) ([] ++ [⟨r, [1]⟩] ++ [] ++ [⟨s, [2]⟩]) second.2 :=
    sends_write hadded hs (by decide +kernel) (by decide +kernel)
  have hholds : knower.Holds (key 2).pub ((desk 2).keys.own.advance 1) :=
    ChainKeys.holds_register rfl
  refine ⟨r, s, hsecond, ?_⟩
  have hroom : (desk 2).keys.own.counter.toNat +
      ([] ++ [Sent.mk r [1]] ++ [] ++ [Sent.mk s [2]]).length < UInt64.size := by
    show 0 + 2 < UInt64.size
    decide
  exact (Sends.list_sent Suite.plain_signatureLaw Suite.plain_encryptionLaw group hsecond rfl
    hroom 1 (by decide) knower hholds (by decide)).2.2.1

end SecureGroup.Desk
