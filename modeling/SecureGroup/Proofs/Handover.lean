import Mathlib.Logic.Function.Iterate
import SecureGroup.Metadata.Author
import SecureGroup.Proofs.Codecs
import SecureGroup.Proofs.Delivery
import SecureGroup.Proofs.Redelivery
import SecureGroup.Proofs.Secrets

/-!
# Handing a chain over

A participant sends its chain to a member as an entry of the membership log (`Handed`).  Every other
device of the group opens the entry.  A device of that member learns the chain, and from then on it
finds the very keys that the sender will use, from the state that was sent on; all others note
that the entry is not for them and change nothing (`Handed.arrives_at_others`).
-/

namespace SecureGroup

variable [Suite]

/-! ## The keys of a chain that was handed over -/

namespace ChainKeys

variable {k sender : ChainKeys} {device : PublicKey}

/-- The state of the sending chain after some messages. -/
theorem own_iterate (k : ChainKeys) (d : Nat) :
    ((fun k => k.nextOwn.2)^[d] k).own = k.own.advance d := by
  induction d generalizing k with
  | zero => rfl
  | succ d ih => rw [Function.iterate_succ_apply, ih]; rfl

/-- Some keys have taken over the chain on which others send.  If nothing was known of it before,
they find at every position from the state that was sent on the key that the sender hands out there,
as far as they skip, and nothing before that state. -/
structure TakesOver (before after : ChainKeys) (device : PublicKey) (sender : ChainKeys) :
    Prop where
  hasChain : after.hasChain device sender.own.chainId = true
  finds : before.ratchet? device sender.own.chainId = none → ∀ n : UInt64,
    sender.own.counter ≤ n → n.toNat ≤ sender.own.counter.toNat + before.maxSkipped →
    ∃ key, ((fun k => k.nextOwn.2)^[n.toNat - sender.own.counter.toNat] sender).nextOwn.1 =
        (sender.own.chainId, n, key) ∧
      (after.messageKey device sender.own.chainId n).1 = .ok (some key)
  misses : before.ratchet? device sender.own.chainId = none → ∀ n : UInt64,
    n < sender.own.counter → (after.messageKey device sender.own.chainId n).1 = .ok none

omit [Suite] in
theorem hasChain_iff {chainId : UInt64} :
    k.hasChain device chainId = true ↔ (k.first? device chainId).isSome = true := by
  rw [hasChain, first?, Option.isSome_map]

/-- Keys that learn a chain as it stands take it over. -/
theorem takesOver_register (k : ChainKeys) (device : PublicKey) (sender : ChainKeys) :
    TakesOver k (k.register device sender.own).2 device sender := by
  have hskip := maxSkipped_register k device sender.own
  refine ⟨?_, ?_, ?_⟩
  · rw [hasChain_iff, first?_register, if_pos rfl]
    rfl
  · intro hnone n hle hnear
    obtain ⟨d, hd⟩ := Nat.exists_eq_add_of_le (UInt64.le_iff_toNat_le.1 hle)
    have hfits : sender.own.counter.toNat + d < UInt64.size := hd ▸ n.toNat_lt
    have hcounter := ChainKey.toNat_counter_advance hfits
    have hdistance : n.toNat - sender.own.counter.toNat = d := by omega
    have hnear' : d ≤ 0 + (k.register device sender.own).2.maxSkipped := by omega
    have hfound := ((reads_register hnone).messageKey_of_le hnear' hd).1
    refine ⟨(sender.own.advance d).messageKey, ?_, hfound⟩
    have hn : (sender.own.advance d).counter = n := UInt64.toNat_inj.1 (hcounter.trans hd.symm)
    rw [hdistance, nextOwn, own_iterate, ChainKey.chainId_advance, hn]
  · intro hnone n hlt
    exact ((reads_register hnone).messageKey_of_lt (UInt64.lt_iff_toNat_lt.1 hlt)).1

end ChainKeys

end SecureGroup

namespace SecureGroup.Metadata

variable [Suite] {sender self : Participant} {reader : Log.Reader} {log : List Log.Entry}
  {told : List Notice} {s : State} {i j : Index} {p q : Progress} {recipient device : PublicKey}
  {chainId : UInt64} {b : Log.Binding} {store : Log.Store} {e : Log.Entry}

/-! ## The entry of a secret -/

/-- A participant sends its chain to a member, and the entry of it is in the log.  The octets can be
counted by a word, and no other octets in the log have the same hash. -/
inductive Handed (sender : Participant) (s : State) (recipient : PublicKey) (b : Log.Binding)
    (store : Log.Store) : Log.Entry → Prop
  | intro {draw : Draw Event} {event : Event} {ref : Log.Ref} {b' : Log.Binding}
      {store' : Log.Store} {n n' n'' : Entropy} {e : Log.Entry}
      (asked : sendSecret sender s recipient = .ok draw) (drawn : draw n = (event, n'))
      (appended : b.append store sender.own.device event.encode n' = ((.ok ref, b', store'), n''))
      (fits : event.encode.length < UInt64.size ∧
        (b.sealEntry sender.own.device event.encode n').1.1.length < UInt64.size)
      (apart : ∀ e ∈ store.entries b.address,
        e.hash = .of (b.sealEntry sender.own.device event.encode n').1.1 →
          e.payload = (b.sealEntry sender.own.device event.encode n').1.1)
      (mem : e ∈ store'.entries b.address) (written : e.hash = ref.hash) :
      Handed sender s recipient b store e

/-- The chain of a sender as it stands, sealed for a member with a one-time key and a nonce. -/
def sealedChain (sender : Participant) (s : State) (recipient : PublicKey) (oneTime : Octets 32)
    (nonce : Octets 12) : Event :=
  .secretAdded sender.ids.device.bytes.toList recipient.bytes.toList s.keys.own.chainId
    (SealedSecret.sealWith oneTime nonce (ChainKey.codec.encode s.keys.own) recipient)

def sealChain (sender : Participant) (s : State) (recipient : PublicKey) : Draw Event := do
  let oneTime ← Draw.octets 32
  let nonce ← Draw.octets 12
  return sealedChain sender s recipient oneTime nonce

/-- The chain as it stands is sent to any member to whom it was not sent yet. -/
theorem sendSecret_eq_ok_iff {draw : Draw Event} : sendSecret sender s recipient = .ok draw ↔
    s.roster.isMember recipient = true ∧ s.hasSent recipient = false ∧
      draw = sealChain sender s recipient := by
  unfold sendSecret Roster.devicesOf
  by_cases hmember : s.roster.isMember recipient = true
  · cases hsent : s.hasSent recipient with
    | true =>
      simp only [hmember, if_true, Bool.true_eq_false, false_and, and_false, iff_false]
      intro h
      cases h
    | false =>
      simp only [hmember, if_true, true_and]
      constructor
      · intro h
        exact (Except.ok.inj h).symm
      · rintro rfl
        rfl
  · refine ⟨fun h => ?_, fun h => absurd h.1 hmember⟩
    rw [if_neg hmember] at h
    cases h

/-- The entry opens for everyone who reads the log. -/
theorem Handed.opens (sig : Suite.SignatureLaw) (enc : Suite.EncryptionLaw)
    (h : Handed sender s recipient b store e) :
    ∃ opened oneTime nonce, Progress.openEntry b.toReader e =
        .ok (opened, sealedChain sender s recipient oneTime nonce) ∧
      opened.sender = sender.ids.device := by
  cases h with
  | @intro draw event ref b' store' n n' n'' _ asked drawn appended fits apart mem written =>
    obtain ⟨-, -, rfl⟩ := sendSecret_eq_ok_iff.1 asked
    obtain ⟨oneTime, nonce, hevent⟩ : ∃ oneTime nonce,
        event = sealedChain sender s recipient oneTime nonce :=
      ⟨_, _, (congrArg Prod.fst drawn).symm⟩
    obtain ⟨nonce', hsealed, hpayload⟩ :=
      Log.Binding.payload_of_append appended apart mem written
    rw [hsealed, ← hpayload] at fits
    have hread := Log.Binding.read_sealWith sig enc hpayload fits.2
    have hdecode : Event.ofBytes event.encode = .ok event := by
      have hfits := fits.1
      rw [hevent] at hfits ⊢
      exact Event.ofBytes_encode (Event.sound_secretAdded hfits)
    refine ⟨⟨e.hash, e.position, sender.own.device.pub, b.clock, event.encode⟩, oneTime, nonce,
      ?_, ?_⟩
    · rw [Progress.openEntry, hread, ← hevent]
      show (Event.ofBytes event.encode >>= _) = _
      rw [hdecode]
      rfl
    · rw [sender.ids_eq]
      rfl

/-! ## What comes of it -/

/-- What the entry says to a device: a device of the recipient finds the chain in it. -/
def handedTo (self : Participant) (s : State) (recipient : PublicKey) : Statement :=
  .sent recipient s.keys.own.chainId
    (if recipient = self.ids.member then some s.keys.own else none)

theorem statement_sealedChain (sig : Suite.SignatureLaw) (agr : Suite.AgreementLaw)
    (enc : Suite.EncryptionLaw) (dest : recipient.Valid) (self sender : Participant) (s : State)
    (oneTime : Octets 32) (nonce : Octets 12) :
    (sealedChain sender s recipient oneTime nonce).statement self sender.ids.device =
      .ok (handedTo self s recipient) := by
  have hdevice : sender.ids.device.Valid := by
    rw [sender.ids_eq]
    exact sig.isPublicKey_publicKey sender.own.device.seed
  refine Event.statement_eq_sent_iff.2 ⟨_, _, _, rfl, PublicKey.ofBytes_toList hdevice,
    PublicKey.ofBytes_toList dest, ?_⟩
  split
  · next hown =>
    have hrecipient : recipient = self.own.member.pub := by
      rw [hown, self.ids_eq]
      rfl
    rw [hrecipient]
    exact ⟨_, s.keys.own, SealedSecret.reveal_sealWith agr enc _ _ _ _,
      ChainKey.ofBytes_encode _, rfl, rfl⟩
  · rfl

namespace State

/-- Whoever learns of a chain that others send changes its keys, and nothing else. -/
theorem step_sent_of_ne (s : State) {author : PublicKey} (other : author ≠ self.ids.device)
    (chain : Option ChainKey) : s.step self author (.sent recipient chainId chain) =
      match chain with
      | some chain => (.ok (), { s with keys := (s.keys.register author chain).2 })
      | none => (.error (.misdirected recipient), s) := by
  cases chain with
  | none => simp only [step, other, if_false]
  | some chain => simp only [step, learn, other, if_false, false_and]

theorem hasChain_step (self : Participant) (author : PublicKey) (said : Statement)
    (h : s.keys.hasChain device chainId = true) :
    (s.step self author said).2.keys.hasChain device chainId = true := by
  by_cases hlive : (device, chainId) = (self.ids.device, s.keys.own.chainId)
  · obtain ⟨rfl, rfl⟩ := Prod.mk.inj hlive
    rw [ChainKeys.hasChain, (live_step self s author said).2]
    exact h
  · rw [ChainKeys.hasChain_iff] at h ⊢
    rw [first?_step self s author said hlive]
    split
    · split
      · rfl
      · exact h
    · exact h

end State

theorem Moves.hasChain (h : Moves self reader log i j told)
    (hi : i.state.keys.hasChain device chainId = true) :
    j.state.keys.hasChain device chainId = true := by
  induction h with
  | refl => exact hi
  | snoc before last ih =>
    cases last with
    | invalid mem fresh opens invalid => exact ih
    | tried offered fresh tries =>
      rw [tries.state_eq]
      exact State.hasChain_step self _ _ ih

/-- What an entry with the chain of a sender is to another device.  A device of the recipient
applies it and takes the chain over; any other one counts it, and nothing else. -/
structure Arrives (receiver sender : Participant) (s : State) (recipient : PublicKey)
    (p q : Progress) : Prop where
  own : receiver.ids.member = recipient →
    q.summary = { p.summary with applied := p.summary.applied + 1 } ∧
      q.index.state.sent = p.index.state.sent ∧
      p.index.state.keys.TakesOver q.index.state.keys sender.ids.device s.keys
  foreign : receiver.ids.member ≠ recipient →
    q.summary = { p.summary with misdirected := p.summary.misdirected + 1 } ∧
      q.index.state = p.index.state ∧ q.notices = p.notices
  roster : q.index.state.roster = p.index.state.roster
  deferred : q.index.deferred = p.index.deferred

/-- What a batch leaves waiting is counted at its end. -/
theorem Arrives.finish (h : Arrives self sender s recipient p q) (deferred : Nat) :
    Arrives self sender s recipient
      { p with summary := { p.summary with deferred } }
      { q with summary := { q.summary with deferred } } where
  own hown := by
    obtain ⟨hsummary, hrest⟩ := h.own hown
    rw [hsummary]
    exact ⟨rfl, hrest⟩
  foreign hne := by
    obtain ⟨hsummary, hrest⟩ := h.foreign hne
    rw [hsummary]
    exact ⟨rfl, hrest⟩
  roster := h.roster
  deferred := h.deferred

namespace Handed

theorem take_eq (sig : Suite.SignatureLaw) (agr : Suite.AgreementLaw) (enc : Suite.EncryptionLaw)
    (h : Handed sender s recipient b store e) (dest : recipient.Valid) (self : Participant)
    (fresh : p.index.knows e.hash = false) :
    ∃ event, p.take self b.toReader e = (p.consider self
      ⟨e.hash, sender.ids.device, event, handedTo self s recipient⟩).2 := by
  obtain ⟨opened, oneTime, nonce, hopens, hsender⟩ := h.opens sig enc
  have hsaid := statement_sealedChain sig agr enc dest self sender s oneTime nonce
  exact ⟨_, Progress.take_of_candidate ⟨opened, hopens, rfl, hsender.symm, hsaid⟩ fresh⟩

theorem arrives (sig : Suite.SignatureLaw) (agr : Suite.AgreementLaw) (enc : Suite.EncryptionLaw)
    (h : Handed sender s recipient b store e) (dest : recipient.Valid)
    (other : self.ids.device ≠ sender.ids.device) (fresh : p.index.knows e.hash = false) :
    Arrives self sender s recipient p (p.take self b.toReader e) := by
  obtain ⟨event, htake⟩ := h.take_eq sig agr enc dest self fresh
  have hstep : ∀ chain, p.index.state.step self sender.ids.device
      (.sent recipient s.keys.own.chainId chain) = _ :=
    State.step_sent_of_ne p.index.state (Ne.symm other)
  rw [htake]
  by_cases hown : recipient = self.ids.member
  · simp only [Progress.consider, handedTo, if_pos hown, hstep]
    exact ⟨fun _ => ⟨rfl, rfl, ChainKeys.takesOver_register _ _ _⟩,
      fun hne => absurd hown.symm hne, rfl, rfl⟩
  · simp only [Progress.consider, handedTo, if_neg hown, hstep]
    exact ⟨fun heq => absurd heq.symm hown, fun _ => ⟨rfl, rfl, rfl⟩, rfl, rfl⟩

/-- The entry is delivered to another device of the group for the first time.  The recipient is a
key of the suite, as every member is.

* A batch of the entry alone does what `Arrives` says, compared with a batch of nothing.
* So does the entry among others, at its turn; and at the end of the batch a device of the recipient
  still knows the chain. -/
theorem arrives_at_others (sig : Suite.SignatureLaw) (agr : Suite.AgreementLaw)
    (enc : Suite.EncryptionLaw) (h : Handed sender s recipient b store e)
    (bound : b.toReader = .of self.group .metadata)
    (dest : recipient.Valid) (other : self.ids.device ≠ sender.ids.device)
    (reached : Reached self (.of self.group .metadata) log told i)
    (first : e.hash ∉ log.map (·.hash)) :
    Arrives self sender s recipient ⟨i, ⟨0, 0, 0, 0, i.deferred.length⟩, []⟩
        (i.update self (.of self.group .metadata) [e]) ∧
      ∀ before after : List Log.Entry, e.hash ∉ before.map (·.hash) →
        let p := before.foldl (Progress.take self (.of self.group .metadata)) (.start i)
        let q := i.update self (.of self.group .metadata) (before ++ e :: after)
        Arrives self sender s recipient p (p.take self (.of self.group .metadata) e) ∧
          (self.ids.member = recipient →
            q.index.state.keys.hasChain sender.ids.device s.keys.own.chainId = true) := by
  rw [← bound] at reached ⊢
  constructor
  · have hfresh := reached.tidy.knows_eq_false first
    have harrives := h.arrives (p := .start i) sig agr enc dest other hfresh
    rw [reached.update_singleton harrives.roster harrives.deferred]
    exact harrives.finish i.deferred.length
  · intro before after hbefore p q
    have hnew : p.index.knows e.hash = false := by
      have htidy := (Progress.runs_foldl_take before fun d hd => List.mem_append_right log hd).tidy
        (p := .start i) (reached.tidy.mono fun d hd => List.mem_append_left before hd)
      refine htidy.knows_eq_false ?_
      rw [List.map_append, List.mem_append, not_or]
      exact ⟨first, hbefore⟩
    have harrives := h.arrives sig agr enc dest other hnew
    refine ⟨harrives, fun hown => ?_⟩
    obtain ⟨-, -, htakes⟩ := harrives.own hown
    -- what the rest of the batch does takes no chain away
    obtain ⟨more, hmoves, -⟩ := Index.runs_update reached.tidy (before ++ [e]) after
    rw [List.foldl_append, List.append_assoc] at hmoves
    exact hmoves.hasChain htakes.hasChain

end Handed

end SecureGroup.Metadata

/-! ## A chain that is handed over -/

namespace SecureGroup.Plain

attribute [local instance] Suite.plain

open Metadata

/-- The log in which the group announces its first member. -/
def announcedLog : List Log.Entry := [entry 2 (announced 1 2)]

/-- The index of a device of some member then. -/
def announcedIndex (member device : UInt8) : Index :=
  ((Index.empty (chains device)).update (participant member device) reader announcedLog).index

/-- The first member's device sends its chain to the other devices of the member. -/
def chainEvent : Event × Entropy :=
  sealChain (participant 1 2) (announcedIndex 1 2).state (key 1).pub zeros

def chainHanded : Log.Entry :=
  .at 1 ((Log.Binding.of group .metadata 0).sealEntry (key 2) chainEvent.1.encode chainEvent.2).1.1

/-- It is sent to a member of the group. -/
theorem handed_chainHanded :
    Handed (participant 1 2) (announcedIndex 1 2).state (key 1).pub (.of group .metadata 0)
      (Log.Store.empty.commitAll reader.address (announcedLog.map (·.payload))).2 chainHanded := by
  have hasked : sendSecret (participant 1 2) (announcedIndex 1 2).state (key 1).pub = .ok _ :=
    sendSecret_eq_ok_iff.2 ⟨by decide +kernel, by decide +kernel, rfl⟩
  have happended : ((Log.Binding.of group .metadata 0).append
      (Log.Store.empty.commitAll reader.address (announcedLog.map (·.payload))).2 (key 2)
      chainEvent.1.encode chainEvent.2).1.1 = .ok chainHanded.ref := by
    decide +kernel
  refine .intro (n := zeros) hasked rfl (Prod.ext (Prod.ext happended rfl) rfl) ?_ ?_ ?_ rfl
  · decide +kernel
  · decide +kernel
  · decide +kernel

end SecureGroup.Plain

namespace SecureGroup.Metadata.Handed

attribute [local instance] Suite.plain

open Plain

/-- Device 3 of the member takes the chain over, and device 6 of someone else does not. -/
theorem arrives_at_own_member :
    let s := (announcedIndex 1 2).state
    let i := announcedIndex 1 3
    let j := announcedIndex 5 6
    let p := i.update (participant 1 3) reader [chainHanded]
    let q := j.update (participant 5 6) reader [chainHanded]
    p.summary = ⟨1, 0, 0, 0, 0⟩ ∧
      i.state.keys.TakesOver p.index.state.keys (key 2).pub s.keys ∧
      (∃ found, s.keys.nextOwn.2.nextOwn.1 = (0, 1, found) ∧
        (p.index.state.keys.messageKey (key 2).pub 0 1).1 = .ok (some found)) ∧
      q.summary = ⟨0, 0, 1, 0, 0⟩ ∧ q.index.state = j.state := by
  intro s i j p q
  have hreached : ∀ member device, ∃ told, Reached (participant member device) reader
      ([] ++ announcedLog) told (announcedIndex member device) :=
    fun member device => ⟨_, .update announcedLog (.empty (chains device))⟩
  have hfirst : chainHanded.hash ∉ (([] : List Log.Entry) ++ announcedLog).map (·.hash) := by
    decide +kernel
  obtain ⟨_, hi⟩ := hreached 1 3
  obtain ⟨_, hj⟩ := hreached 5 6
  have hp := (handed_chainHanded.arrives_at_others Suite.plain_signatureLaw Suite.plain_agreementLaw
    Suite.plain_encryptionLaw rfl rfl (by decide) hi hfirst).1
  have hq := (handed_chainHanded.arrives_at_others Suite.plain_signatureLaw Suite.plain_agreementLaw
    Suite.plain_encryptionLaw rfl rfl (by decide) hj hfirst).1
  obtain ⟨happlied, -, htakes⟩ := hp.own rfl
  obtain ⟨hmisdirected, hstate, -⟩ := hq.foreign (by decide)
  have hdeferred : i.deferred.length = 0 := by decide +kernel
  have hdeferred' : j.deferred.length = 0 := by decide +kernel
  refine ⟨?_, htakes, ?_, ?_, hstate⟩
  · rw [show p.summary = _ from happlied, hdeferred]
  · have hown : s.keys.own = ⟨0, .fit 32 [], 0⟩ := by decide +kernel
    have hfinds := htakes.finds
    rw [hown] at hfinds
    exact hfinds (by decide +kernel) 1 (by decide) (by decide +kernel)
  · rw [show q.summary = _ from hmisdirected, hdeferred']

end SecureGroup.Metadata.Handed
