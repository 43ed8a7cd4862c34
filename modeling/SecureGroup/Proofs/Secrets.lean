import SecureGroup.Proofs.Ledger
import SecureGroup.Proofs.Ratchet

/-!
# Secrets that were sent

What an index keeps of the secrets in the log depends on which of them were delivered, and on
nothing else.  The secrets that this device sent are noted, whether or not they are for the local
member, and every chain that a device sends to the local member is known from the earliest state on
that was delivered of it or was known before (`Served.secrets_exact`).  The chain on which the
device sends itself is the exception: no entry changes it or what is known of it.
-/

namespace SecureGroup

variable [Suite]

/-! ## The first known states -/

namespace Ratchet

variable {r : Ratchet}

theorem first_step (r : Ratchet) : r.step.first = r.first := by
  unfold step
  dsimp only
  split <;> rfl

theorem first_forward (n : Nat) (r : Ratchet) : (r.forward n).first = r.first := by
  induction n generalizing r with
  | zero => rfl
  | succ n ih => rw [forward, ih, first_step]

theorem first_keyAt (r : Ratchet) (counter : UInt64) (maxSkipped : Nat) :
    (r.keyAt counter maxSkipped).2.first = r.first := by
  unfold keyAt
  split
  · rfl
  · split
    · dsimp only
      split
      · rfl
      · exact first_forward _ r
    · rfl

end Ratchet

namespace ChainKeys

variable {k k' : ChainKeys} {device other : PublicKey} {chain : ChainKey} {chainId : UInt64}

omit [Suite] in
def first? (k : ChainKeys) (device : PublicKey) (chainId : UInt64) : Option ChainKey :=
  (k.ratchet? device chainId).map (·.first)

/-- What the local device does with its keys: it sends, goes on with a chain, or reads. -/
inductive Uses : ChainKeys → ChainKeys → Prop
  | sends (k : ChainKeys) : Uses k k.nextOwn.2
  | resumes (k : ChainKeys) (counter : UInt64) : Uses k (k.skipOwnTo counter)
  | reads (k : ChainKeys) (device : PublicKey) (chainId counter : UInt64) :
      Uses k (k.messageKey device chainId counter).2

theorem Uses.chainId_eq (h : Uses k k') : k'.own.chainId = k.own.chainId := by
  cases h with
  | sends => rfl
  | resumes counter => exact ChainKey.chainId_advance _ _
  | reads device chainId counter => rw [own_messageKey]

/-- Whatever the local device does with its keys, the chains are known from the same states on. -/
theorem Uses.first? (h : Uses k k') (device : PublicKey) (chainId : UInt64) :
    k'.first? device chainId = k.first? device chainId := by
  cases h with
  | sends => rfl
  | resumes counter => rfl
  | reads other id counter =>
    unfold messageKey
    split
    · rfl
    · next r hr =>
      dsimp only
      rw [ChainKeys.first?, ratchet?_put]
      split
      · next heq =>
        obtain ⟨rfl, rfl⟩ := Prod.mk.inj heq
        rw [ChainKeys.first?, hr, Option.map_some, Option.map_some, Ratchet.first_keyAt]
      · rfl

omit [Suite]

/-- Of the first known state and another one, the one that comes first; at the same place the known
one stays. -/
def earlier (known : Option ChainKey) (chain : ChainKey) : ChainKey :=
  match known with
  | none => chain
  | some first => if chain.counter < first.counter then chain else first

theorem own_register (k : ChainKeys) (device : PublicKey) (chain : ChainKey) :
    (k.register device chain).2.own = k.own := by
  unfold register
  dsimp only
  split
  · split <;> rfl
  · rfl

theorem maxSkipped_register (k : ChainKeys) (device : PublicKey) (chain : ChainKey) :
    (k.register device chain).2.maxSkipped = k.maxSkipped := by
  unfold register
  dsimp only
  split
  · split <;> rfl
  · rfl

/-- Learning a chain leaves what is known of the others as it is. -/
theorem ratchet?_register_of_ne (k : ChainKeys) (hne : (device, chainId) ≠ (other, chain.chainId)) :
    (k.register other chain).2.ratchet? device chainId = k.ratchet? device chainId := by
  have hput : (k.put other chain.chainId (.of chain)).ratchet? device chainId =
      k.ratchet? device chainId := by
    rw [ratchet?_put, if_neg hne]
  unfold register
  dsimp only
  split
  · split
    · exact hput
    · rfl
  · exact hput

/-- A chain that is learned is known from the earlier state on, and the other chains stay. -/
theorem first?_register (k : ChainKeys) (device other : PublicKey) (chain : ChainKey)
    (chainId : UInt64) : (k.register other chain).2.first? device chainId =
      if (device, chainId) = (other, chain.chainId) then
        some (earlier (k.first? device chainId) chain)
      else k.first? device chainId := by
  by_cases heq : (device, chainId) = (other, chain.chainId)
  · obtain ⟨rfl, rfl⟩ := Prod.mk.inj heq
    rw [if_pos rfl]
    unfold register first? earlier
    cases hr : k.ratchet? device chain.chainId with
    | none =>
      dsimp only
      rw [if_pos rfl, ratchet?_put, if_pos rfl]
      rfl
    | some r =>
      dsimp only
      by_cases hlt : chain.counter < r.first.counter
      · rw [if_pos (decide_eq_true hlt), ratchet?_put, if_pos rfl, Option.map_some, Option.map_some]
        dsimp only
        rw [if_pos hlt]
        rfl
      · rw [if_neg (by simpa using hlt), hr, Option.map_some]
        dsimp only
        rw [if_neg hlt]
  · rw [if_neg heq]
    rw [first?, first?, ratchet?_register_of_ne k heq]

end ChainKeys

/-- Of the states of which something holds, one with the least position, if there is any. -/
def ChainKey.Earliest (P : ChainKey → Prop) : Option ChainKey → Prop
  | none => ∀ k, ¬ P k
  | some first => P first ∧ ∀ k, P k → first.counter ≤ k.counter

namespace ChainKey.Earliest

variable {P Q : ChainKey → Prop} {known : Option ChainKey} {chain : ChainKey}

omit [Suite]

theorem congr (h : Earliest P known) (hiff : ∀ k, Q k ↔ P k) : Earliest Q known := by
  cases known with
  | none => exact fun k hk => h k ((hiff k).1 hk)
  | some first => exact ⟨(hiff first).2 h.1, fun k hk => h.2 k ((hiff k).1 hk)⟩

theorem of_known (known : Option ChainKey) : Earliest (fun k => known = some k) known := by
  cases known with
  | none =>
    intro k hk
    cases hk
  | some first =>
    refine ⟨rfl, fun k hk => ?_⟩
    rw [Option.some.inj hk]
    exact UInt64.le_refl _

/-- One more state to choose from. -/
theorem learn (h : Earliest P known) (hiff : ∀ k, Q k ↔ P k ∨ k = chain) :
    Earliest Q (some (ChainKeys.earlier known chain)) := by
  cases known with
  | none =>
    refine ⟨(hiff chain).2 (Or.inr rfl), fun k hk => ?_⟩
    rcases (hiff k).1 hk with hp | rfl
    · exact absurd hp (h k)
    · exact Std.le_refl _
  | some first =>
    obtain ⟨hfirst, hleast⟩ := h
    unfold ChainKeys.earlier
    dsimp only
    split
    · next hlt =>
      refine ⟨(hiff chain).2 (Or.inr rfl), fun k hk => ?_⟩
      rcases (hiff k).1 hk with hp | rfl
      · exact UInt64.le_trans (UInt64.le_of_lt hlt) (hleast k hp)
      · exact UInt64.le_refl _
    · next hle =>
      refine ⟨(hiff first).2 (Or.inl hfirst), fun k hk => ?_⟩
      rcases (hiff k).1 hk with hp | rfl
      · exact hleast k hp
      · exact UInt64.not_lt.1 hle

/-- What is the earliest state has one position. -/
theorem counter_eq (h : Earliest P known) {known' : Option ChainKey} (h' : Earliest P known') :
    known.map (·.counter) = known'.map (·.counter) := by
  cases known with
  | none =>
    cases known' with
    | none => rfl
    | some first => exact absurd h'.1 (h first)
  | some first =>
    cases known' with
    | none => exact absurd h.1 (h' first)
    | some first' =>
      have hle := h.2 first' h'.1
      have hge := h'.2 first h.1
      exact congrArg some (UInt64.le_antisymm hle hge)

end ChainKey.Earliest

end SecureGroup

namespace SecureGroup.Metadata

variable [Suite] {self : Participant} {reader : Log.Reader} {log log' entries : List Log.Entry}
  {told : List Notice} {i i' j : Index} {c : Candidate} {keys keys' : ChainKeys}
  {author device recipient : PublicKey} {chainId : UInt64} {event : Event} {said : Statement}

/-! ## Events that send a chain -/

/-- A secret opens for the local member to a chain of the number that is announced. -/
theorem openSecret_eq_ok_iff {secret : SealedSecret} {k : ChainKey} :
    openSecret self chainId secret = .ok k ↔ ∃ octets,
      secret.reveal self.own.member = .ok octets ∧ ChainKey.ofBytes octets = .ok k ∧
        k.chainId = chainId := by
  simp only [openSecret, bind_eq_ok_iff]
  constructor
  · rintro ⟨octets, hreveal, chain, hchain, h⟩
    by_cases hid : chain.chainId = chainId
    · simp only [hid, ne_eq, not_true_eq_false, if_false] at h
      obtain rfl := Except.ok.inj h
      exact ⟨octets, hreveal, hchain, hid⟩
    · simp [hid] at h
      cases h
  · rintro ⟨octets, hreveal, hchain, hid⟩
    refine ⟨octets, hreveal, k, hchain, ?_⟩
    simp only [hid, ne_eq, not_true_eq_false, if_false]
    rfl

/-- The event names its author and a recipient, and a chain.  When the recipient is the local
member, the secret in it opens to a state of that chain; for others it stays closed. -/
def Event.Sends (p : Participant) (author recipient : PublicKey) (chainId : UInt64)
    (chain : Option ChainKey) (event : Event) : Prop :=
  ∃ device member secret, event = .secretAdded device member chainId secret ∧
    PublicKey.ofBytes device = .ok author ∧ PublicKey.ofBytes member = .ok recipient ∧
    if recipient = p.ids.member then
      ∃ octets k, secret.reveal p.own.member = .ok octets ∧ ChainKey.ofBytes octets = .ok k ∧
        k.chainId = chainId ∧ chain = some k
    else chain = none

theorem Event.statement_eq_sent_iff {chain : Option ChainKey} :
    event.statement self author = .ok (.sent recipient chainId chain) ↔
      event.Sends self author recipient chainId chain := by
  cases event with
  | memberAnnounced mb db ms gs => simp [statement_memberAnnounced, Sends]
  | deviceAdded mb db ms proof =>
    cases proof with
    | none => simp [statement_deviceAdded_none, Sends]
    | some proof => simp [statement_deviceAdded_some, Sends]
  | adminGranted mb => simp [statement_adminGranted, Sends]
  | secretAdded db mb id secret =>
    simp only [statement, bind_eq_ok_iff]
    constructor
    · rintro ⟨dest, hto, device, hdevice, h⟩
      by_cases ha : author = device
      · subst ha
        simp only [ne_eq, not_true_eq_false, if_false] at h
        by_cases hown : dest = self.ids.member
        · simp only [hown, if_true, bind_eq_ok_iff] at h
          obtain ⟨k, hk, hsaid⟩ := h
          obtain ⟨rfl, rfl, rfl⟩ := Statement.sent.inj (Except.ok.inj hsaid)
          obtain ⟨octets, hreveal, hchain, hid⟩ := openSecret_eq_ok_iff.1 hk
          refine ⟨db, mb, secret, rfl, hdevice, hown ▸ hto, ?_⟩
          rw [if_pos rfl]
          exact ⟨octets, k, hreveal, hchain, hid, rfl⟩
        · simp only [hown, if_false] at h
          obtain ⟨rfl, rfl, rfl⟩ := Statement.sent.inj (Except.ok.inj h)
          refine ⟨db, mb, secret, rfl, hdevice, hto, ?_⟩
          rw [if_neg hown]
      · simp [ha] at h
        cases h
    · rintro ⟨_, _, _, he, hdevice, hto, h⟩
      cases he
      refine ⟨recipient, hto, author, hdevice, ?_⟩
      simp only [ne_eq, not_true_eq_false, if_false]
      by_cases hown : recipient = self.ids.member
      · rw [if_pos hown] at h ⊢
        obtain ⟨octets, k, hreveal, hchain, hid, rfl⟩ := h
        have hk : openSecret self chainId secret = .ok k :=
          openSecret_eq_ok_iff.2 ⟨octets, hreveal, hchain, hid⟩
        rw [hk]
        rfl
      · rw [if_neg hown] at h ⊢
        rw [h]
        rfl

/-- Some entry of the log is from a device and sends a chain of the device to a member. -/
def SentIn (self : Participant) (reader : Log.Reader) (log : List Log.Entry)
    (author recipient : PublicKey) (chainId : UInt64) (chain : Option ChainKey) : Prop :=
  ∃ e ∈ log, ∃ opened event, Progress.openEntry reader e = .ok (opened, event) ∧
    opened.sender = author ∧ event.Sends self author recipient chainId chain

theorem sentIn_iff {chain : Option ChainKey} :
    SentIn self reader log author recipient chainId chain ↔ ∃ c, Offered self reader log c ∧
      c.author = author ∧ c.statement = .sent recipient chainId chain := by
  constructor
  · rintro ⟨e, he, opened, event, ho, rfl, hsends⟩
    exact ⟨⟨e.hash, opened.sender, event, .sent recipient chainId chain⟩,
      ⟨e, he, opened, ho, rfl, rfl, Event.statement_eq_sent_iff.2 hsends⟩, rfl, rfl⟩
  · rintro ⟨c, ⟨e, he, opened, ho, -, ha, hs⟩, rfl, hsaid⟩
    rw [hsaid] at hs
    exact ⟨e, he, opened, c.event, ho, ha.symm, Event.statement_eq_sent_iff.1 hs⟩

/-- The states of a chain that can be known: one from the start, and those that were sent to the
local member. -/
def Known (self : Participant) (reader : Log.Reader) (keys : ChainKeys) (log : List Log.Entry)
    (device : PublicKey) (chainId : UInt64) (k : ChainKey) : Prop :=
  keys.first? device chainId = some k ∨
    SentIn self reader log device self.ids.member chainId (some k)

/-! ## What a statement does to the keys -/

/-- The chain that a statement brings, which is one that was sent to the local member. -/
def Statement.chain? : Statement → Option ChainKey
  | .sent _ _ chain => chain
  | _ => none

omit [Suite] in
theorem Statement.chain?_eq_some {chain : ChainKey} (h : said.chain? = some chain) :
    ∃ recipient chainId, said = .sent recipient chainId (some chain) := by
  cases said with
  | sent recipient chainId sent =>
    obtain rfl : sent = some chain := h
    exact ⟨recipient, chainId, rfl⟩
  | announced pair => cases h
  | joined pair inviter => cases h
  | extended pair => cases h
  | granted member => cases h

namespace State

/-- Only a chain that is sent to the local member changes the keys. -/
theorem keys_step (self : Participant) (s : State) (author : PublicKey) (said : Statement) :
    (s.step self author said).2.keys = match said.chain? with
      | some chain =>
        if author = self.ids.device ∧ chain.chainId = s.keys.own.chainId then s.keys
        else (s.keys.register author chain).2
      | none => s.keys := by
  cases said with
  | sent recipient chainId chain =>
    have hnoted : (if author = self.ids.device then s.noteSent recipient chainId else s).keys =
        s.keys := by
      split
      · exact keys_noteSent s recipient chainId
      · rfl
    cases chain with
    | none => exact hnoted
    | some chain =>
      simp only [step, learn, hnoted, Statement.chain?]
      split
      · exact hnoted
      · rfl
  | announced pair => simp only [step]; split <;> rfl
  | joined pair inviter => simp only [step]; split <;> rfl
  | extended pair => simp only [step]; split <;> rfl
  | granted member => simp only [step]; split <;> rfl

/-- No statement changes the chain on which the local device sends, or what is known of it. -/
theorem live_step (self : Participant) (s : State) (author : PublicKey) (said : Statement) :
    (s.step self author said).2.keys.own = s.keys.own ∧
      (s.step self author said).2.keys.ratchet? self.ids.device s.keys.own.chainId =
        s.keys.ratchet? self.ids.device s.keys.own.chainId := by
  rw [keys_step]
  split
  · next chain _ =>
    split
    · exact ⟨rfl, rfl⟩
    · next hother =>
      have hne : (self.ids.device, s.keys.own.chainId) ≠ (author, chain.chainId) := by
        intro heq
        obtain ⟨hdevice, hid⟩ := Prod.mk.inj heq
        exact hother ⟨hdevice.symm, hid.symm⟩
      exact ⟨ChainKeys.own_register _ _ _, ChainKeys.ratchet?_register_of_ne _ hne⟩
  · exact ⟨rfl, rfl⟩

/-- A statement that sends a chain to the local member makes it known from the earlier state on, and
all other chains stay as they are. -/
theorem first?_step (self : Participant) (s : State) (author : PublicKey) (said : Statement)
    (hlive : (device, chainId) ≠ (self.ids.device, s.keys.own.chainId)) :
    (s.step self author said).2.keys.first? device chainId = match said.chain? with
      | some chain =>
        if (device, chainId) = (author, chain.chainId) then
          some (ChainKeys.earlier (s.keys.first? device chainId) chain)
        else s.keys.first? device chainId
      | none => s.keys.first? device chainId := by
  rw [keys_step]
  cases said.chain? with
  | none => rfl
  | some chain =>
    dsimp only
    split
    · next hown =>
      have hne : (device, chainId) ≠ (author, chain.chainId) := by
        rw [hown.1, hown.2]
        exact hlive
      rw [if_neg hne]
    · exact ChainKeys.first?_register _ _ _ _ _

end State

/-! ## Moves -/

/-- A chain that a candidate sends to the local member has the number that is announced. -/
theorem Offered.of_sent_some {id : UInt64} {k : ChainKey} (h : Offered self reader log c)
    (hs : c.statement = .sent recipient id (some k)) :
    recipient = self.ids.member ∧ k.chainId = id := by
  obtain ⟨e, he, opened, ho, -, -, hsaid⟩ := h
  rw [hs] at hsaid
  obtain ⟨_, _, _, -, -, -, hopen⟩ := Event.statement_eq_sent_iff.1 hsaid
  split at hopen
  · next hown =>
    obtain ⟨octets, k', -, -, hid, hk⟩ := hopen
    obtain rfl := Option.some.inj hk
    exact ⟨hown, hid⟩
  · cases hopen

/-- A move is done with nothing on offer and leaves the state, or it is done with one candidate and
the state is that after its statement. -/
theorem Move.done_cases (h : Move self reader log i j told) (hd : OnePayload log) :
    (j.state = i.state ∧
        ∀ c, Offered self reader log c → (c.hash ∈ j.handled ↔ c.hash ∈ i.handled)) ∨
      ∃ c, Offered self reader log c ∧ j.state = (i.state.step self c.author c.statement).2 ∧
        ∀ d, Offered self reader log d → (d.hash ∈ j.handled ↔ d.hash ∈ i.handled ∨ d = c) := by
  rcases h.handled_cases with ⟨-, hh, hs⟩ | ⟨-, e, he, opened, event, cause, ho, hbad, hh, hs⟩ |
    ⟨c, hc, hfresh, -, hh, hs, -⟩
  · refine Or.inl ⟨hs, fun c _ => ?_⟩
    rw [hh]
  · refine Or.inl ⟨hs, fun c hc => ?_⟩
    have hne := hc.hash_ne_of_error hd he ho hbad
    rw [hh, List.mem_cons]
    exact or_iff_right hne
  · refine Or.inr ⟨c, hc, hs, fun d hdc => ?_⟩
    rw [hh, List.mem_cons, or_comm]
    constructor
    · rintro (hm | heq)
      · exact Or.inl hm
      · exact Or.inr (hdc.unique hc hd heq)
    · rintro (hm | rfl)
      · exact Or.inl hm
      · exact Or.inr rfl

/-- A state of a chain that was known at the start, or was sent to the local member by an entry that
is done with. -/
def Learned (self : Participant) (reader : Log.Reader) (log : List Log.Entry) (keys : ChainKeys)
    (handled : List EntryHash) (device : PublicKey) (chainId : UInt64) (k : ChainKey) : Prop :=
  keys.first? device chainId = some k ∨ ∃ c, Offered self reader log c ∧ c.hash ∈ handled ∧
    c.author = device ∧ c.statement = .sent self.ids.member chainId (some k)

section Learned

variable {handled handled' : List EntryHash} {k : ChainKey}

theorem learned_congr
    (h : ∀ c, Offered self reader log c → (c.hash ∈ handled' ↔ c.hash ∈ handled)) :
    Learned self reader log keys handled' device chainId k ↔
      Learned self reader log keys handled device chainId k := by
  refine or_congr_right ?_
  constructor
  · rintro ⟨c, hc, hm, hx⟩
    exact ⟨c, hc, (h c hc).1 hm, hx⟩
  · rintro ⟨c, hc, hm, hx⟩
    exact ⟨c, hc, (h c hc).2 hm, hx⟩

/-- Who is done with one more candidate has learned what was learned before, and its chain. -/
theorem learned_iff_of_done (hc : Offered self reader log c)
    (h : ∀ d, Offered self reader log d → (d.hash ∈ handled' ↔ d.hash ∈ handled ∨ d = c)) :
    Learned self reader log keys handled' device chainId k ↔
      Learned self reader log keys handled device chainId k ∨
        (c.author = device ∧ c.statement = .sent self.ids.member chainId (some k)) := by
  rw [Learned, Learned, or_assoc]
  refine or_congr_right ?_
  constructor
  · rintro ⟨d, hd, hm, hx⟩
    rcases (h d hd).1 hm with hm | rfl
    · exact Or.inl ⟨d, hd, hm, hx⟩
    · exact Or.inr hx
  · rintro (⟨d, hd, hm, hx⟩ | hx)
    · exact ⟨d, hd, (h d hd).2 (Or.inl hm), hx⟩
    · exact ⟨c, hc, (h c hc).2 (Or.inr rfl), hx⟩

end Learned

/-- The keys of an index: the chain on which the local device sends is the same as ever and is known
from the same state on, and every other chain is known from the earliest state that was learned. -/
structure Slots (p : Participant) (reader : Log.Reader) (log : List Log.Entry) (keys : ChainKeys)
    (i : Index) : Prop where
  chainId : i.state.keys.own.chainId = keys.own.chainId
  live : i.state.keys.first? p.ids.device keys.own.chainId =
    keys.first? p.ids.device keys.own.chainId
  others : ∀ device chainId, (device, chainId) ≠ (p.ids.device, keys.own.chainId) →
    ChainKey.Earliest (Learned p reader log keys i.handled device chainId)
      (i.state.keys.first? device chainId)

theorem slots_empty (keys : ChainKeys) : Slots self reader log keys (.empty keys) where
  chainId := rfl
  live := rfl
  others device chainId hne := by
    have hiff : ∀ k, Learned self reader log keys (Index.empty keys).handled device chainId k ↔
        keys.first? device chainId = some k := by
      intro k
      refine or_iff_left ?_
      rintro ⟨c, -, hm, -⟩
      cases hm
    exact (ChainKey.Earliest.of_known (keys.first? device chainId)).congr hiff

theorem Move.slots (h : Move self reader log i j told) (hd : OnePayload log)
    (hi : Slots self reader log keys i) : Slots self reader log keys j := by
  rcases h.done_cases hd with ⟨hs, hh⟩ | ⟨c, hc, hs, hh⟩
  · refine ⟨hs ▸ hi.chainId, hs ▸ hi.live, fun device chainId hne => ?_⟩
    rw [hs]
    exact (hi.others device chainId hne).congr fun k => learned_congr hh
  · obtain ⟨hown, hratchet⟩ := State.live_step self i.state c.author c.statement
    rw [← hs] at hown hratchet
    rw [hi.chainId] at hratchet
    refine ⟨hown ▸ hi.chainId, ?_, fun device chainId hne => ?_⟩
    · rw [ChainKeys.first?, hratchet]
      exact hi.live
    · have hfirst := State.first?_step self i.state c.author c.statement (hi.chainId.symm ▸ hne)
      have hlearned : ∀ k, Learned self reader log keys j.handled device chainId k ↔ _ :=
        fun k => learned_iff_of_done hc hh
      have hsame : (∀ k, ¬ (c.author = device ∧
          c.statement = .sent self.ids.member chainId (some k))) →
          ∀ k, Learned self reader log keys j.handled device chainId k ↔
            Learned self reader log keys i.handled device chainId k := by
        intro hnot k
        rw [hlearned]
        exact or_iff_left (hnot k)
      have hbefore := hi.others device chainId hne
      rw [hs, hfirst]
      cases hchain : c.statement.chain? with
      | none =>
        refine hbefore.congr (hsame fun k hx => ?_)
        rw [hx.2] at hchain
        cases hchain
      | some chain =>
        obtain ⟨recipient, id, hsaid⟩ := Statement.chain?_eq_some hchain
        obtain ⟨rfl, rfl⟩ := hc.of_sent_some hsaid
        dsimp only
        split
        · next heq =>
          obtain ⟨rfl, rfl⟩ := Prod.mk.inj heq
          refine hbefore.learn fun k => (hlearned k).trans (or_congr_right ?_)
          rw [hsaid]
          simp [eq_comm]
        · next hother =>
          refine hbefore.congr (hsame fun k hx => hother ?_)
          rw [hsaid] at hx
          obtain ⟨rfl, hx⟩ := hx
          obtain ⟨-, rfl, -⟩ := Statement.sent.inj hx
          rfl

/-! ## Served indexes -/

/-- The indexes that batches of any entries lead to from some keys, which the local device uses
between the batches. -/
inductive Served (self : Participant) (reader : Log.Reader) (keys : ChainKeys) :
    List Log.Entry → Index → Prop
  | start : Served self reader keys [] (.empty keys)
  | uses {log : List Log.Entry} {i : Index} {keys' : ChainKeys}
      (before : Served self reader keys log i) (used : i.state.keys.Uses keys') :
      Served self reader keys log (i.withKeys keys')
  | update {log : List Log.Entry} {i : Index} (entries : List Log.Entry)
      (before : Served self reader keys log i) :
      Served self reader keys (log ++ entries) (i.update self reader entries).index

/-- A batch changes neither the chain on which the local device sends nor what is known of it. -/
theorem Index.live_update (hi : i.Tidy self reader log) (entries : List Log.Entry) :
    (i.update self reader entries).index.state.keys.own = i.state.keys.own ∧
      (i.update self reader entries).index.state.keys.ratchet? self.ids.device
          i.state.keys.own.chainId =
        i.state.keys.ratchet? self.ids.device i.state.keys.own.chainId := by
  have hmono := hi.mono fun e he => List.mem_append_left entries he
  have hmoves := (Index.moves_update hmono fun e he => List.mem_append_right log he).1
  generalize (i.update self reader entries).index = j at hmoves
  generalize (i.update self reader entries).notices = told at hmoves
  induction hmoves with
  | refl => exact ⟨rfl, rfl⟩
  | @snoc j k told more before last ih =>
    obtain ⟨hown, hratchet⟩ := ih
    cases last with
    | invalid mem fresh opens invalid => exact ⟨hown, hratchet⟩
    | @tried _ c _ offered fresh tries =>
      obtain ⟨hown', hratchet'⟩ := State.live_step self j.state c.author c.statement
      rw [hown] at hratchet' hown'
      rw [tries.state_eq]
      exact ⟨hown', hratchet'.trans hratchet⟩

namespace Served

theorem reached (h : Served self reader keys log i) : ∃ told, Reached self reader log told i := by
  induction h with
  | start => exact ⟨[], .empty keys⟩
  | @uses log i keys' before used ih =>
    obtain ⟨told, hreached⟩ := ih
    exact ⟨told, hreached.withKeys keys'⟩
  | update entries before ih =>
    obtain ⟨told, hreached⟩ := ih
    exact ⟨_, hreached.update entries⟩

theorem slots (h : Served self reader keys log i) (sub : ∀ e ∈ log, e ∈ log')
    (hd : OnePayload log') : Slots self reader log' keys i := by
  induction h with
  | start => exact slots_empty keys
  | @uses log i keys' before used ih =>
    have hi := ih sub
    refine ⟨used.chainId_eq.trans hi.chainId, ?_, fun device chainId hne => ?_⟩
    · exact (used.first? _ _).trans hi.live
    · exact (used.first? device chainId).symm ▸ hi.others device chainId hne
  | @update log i entries before ih =>
    have hbefore : ∀ e ∈ log, e ∈ log' := fun e he => sub e (List.mem_append_left entries he)
    obtain ⟨told, hreached⟩ := before.reached
    have hmoves := (Index.moves_update (hreached.tidy.mono hbefore)
      fun e he => sub e (List.mem_append_right log he)).1
    have hi := ih hbefore
    generalize (i.update self reader entries).index = j at hmoves
    generalize (i.update self reader entries).notices = told' at hmoves
    induction hmoves with
    | refl => exact hi
    | snoc before last ih => exact last.slots hd ih

/-- Every chain but the live one is known from the earliest state on. -/
theorem earliest (h : Served self reader keys log i) (hd : OnePayload log)
    (hne : (device, chainId) ≠ (self.ids.device, keys.own.chainId)) :
    ChainKey.Earliest (Known self reader keys log device chainId)
      (i.state.keys.first? device chainId) := by
  obtain ⟨told, hreached⟩ := h.reached
  refine ((h.slots (fun e he => he) hd).others device chainId hne).congr fun k => ?_
  refine or_congr_right (sentIn_iff.trans ?_)
  constructor
  · rintro ⟨c, hc, ha, hs⟩
    have hen : i.state.roster.Enabled c.author c.statement := by
      rw [hs]
      trivial
    exact ⟨c, hc, hreached.mem_handled_of_enabled hd hc hen, ha, hs⟩
  · rintro ⟨c, hc, -, ha, hs⟩
    exact ⟨c, hc, ha, hs⟩

theorem mem_sent_iff (h : Served self reader keys log i) (hd : OnePayload log) :
    (recipient, chainId) ∈ i.state.sent ↔
      ∃ chain, SentIn self reader log self.ids.device recipient chainId chain := by
  obtain ⟨told, hreached⟩ := h.reached
  rw [hreached.mem_sent_iff hd]
  constructor
  · rintro ⟨c, hc, ha, hs⟩
    cases hsaid : c.statement with
    | sent dest id chain =>
      rw [hsaid] at hs
      obtain ⟨rfl, rfl⟩ := Prod.mk.inj (Option.some.inj hs)
      exact ⟨chain, sentIn_iff.2 ⟨c, hc, ha, hsaid⟩⟩
    | announced pair => rw [hsaid] at hs; cases hs
    | joined pair inviter => rw [hsaid] at hs; cases hs
    | extended pair => rw [hsaid] at hs; cases hs
    | granted member => rw [hsaid] at hs; cases hs
  · rintro ⟨chain, hsent⟩
    obtain ⟨c, hc, ha, hs⟩ := sentIn_iff.1 hsent
    refine ⟨c, hc, ha, ?_⟩
    rw [hs]
    rfl

/-- What the log says is sent depends on which entries it has. -/
theorem sentIn_congr {chain : Option ChainKey} (same : ∀ e, e ∈ log ↔ e ∈ log') :
    SentIn self reader log author recipient chainId chain ↔
      SentIn self reader log' author recipient chainId chain :=
  exists_congr fun e => and_congr_left' (same e)

/-- After any batches, with whatever use of the keys between them:

* the secrets noted as sent are those that the log has from the local device;
* every chain but the live one is known if it was known at the start or a state of it was sent to
  the local member, and then from the earliest such state on;
* the next batch leaves the chain on which the local device sends as it is, and what is known of it;
* other batches of the same entries lead to the same secrets and to the same chains, known from the
  same positions on. -/
theorem secrets_exact (h : Served self reader keys log i) (hd : OnePayload log) :
    (∀ recipient chainId, (recipient, chainId) ∈ i.state.sent ↔
        ∃ chain, SentIn self reader log self.ids.device recipient chainId chain) ∧
      (∀ device chainId, (device, chainId) ≠ (self.ids.device, keys.own.chainId) →
        let known := Known self reader keys log device chainId
        (i.state.keys.hasChain device chainId = true ↔ ∃ k, known k) ∧
          ∀ r, i.state.keys.ratchet? device chainId = some r →
            known r.first ∧ ∀ k, known k → r.first.counter ≤ k.counter) ∧
      (∀ entries,
        let after := (i.update self reader entries).index.state.keys
        after.own = i.state.keys.own ∧
          after.ratchet? self.ids.device keys.own.chainId =
            i.state.keys.ratchet? self.ids.device keys.own.chainId) ∧
      ∀ {log' i'}, Served self reader keys log' i' → (∀ e, e ∈ log ↔ e ∈ log') →
        (∀ x, x ∈ i.state.sent ↔ x ∈ i'.state.sent) ∧
          ∀ device chainId, (i.state.keys.first? device chainId).map (·.counter) =
            (i'.state.keys.first? device chainId).map (·.counter) := by
  obtain ⟨told, hreached⟩ := h.reached
  refine ⟨fun recipient chainId => h.mem_sent_iff hd, ?_, ?_, ?_⟩
  · intro device chainId hne known
    have hearliest : ChainKey.Earliest known
        ((i.state.keys.ratchet? device chainId).map (·.first)) := h.earliest hd hne
    unfold ChainKeys.hasChain
    cases hr : i.state.keys.ratchet? device chainId with
    | none =>
      rw [hr] at hearliest
      refine ⟨iff_of_false Bool.false_ne_true ?_, fun r hr' => by cases hr'⟩
      rintro ⟨k, hk⟩
      exact hearliest k hk
    | some r =>
      rw [hr] at hearliest
      refine ⟨iff_of_true rfl ⟨r.first, hearliest.1⟩, fun r' hr' => ?_⟩
      obtain rfl := Option.some.inj hr'
      exact hearliest
  · intro entries after
    have hlive := Index.live_update hreached.tidy entries
    rw [(h.slots (fun e he => he) hd).chainId] at hlive
    exact hlive
  · intro log' i' h' same
    have hd' : OnePayload log' := hd.of_subset fun e he => (same e).2 he
    refine ⟨?_, ?_⟩
    · rintro ⟨recipient, chainId⟩
      rw [h.mem_sent_iff hd, h'.mem_sent_iff hd']
      exact exists_congr fun chain => sentIn_congr same
    · intro device chainId
      by_cases hlive : (device, chainId) = (self.ids.device, keys.own.chainId)
      · obtain ⟨rfl, rfl⟩ := Prod.mk.inj hlive
        rw [(h.slots (fun e he => he) hd).live, (h'.slots (fun e he => he) hd').live]
      · have hearliest := h.earliest hd hlive
        have hearliest' := (h'.earliest hd' hlive).congr fun k =>
          or_congr_right (sentIn_congr same)
        exact hearliest.counter_eq hearliest'

end Served

end SecureGroup.Metadata

namespace SecureGroup.Plain

attribute [local instance] Suite.plain

open Metadata

def secretOf (device member : UInt8) (chain : ChainKey) : Event :=
  .secretAdded (key device).pub.bytes.toList (key member).pub.bytes.toList chain.chainId
    (SealedSecret.sealWith (.fit 32 []) (.fit 12 []) (ChainKey.codec.encode chain) (key member).pub)

/-- Device 9 sends a state of its chain to member 1 and then an earlier one, and device 2 of member
1 sends its own chain to member 8. -/
def secretsCrossing : List Log.Entry :=
  [entry 9 (secretOf 9 1 ⟨5, .fit 32 [], 3⟩), entry 9 (secretOf 9 1 ⟨5, .fit 32 [], 1⟩),
    entry 2 (secretOf 2 8 ⟨0, .fit 32 [], 0⟩)]

end SecureGroup.Plain

namespace SecureGroup.Metadata

attribute [local instance] Suite.plain

open Plain

theorem secrets_exact_crossing :
    let i := ((Index.empty (chains 2)).update (participant 1 2) reader secretsCrossing).index
    let j :=
      ((Index.empty (chains 2)).update (participant 1 2) reader secretsCrossing.reverse).index
    OnePayload secretsCrossing ∧ i.state.sent = [((key 8).pub, 0)] ∧
      (i.state.keys.first? (key 9).pub 5).map (·.counter) = some 1 ∧
      (j.state.keys.first? (key 9).pub 5).map (·.counter) = some 1 ∧
      ∃ k, Known (participant 1 2) reader (chains 2) secretsCrossing (key 9).pub 5 k := by
  intro i j
  have hpayload : OnePayload secretsCrossing := by decide +kernel
  have hi : Served (participant 1 2) reader (chains 2) secretsCrossing i :=
    .update secretsCrossing .start
  have hj : Served (participant 1 2) reader (chains 2) secretsCrossing.reverse j :=
    .update secretsCrossing.reverse .start
  have hsame : ∀ e, e ∈ secretsCrossing ↔ e ∈ secretsCrossing.reverse := fun e => by simp
  obtain ⟨-, hknown, -, hother⟩ := Served.secrets_exact hi hpayload
  have hcounter : (i.state.keys.first? (key 9).pub 5).map (·.counter) = some 1 := by decide +kernel
  refine ⟨hpayload, by decide +kernel, hcounter, ?_, ?_⟩
  · rw [← (hother hj hsame).2]
    exact hcounter
  · exact (hknown (key 9).pub 5 (by decide +kernel)).1.1 (by decide +kernel)

end SecureGroup.Metadata
