import SecureGroup.Proofs.Accounts
import SecureGroup.Proofs.Handover
import SecureGroup.Proofs.Joining
import SecureGroup.Proofs.Provenance
import SecureGroup.Proofs.Spellings

/-!
# What comes of a request

A replica can be asked to add its device, to send its chain to a member, or to make a member an
admin (`Request`).  It refuses what its index shows to be useless.  Otherwise it writes an event and
meets it again when it takes the log.  The refusal looks at the member of the replica, the index
looks at the device that wrote the entry, so the two need not agree: `Request.verdict` is what the
index will say (`Request.answered`).  A device that is registered under its own member is never
disappointed.  A device that is another member's cannot be added, and a grant waits as long as the
device that wrote it is not registered under an admin (`Request.disappointed`).
-/

namespace SecureGroup

/-- A number that a word can hold has at most ten groups. -/
theorem Wire.Varint.length_encode_le {n : Nat} (h : n < UInt64.size) : (encode n).length ≤ 10 := by
  obtain ⟨more, hwithin, heq, -⟩ := exists_encode_eq (by decide : 0 < 64) h
  rw [heq, length_inGroups]
  have := hwithin.groups
  omega

namespace Metadata

variable [Suite] {self p : Participant} {reader : Log.Reader} {log : List Log.Entry}
  {told : List Notice} {s : State} {i : Index} {c : Candidate} {e : Log.Entry}
  {author member : PublicKey} {said : Statement} {n n' : Notice} {v : Verdict}

/-! ## A batch of one entry -/

/-- The verdicts on a statement, and what they leave of the state. -/
theorem State.verdict_cases (self : Participant) (s : State) (author : PublicKey)
    (said : Statement) :
    s.verdict self author said = .applied ∨
      (s.verdict self author said = .misdirected ∧
        (s.step self author said).2.roster = s.roster) ∨
      (s.verdict self author said = .dropped ∧ (s.step self author said).2 = s) ∨
      (s.verdict self author said = .waits ∧ ¬ s.roster.Enabled author said) := by
  cases henrol : s.roster.enrol author said with
  | ok r =>
    rcases step_of_ok self henrol with hok | ⟨m, chainId, rfl, hmisdirected, rfl⟩
    · exact Or.inl (by rw [verdict, hok])
    · exact Or.inr (Or.inl ⟨by rw [verdict, hmisdirected], roster_step self henrol⟩)
  | error cause =>
    have hstep := step_of_error self henrol
    have hverdict : (∀ m, cause ≠ .misdirected m) → s.verdict self author said =
        if cause.isMissingDependency then .waits else .dropped := by
      intro hne
      rw [verdict, hstep]
      cases cause with
      | misdirected m => exact absurd rfl (hne m)
      | _ => rfl
    rcases Roster.enrol_error henrol with ⟨hmissing, hdisabled⟩ | ⟨hmissing, hne, -, -⟩
    · have hwaits := hverdict (ne_misdirected hmissing)
      exact Or.inr (Or.inr (Or.inr ⟨by rw [hwaits, if_pos hmissing], hdisabled⟩))
    · refine Or.inr (Or.inr (Or.inl ⟨?_, by rw [hstep]⟩))
      rw [hverdict hne, hmissing]
      rfl

/-- What a batch of one entry comes to, by the verdict on that entry. -/
def Index.Answers (self : Participant) (reader : Log.Reader) (i : Index) (e : Log.Entry)
    (n : Notice) : Verdict → Prop
  -- it takes effect first, and then what waited for it may
  | .applied => e.hash ∈ (i.update self reader [e]).index.handled ∧
    ∃ more, (i.update self reader [e]).notices = n :: more ∧
      (i.update self reader [e]).summary.applied = more.length + 1
  -- only what was sent is noted
  | .misdirected => ∃ state, state.roster = i.state.roster ∧ i.update self reader [e] =
    ⟨⟨state, e.hash :: i.handled, i.deferred⟩, ⟨0, 0, 1, 0, i.deferred.length⟩, []⟩
  | .dropped => i.update self reader [e] =
    ⟨⟨i.state, e.hash :: i.handled, i.deferred⟩, ⟨0, 0, 0, 1, i.deferred.length⟩, []⟩
  | .waits => ∃ c, c.notice = n ∧ i.update self reader [e] =
    ⟨⟨i.state, i.handled, Progress.insertCandidate c i.deferred⟩,
      ⟨0, 0, 0, 0, i.deferred.length + 1⟩, []⟩

theorem Index.applied_update (hi : i.Tidy self reader log) (entries : List Log.Entry) :
    (i.update self reader entries).summary.applied =
      (i.update self reader entries).notices.length := by
  obtain ⟨unread, done, haccounts⟩ := Index.accounts_update
    (hi.mono fun d hd => List.mem_append_left entries hd) fun d hd => List.mem_append_right log hd
  obtain ⟨hnotices, happlied, -⟩ := haccounts.of_start
  rw [hnotices, happlied, List.length_filterMap_eq_countP]
  refine List.countP_congr fun o _ => ?_
  cases o with
  | invalid hash => simp [Outcome.verdict, Outcome.notice?]
  | judged c verdict => cases verdict <;> simp [Outcome.verdict, Outcome.notice?]

/-- An entry that is delivered for the first time, as a batch of its own, is given the verdict of
the state. -/
theorem Reached.answers (h : Reached self reader log told i) (hc : c.Of self reader e)
    (first : e.hash ∉ log.map (·.hash)) :
    i.Answers self reader e c.notice (i.state.verdict self c.author c.statement) := by
  have htake := Progress.take_of_candidate (p := .start i) hc (h.tidy.knows_eq_false first)
  have hhash : c.hash = e.hash := by
    obtain ⟨-, -, hhash, -⟩ := hc
    exact hhash
  rw [Progress.consider_eq_judge, show (Progress.start i).index = i from rfl] at htake
  rcases i.state.verdict_cases self c.author c.statement with hv | ⟨hv, hroster⟩ | ⟨hv, hstate⟩ |
    ⟨hv, hdisabled⟩
  · rw [hv] at htake ⊢
    have hrun := Index.runs_update h.tidy [e] []
    rw [List.append_nil, List.foldl_cons, List.foldl_nil, htake] at hrun
    obtain ⟨more, hmoves, hnotices⟩ := hrun
    refine ⟨hmoves.extends.handled (hhash ▸ List.mem_cons_self), more, hnotices, ?_⟩
    rw [Index.applied_update h.tidy, hnotices]
    exact List.length_cons
  · rw [hv] at htake ⊢
    refine ⟨(i.state.step self c.author c.statement).2, hroster, ?_⟩
    rw [h.update_singleton (by rw [htake]; exact hroster) (by rw [htake]; rfl), htake, ← hhash]
    rfl
  · rw [hv, hstate] at htake
    rw [hv, Index.Answers, h.update_singleton (by rw [htake]; rfl) (by rw [htake]; rfl), htake,
      ← hhash]
    rfl
  · rw [hv]
    exact ⟨c, rfl, h.update_of_not_enabled hc first hdisabled⟩

/-! ## Requests -/

theorem Event.SignsDevice.valid_member {ev : Event} {pair : MemberDevice}
    (h : ev.SignsDevice p pair) : pair.member.Valid := by
  cases ev with
  | memberAnnounced mb db ms gs => exact (PublicKey.of_ofBytes h.1).2
  | deviceAdded mb db ms proof => exact (PublicKey.of_ofBytes h.1).2
  | secretAdded db mb chainId secret => cases h
  | adminGranted mb => cases h

/-- Every member that an index comes to know is a key of the suite. -/
theorem Reached.valid_of_isMember (h : Reached self reader log told i)
    (hm : i.state.roster.isMember member = true) : member.Valid := by
  obtain ⟨device, hdevice⟩ := h.consistent.isMember_iff.1 hm
  obtain ⟨c, hoffered, -, hpair⟩ := h.record.exists_pair hdevice
  exact (Event.signsDevice_of_statement hoffered.statement hpair).valid_member

omit [Suite] in
theorem Roster.isMember_of_devicesOf {r : Roster} {devices : List PublicKey}
    (h : r.devicesOf member = .ok devices) : r.isMember member = true := by
  unfold devicesOf at h
  split at h
  · assumption
  · cases h

/-- What a replica can be asked to write about its group. -/
inductive Request
  | addDevice
  | sendSecret (recipient : PublicKey)
  | grantAdmin (member : PublicKey)

namespace Request

def event (p : Participant) (s : State) : Request → Except Error (Draw Event)
  | addDevice => return pure (← Metadata.addDevice p s)
  | sendSecret recipient => Metadata.sendSecret p s recipient
  | grantAdmin member => return pure (← Metadata.grantAdmin p s member)

/-- Lets a replica of a network do what it is asked for. -/
def write (net : Network) (name : String) (r : Replica) : Request → Draw (Network.Outcome Log.Ref)
  | addDevice => net.addDevice name r
  | sendSecret recipient => net.sendSecret name r recipient
  | grantAdmin member => net.grantAdmin name r member

/-- What the entry of a request says to the participant itself. -/
def statement (p : Participant) (s : State) : Request → Statement
  | addDevice => .extended p.ids
  | sendSecret recipient => handedTo p s recipient
  | grantAdmin member => .granted member

/-- What the index of the participant says to the entry of a request. -/
def verdict (p : Participant) (r : Roster) : Request → Verdict
  | addDevice => if (r.owner? p.ids.device).all (· = p.ids.member) then .applied else .dropped
  | sendSecret recipient => if recipient = p.ids.member then .applied else .misdirected
  | grantAdmin _ => if (r.owner? p.ids.device).any r.isAdmin then .applied else .waits

/-- A request is not useless as far as the index shows, and some event is written for it. -/
inductive Allows (p : Participant) (s : State) : Request → Event → Prop
  | addDevice (known : s.roster.isMember p.ids.member = true) :
      Allows p s addDevice (.deviceAdded p.ids.member.bytes.toList p.ids.device.bytes.toList
        (p.own.member.signDevice p.group.id p.ids.device) none)
  | sendSecret {recipient : PublicKey} (oneTime : Octets 32) (nonce : Octets 12)
      (known : s.roster.isMember recipient = true) :
      Allows p s (sendSecret recipient) (sealedChain p s recipient oneTime nonce)
  | grantAdmin {member : PublicKey} (admin : s.roster.isAdmin p.ids.member = true)
      (known : s.roster.isMember member = true) :
      Allows p s (grantAdmin member) (.adminGranted member.bytes.toList)

variable {request : Request} {draw : Draw Event} {ev : Event}

theorem allows_addDevice (h : Metadata.addDevice p s = .ok ev) : addDevice.Allows p s ev := by
  obtain ⟨_, hdevices, hev⟩ := bind_eq_ok_iff.1 h
  obtain rfl := Except.ok.inj hev
  exact .addDevice (Roster.isMember_of_devicesOf hdevices)

theorem allows_grantAdmin (h : Metadata.grantAdmin p s member = .ok ev) :
    (grantAdmin member).Allows p s ev := by
  unfold Metadata.grantAdmin at h
  cases admin : s.roster.isAdmin p.ids.member with
  | false =>
    rw [admin] at h
    cases h
  | true =>
    rw [admin] at h
    obtain ⟨_, hdevices, hev⟩ := bind_eq_ok_iff.1 h
    obtain rfl := Except.ok.inj hev
    exact .grantAdmin admin (Roster.isMember_of_devicesOf hdevices)

theorem allows_of_event (h : request.event p s = .ok draw) (n : Entropy) :
    request.Allows p s (draw n).1 := by
  cases request with
  | addDevice =>
    obtain ⟨ev, hev, hdraw⟩ := bind_eq_ok_iff.1 h
    obtain rfl := Except.ok.inj hdraw
    exact allows_addDevice hev
  | sendSecret recipient =>
    obtain ⟨known, -, rfl⟩ := sendSecret_eq_ok_iff.1 h
    exact .sendSecret _ _ known
  | grantAdmin member =>
    obtain ⟨ev, hev, hdraw⟩ := bind_eq_ok_iff.1 h
    obtain rfl := Except.ok.inj hdraw
    exact allows_grantAdmin hev

omit [Suite] in
theorem length_encode_chain_le (c : ChainKey) : (ChainKey.codec.encode c).length ≤ 52 := by
  have hid := Wire.Varint.length_encode_le c.chainId.toNat_lt
  have hcounter := Wire.Varint.length_encode_le c.counter.toNat_lt
  simp only [ChainKey.codec, Codec.convert, Codec.pair, Codec.word64, Codec.octets,
    List.length_append, Octets.length_toList]
  omega

/-- A secret that is sent has a few octets. -/
theorem length_encode_sealedChain_le (size : Suite.CiphertextLength) (p : Participant) (s : State)
    (recipient : PublicKey) (oneTime : Octets 32) (nonce : Octets 12) :
    (sealedChain p s recipient oneTime nonce).encode.length ≤ 512 := by
  obtain ⟨secret, hsecret⟩ : ∃ secret, secret =
      SealedSecret.sealWith oneTime nonce (ChainKey.codec.encode s.keys.own) recipient := ⟨_, rfl⟩
  have hchain := length_encode_chain_le s.keys.own
  have hbox : secret.box.length ≤ 128 := by
    have hsize := size (SealedSecret.boxKey (Suite.agree oneTime
      (Suite.agreementPublic recipient.bytes)) (Suite.agreementOf oneTime) recipient) nonce
      (ChainKey.codec.encode s.keys.own)
    rw [hsecret]
    simp only [SealedSecret.sealWith, SecretBox.sealWith, List.length_append,
      Octets.length_toList]
    omega
  have hboxes : (Wire.Varint.encode secret.box.length).length ≤ 10 :=
    Wire.Varint.length_encode_le (Nat.lt_of_le_of_lt hbox (by decide))
  have hid := Wire.Varint.length_encode_le s.keys.own.chainId.toNat_lt
  have hshort : ∀ n < 128, (Wire.Varint.encode n).length = 1 :=
    fun n hn => Wire.Varint.length_encode_of_lt hn
  rw [sealedChain, ← hsecret]
  simp only [Event.encode, Event.secretCodec, SealedSecret.codec, Codec.convert, Codec.pair,
    Codec.bytes, Codec.word32, Codec.word64, Codec.octets, List.length_append,
    Octets.length_toList, hshort 32 (by decide), hshort _ (by decide : (2 : UInt32).toNat < 128)]
  omega

/-- The event of a request is read back from a few octets. -/
theorem Allows.readable (sig : Suite.SignatureLaw) (len : Suite.SignatureLength)
    (size : Suite.CiphertextLength) (h : request.Allows p s ev) :
    ev.Sound ∧ ev.encode.length ≤ 512 := by
  have hshort : ∀ n < 128, (Wire.Varint.encode n).length = 1 :=
    fun n hn => Wire.Varint.length_encode_of_lt hn
  cases h with
  | addDevice known =>
    have hsigned : (p.own.member.signDevice p.group.id p.ids.device).length = 64 :=
      p.own.member.length_sign sig len _
    constructor
    · simp only [Event.Sound, Octets.length_toList, hsigned, reduceCtorEq, false_implies,
        implies_true, and_true]
      decide
    · simp only [Event.encode, Event.deviceCodec, Codec.pair, Codec.optional, Codec.bytes,
        Codec.word32, List.length_append, List.length_cons, List.length_nil, Octets.length_toList,
        hsigned, hshort 32 (by decide), hshort 64 (by decide),
        hshort _ (by decide : (1 : UInt32).toNat < 128)]
      decide
  | @sendSecret recipient oneTime nonce known =>
    have hencoded := length_encode_sealedChain_le size p s recipient oneTime nonce
    exact ⟨Event.sound_secretAdded (Nat.lt_of_le_of_lt hencoded (by decide)), hencoded⟩
  | @grantAdmin member admin known =>
    constructor
    · simp only [Event.Sound, Octets.length_toList]
      decide
    · simp only [Event.encode, Codec.bytes, Codec.word32, List.length_append, Octets.length_toList,
        hshort 32 (by decide), hshort _ (by decide : (3 : UInt32).toNat < 128)]
      decide

/-- The event of a request says to the participant itself what it was asked for. -/
theorem Allows.statement_eq (sig : Suite.SignatureLaw) (agr : Suite.AgreementLaw)
    (enc : Suite.EncryptionLaw) (valid : ∀ m, s.roster.isMember m = true → m.Valid)
    (h : request.Allows p s ev) : ev.statement p p.ids.device = .ok (request.statement p s) := by
  have hmember : p.ids.member.Valid := by
    rw [p.ids_eq]
    exact p.own.member.valid_pub sig
  have hdevice : p.ids.device.Valid := by
    rw [p.ids_eq]
    exact p.own.device.valid_pub sig
  cases h with
  | addDevice known =>
    refine Event.statement_deviceAdded_none.2 ⟨p.ids, PublicKey.ofBytes_toList hmember,
      PublicKey.ofBytes_toList hdevice, PublicKey.checkDevice_eq_ok_iff.2 ?_, rfl⟩
    have haccepts := p.own.member.accepts_sign sig
      (Purpose.device.statement p.group.id p.ids.device)
    rwa [show p.own.member.pub = p.ids.member by rw [p.ids_eq]; rfl] at haccepts
  | sendSecret oneTime nonce known =>
    exact statement_sealedChain sig agr enc (valid _ known) p p s oneTime nonce
  | grantAdmin admin known =>
    exact Event.statement_adminGranted.2 ⟨_, PublicKey.ofBytes_toList (valid _ known), rfl⟩

theorem Allows.verdict_eq (h : request.Allows p s ev) :
    s.verdict p p.ids.device (request.statement p s) = request.verdict p s.roster := by
  cases h with
  | addDevice known =>
    simp only [statement, verdict, State.verdict, State.step, Roster.enrol, known, if_true,
      Roster.register]
    cases howner : s.roster.owner? p.ids.device with
    | none => rfl
    | some owner =>
      by_cases hown : owner = p.ids.member
      · simp [hown]
      · simp [hown, Error.isMissingDependency]
  | @sendSecret recipient oneTime nonce known =>
    by_cases hown : recipient = p.ids.member
    · simp [statement, verdict, handedTo, State.verdict, State.step, hown]
    · simp [statement, verdict, handedTo, State.verdict, State.step, hown]
  | @grantAdmin member admin known =>
    simp only [statement, verdict, State.verdict, State.step, Roster.enrol, known]
    cases howner : s.roster.owner? p.ids.device with
    | none => rfl
    | some granter =>
      cases hadmin : s.roster.isAdmin granter with
      | false => simp [hadmin, Error.isMissingDependency]
      | true => simp [hadmin]

/-! ## Writing -/

variable {net : Network} {name : String} {r : Replica}

/-- A request is refused, or its event is appended. -/
theorem write_cases (request : Request) (net : Network) (name : String) (r : Replica)
    (n : Entropy) :
    (∃ cause, (request.write net name r n).1 = (.error cause, net)) ∨
      ∃ draw, request.event r.self r.state = .ok draw ∧ request.write net name r n =
        net.append name r .metadata r.self.own.device (draw n).1.encode (draw n).2 := by
  cases request with
  | addDevice =>
    simp only [write, event, Network.addDevice, Network.appendEvent]
    cases Metadata.addDevice r.self r.state with
    | error cause => exact Or.inl ⟨cause, rfl⟩
    | ok ev => exact Or.inr ⟨_, rfl, rfl⟩
  | sendSecret recipient =>
    simp only [write, event, Network.sendSecret]
    cases Metadata.sendSecret r.self r.state recipient with
    | error cause => exact Or.inl ⟨cause, rfl⟩
    | ok draw => exact Or.inr ⟨_, rfl, rfl⟩
  | grantAdmin member =>
    simp only [write, event, Network.grantAdmin, Network.appendEvent]
    cases Metadata.grantAdmin r.self r.state member with
    | error cause => exact Or.inl ⟨cause, rfl⟩
    | ok ev => exact Or.inr ⟨_, rfl, rfl⟩

/-- A replica does what it is asked for, and a new entry of its log answers for it. -/
structure Appends (request : Request) (net : Network) (name : String) (r : Replica) (n : Entropy)
    (e : Log.Entry) : Prop where
  answer : (request.write net name r n).1.1 = .ok e.ref
  new : e ∉ net.store.entries r.metadata.address
  mem : e ∈ (request.write net name r n).1.2.store.entries r.metadata.address

/-- The entry of a request opens to its event for everyone who reads the log. -/
theorem Appends.opens (sig : Suite.SignatureLaw) (len : Suite.SignatureLength)
    (enc : Suite.EncryptionLaw) (size : Suite.CiphertextLength) {n : Entropy}
    (h : request.Appends net name r n e) : ∃ ev opened, request.Allows r.self r.state ev ∧
      Progress.openEntry r.metadata.toReader e = .ok (opened, ev) ∧
      opened.sender = r.self.ids.device := by
  obtain ⟨answer, new, mem⟩ := h
  rcases write_cases request net name r n with ⟨cause, hrefused⟩ | ⟨draw, hevent, hwrite⟩
  · rw [hrefused] at answer
    cases answer
  have hallows := allows_of_event hevent n
  obtain ⟨hsound, hshort⟩ := hallows.readable sig len size
  obtain ⟨hresult, hstore⟩ :=
    net.append_eq name r .metadata r.self.own.device (draw n).1.encode (draw n).2
  rw [hwrite, hresult] at answer
  rw [hwrite, hstore] at mem
  have happended : r.metadata.append net.store r.self.own.device (draw n).1.encode (draw n).2 =
    ((.ok e.ref, _, _), _) := Prod.ext (Prod.ext answer rfl) rfl
  obtain ⟨nonce, hsealed, -, hcommit⟩ := Log.Binding.append_eq_ok happended
  -- the entry is new, so nothing in the log had its hash
  have hapart : ∀ d ∈ net.store.entries r.metadata.address,
      d.hash ≠ .of (r.metadata.sealEntry r.self.own.device (draw n).1.encode (draw n).2).1.1 := by
    rw [hsealed]
    rcases net.store.commit_cases r.metadata.address
      (r.metadata.sealWith r.self.own.device (draw n).1.encode nonce).1 with
      ⟨-, -, -, hsame⟩ | ⟨hfresh, -, -⟩
    · rw [hcommit] at hsame
      exact absurd (hsame ▸ mem) new
    · exact fun d hd hhash => hfresh (List.mem_map.2 ⟨d, hd, hhash⟩)
  obtain ⟨opened, hopens, hsender⟩ := opens_of_append sig enc len size hsound hshort happended
    (fun d hd hhash => absurd hhash (hapart d hd)) mem rfl
  exact ⟨_, opened, hallows, hopens, hsender.trans (by rw [r.self.ids_eq]; rfl)⟩

/-! ## Main statement -/

/-- What comes of a request when its entry is delivered, for the first time and as a batch of its
own, to the index that allowed it.

* The index gives the verdict that can be told beforehand.
* If the device is registered under its own member, the entry takes effect, or it is a secret for
  another member. -/
theorem answered (sig : Suite.SignatureLaw) (len : Suite.SignatureLength)
    (agr : Suite.AgreementLaw) (enc : Suite.EncryptionLaw) (size : Suite.CiphertextLength)
    {n : Entropy} (reached : Reached r.self r.metadata.toReader log told r.index)
    (h : request.Appends net name r n e) (first : e.hash ∉ log.map (·.hash)) :
    (∃ ev, request.Allows r.self r.state ev ∧
      r.index.Answers r.self r.metadata.toReader e ⟨e.hash, r.self.ids.device, ev⟩
        (request.verdict r.self r.state.roster)) ∧
      (r.state.roster.owner? r.self.ids.device = some r.self.ids.member →
        request.verdict r.self r.state.roster = .applied ∨
          ∃ recipient, request = .sendSecret recipient ∧ recipient ≠ r.self.ids.member ∧
            request.verdict r.self r.state.roster = .misdirected) := by
  obtain ⟨ev, opened, hallows, hopens, hsender⟩ := h.opens sig len enc size
  have hsaid := hallows.statement_eq sig agr enc fun m hm => reached.valid_of_isMember hm
  refine ⟨⟨ev, hallows, ?_⟩, fun howner => ?_⟩
  · have hanswers := reached.answers
      (c := ⟨e.hash, r.self.ids.device, ev, request.statement r.self r.state⟩)
      ⟨opened, hopens, rfl, hsender.symm, hsaid⟩ first
    rwa [show r.index.state = r.state from rfl, hallows.verdict_eq] at hanswers
  · cases hallows with
    | addDevice known => exact Or.inl (by simp [verdict, howner])
    | @sendSecret recipient oneTime nonce known =>
      by_cases hown : recipient = r.self.ids.member
      · exact Or.inl (if_pos hown)
      · exact Or.inr ⟨recipient, rfl, hown, if_neg hown⟩
    | grantAdmin admin known => exact Or.inl (by simp [verdict, howner, admin])

end Request

end Metadata

end SecureGroup

/-! ## Requests of other devices -/

namespace SecureGroup.Plain

attribute [local instance] Suite.brief

open Metadata

/-- The replica of a device that has taken some entries. -/
def informed (member device : UInt8) (log : List Log.Entry) : Replica :=
  ((Replica.fresh (.of group ⟨key member, key device⟩) ⟨256, 1, 16, 64⟩ .empty
    (chains device)).update log).2

theorem reached_informed (member device : UInt8) (log : List Log.Entry) :
    ∃ told, Reached (informed member device log).self (informed member device log).metadata.toReader
      ([] ++ log) told (informed member device log).index :=
  ⟨_, .update log (.empty (chains device))⟩

/-- The entry in which a device that has taken some entries writes an event. -/
def answer (member device : UInt8) (log : List Log.Entry) (event : Event) : Log.Entry :=
  .at 0 ((informed member device log).metadata.sealEntry (key device) event.encode zeros).1.1

def added : Log.Entry := answer 1 3 [hostAnnounced] (.deviceAdded (key 1).pub.bytes.toList
  (key 3).pub.bytes.toList ((key 1).signDevice group.id (key 3).pub) none)

/-- Device 3, which nobody has added, makes member 1 an admin. -/
def granted : Log.Entry := answer 1 3 [hostAnnounced] (.adminGranted (key 1).pub.bytes.toList)

/-- Device 4, which member 3 has joined with, belongs to member 1. -/
def claimed : Log.Entry := answer 1 4 [hostAnnounced, newcomerAdded]
  (.deviceAdded (key 1).pub.bytes.toList (key 4).pub.bytes.toList
    ((key 1).signDevice group.id (key 4).pub) none)

end SecureGroup.Plain

namespace SecureGroup.Metadata.Request

attribute [local instance] Suite.brief

open Plain

/-- The second device of a member is added at once. -/
theorem answered_added :
    let r := informed 1 3 [hostAnnounced]
    let q := r.index.update r.self r.metadata.toReader [added]
    addDevice.Appends .empty "second" r zeros added ∧
      added.hash ∈ q.index.handled ∧ ∃ n more, q.notices = n :: more ∧ n.entry = added.hash := by
  intro r q
  obtain ⟨told, hreached⟩ := reached_informed 1 3 [hostAnnounced]
  have hcomputed : (addDevice.write .empty "second" r zeros).1.1 = .ok added.ref ∧
      added ∉ Log.Store.empty.entries r.metadata.address ∧
      added ∈ (addDevice.write .empty "second" r zeros).1.2.store.entries r.metadata.address ∧
      added.hash ∉ ([] ++ [hostAnnounced]).map Log.Entry.hash ∧
      addDevice.verdict r.self r.state.roster = .applied := by decide +kernel
  obtain ⟨hanswer, hnew, hmem, hfirst, hverdict⟩ := hcomputed
  have happends : addDevice.Appends .empty "second" r zeros added := ⟨hanswer, hnew, hmem⟩
  obtain ⟨⟨ev, -, hanswers⟩, -⟩ := answered Suite.brief_signatureLaw Suite.brief_signatureLength
    Suite.plain_agreementLaw Suite.brief_encryptionLaw Suite.brief_ciphertextLength hreached
    happends hfirst
  rw [hverdict] at hanswers
  obtain ⟨hhandled, more, hnotices, -⟩ := hanswers
  exact ⟨happends, hhandled, _, more, hnotices, rfl⟩

/-- An admin's device that is not registered makes a member an admin, and its entry waits.  A device
that is another member's is added, and its entry fails.  Both were allowed. -/
theorem disappointed :
    let granter := informed 1 3 [hostAnnounced]
    let taken := informed 1 4 [hostAnnounced, newcomerAdded]
    (grantAdmin (key 1).pub).Appends .empty "granter" granter zeros granted ∧
      (∃ told, Reached granter.self granter.metadata.toReader [hostAnnounced] told granter.index) ∧
      (granter.update [granted]).1 = ⟨0, 0, 0, 0, 1⟩ ∧
      addDevice.Appends .empty "taken" taken zeros claimed ∧
      (∃ told, Reached taken.self taken.metadata.toReader [hostAnnounced, newcomerAdded] told
        taken.index) ∧
      (taken.update [claimed]).1 = ⟨0, 0, 0, 1, 0⟩ := by
  intro granter taken
  have hgranted : ((grantAdmin (key 1).pub).write .empty "granter" granter zeros).1.1 =
        .ok granted.ref ∧
      granted ∉ Log.Store.empty.entries granter.metadata.address ∧
      granted ∈ ((grantAdmin (key 1).pub).write .empty "granter" granter zeros).1.2.store.entries
        granter.metadata.address ∧
      (granter.update [granted]).1 = ⟨0, 0, 0, 0, 1⟩ := by decide +kernel
  have hclaimed : (addDevice.write .empty "taken" taken zeros).1.1 = .ok claimed.ref ∧
      claimed ∉ Log.Store.empty.entries taken.metadata.address ∧
      claimed ∈ (addDevice.write .empty "taken" taken zeros).1.2.store.entries
        taken.metadata.address ∧
      (taken.update [claimed]).1 = ⟨0, 0, 0, 1, 0⟩ := by decide +kernel
  obtain ⟨hanswer, hnew, hmem, hwaits⟩ := hgranted
  obtain ⟨hanswer', hnew', hmem', hfails⟩ := hclaimed
  exact ⟨⟨hanswer, hnew, hmem⟩, reached_informed 1 3 _, hwaits, ⟨hanswer', hnew', hmem'⟩,
    reached_informed 1 4 _, hfails⟩

end SecureGroup.Metadata.Request
