import SecureGroup.Proofs.Replay
import SecureGroup.Suite.Plain

/-!
# Reached indexes

`Reached` are the indexes that batches of any entries lead to, with what was delivered and what was
told on the way.  What every move keeps holds of all of them (`Reached.invariant`).

A round that is done with no waiting entry leaves everything as it is (`idle_retryAll`), and a round
that is done with one leaves fewer (`length_retryAll`).  So a batch ends when no waiting entry can
be enrolled (`Reached.settled`), and by then every entry that opens is done with or waits
(`Reached.knows`).
-/

namespace SecureGroup.Metadata

variable [Suite] {self : Participant} {reader : Log.Reader} {log log' entries : List Log.Entry}
  {i j : Index} {c : Candidate} {told more : List Notice} {e : Log.Entry} {hash : EntryHash}

namespace Progress

variable {p q : Progress}

/-! ## The end of a batch -/

/-- An entry that is tried again is done with, or everything stays and it waits. -/
theorem retryEntry_cases (self : Participant) (p : Progress) (hash : EntryHash) :
    (p.index.waiting? hash = none ∧ p.retryEntry self hash = (false, p)) ∨
      (∃ c, p.index.waiting? hash = some c ∧
        ¬ p.index.state.roster.Enabled c.author c.statement ∧
        p.retryEntry self hash = (false, (p.release hash).defer c)) ∨
      (∃ c, p.index.waiting? hash = some c ∧ (p.retryEntry self hash).1 = true ∧
        (p.retryEntry self hash).2.index.deferred = p.index.others hash) := by
  unfold retryEntry
  split
  · next c hc =>
    rcases consider_cases self (p.release hash) c with ⟨r, -, -, h⟩ | ⟨m, n, -, -, h⟩ |
      ⟨hne, h⟩ | ⟨-, -, h⟩
    · exact Or.inr (Or.inr ⟨c, hc, by rw [h], by rw [h]; rfl⟩)
    · exact Or.inr (Or.inr ⟨c, hc, by rw [h], by rw [h]; rfl⟩)
    · exact Or.inr (Or.inl ⟨c, hc, hne, h⟩)
    · exact Or.inr (Or.inr ⟨c, hc, by rw [h], by rw [h]; rfl⟩)
  · next hn => exact Or.inl ⟨hn, rfl⟩

omit [Suite] in
theorem length_others_lt {hash : EntryHash} (h : p.index.waiting? hash = some c) :
    (p.index.others hash).length < p.index.deferred.length := by
  obtain ⟨hmem, hh⟩ := waiting?_eq_some h
  exact List.length_filter_lt_length_iff_exists.2 ⟨c, hmem, by simp [hh]⟩

/-- Whoever is done with a waiting entry leaves fewer of them. -/
theorem length_retryEntry (self : Participant) (p : Progress) (hash : EntryHash) :
    (p.retryEntry self hash).2.index.deferred.length ≤ p.index.deferred.length ∧
      ((p.retryEntry self hash).1 = true →
        (p.retryEntry self hash).2.index.deferred.length < p.index.deferred.length) := by
  rcases retryEntry_cases self p hash with ⟨-, h⟩ | ⟨c, hc, -, h⟩ | ⟨c, hc, -, hd⟩
  · rw [h]
    exact ⟨Nat.le_refl _, fun hb => by cases hb⟩
  · have hlt := length_others_lt hc
    have hlen : ((p.release hash).defer c).index.deferred.length =
        (p.index.others hash).length + 1 := (insertCandidate_perm c _).length_eq
    rw [h]
    exact ⟨by simp only [hlen]; omega, fun hb => by cases hb⟩
  · have hlt := length_others_lt hc
    rw [hd]
    exact ⟨Nat.le_of_lt hlt, fun _ => hlt⟩

theorem length_retryAll (self : Participant) (p : Progress) (hashes : List EntryHash) :
    (p.retryAll self hashes).2.index.deferred.length ≤ p.index.deferred.length ∧
      ((p.retryAll self hashes).1 = true →
        (p.retryAll self hashes).2.index.deferred.length < p.index.deferred.length) := by
  induction hashes generalizing p with
  | nil => exact ⟨Nat.le_refl _, fun hb => by cases hb⟩
  | cons hash rest ih =>
    obtain ⟨hle, hlt⟩ := length_retryEntry self p hash
    obtain ⟨ihle, ihlt⟩ := ih (p.retryEntry self hash).2
    refine ⟨Nat.le_trans ihle hle, fun hb => ?_⟩
    rcases Bool.or_eq_true_iff.1 hb with hb | hb
    · exact Nat.lt_of_le_of_lt ihle (hlt hb)
    · exact Nat.lt_of_lt_of_le (ihlt hb) hle

/-- Nothing is different but the order in which the entries wait. -/
structure Idle (p q : Progress) : Prop where
  state : q.index.state = p.index.state
  deferred : q.index.deferred.Perm p.index.deferred

omit [Suite] in
theorem Idle.refl (p : Progress) : Idle p p := ⟨rfl, List.Perm.refl _⟩

omit [Suite] in
/-- Among entries of different hashes, only one is taken out. -/
theorem cons_others_perm (hp : (p.index.deferred.map (·.hash)).Nodup)
    (hc : c ∈ p.index.deferred) : (c :: p.index.others c.hash).Perm p.index.deferred := by
  have hnodup : p.index.deferred.Nodup := hp.of_map _
  have hcons : (c :: p.index.others c.hash).Nodup := by
    rw [List.nodup_cons]
    exact ⟨fun hm => (Index.mem_others.1 hm).2 rfl, hnodup.filter _⟩
  rw [List.perm_ext_iff_of_nodup hcons hnodup]
  intro d
  rw [List.mem_cons, Index.mem_others]
  constructor
  · rintro (rfl | ⟨hd, -⟩)
    · exact hc
    · exact hd
  · intro hd
    by_cases he : d.hash = c.hash
    · exact Or.inl (List.inj_on_of_nodup_map hp hd hc he)
    · exact Or.inr ⟨hd, he⟩

/-- An entry that keeps waiting cannot be enrolled. -/
theorem idle_retryEntry (hp : (p.index.deferred.map (·.hash)).Nodup)
    (h : (p.retryEntry self hash).1 = false) :
    Idle p (p.retryEntry self hash).2 ∧ ∀ c ∈ p.index.deferred, c.hash = hash →
      ¬ p.index.state.roster.Enabled c.author c.statement := by
  rcases retryEntry_cases self p hash with ⟨hn, hr⟩ | ⟨c, hc, hne, hr⟩ | ⟨c, -, hd, -⟩
  · rw [hr]
    refine ⟨Idle.refl p, fun d hd he => ?_⟩
    have hnot := List.find?_eq_none.1 hn d hd
    simp [he] at hnot
  · obtain ⟨hmem, rfl⟩ := waiting?_eq_some hc
    rw [hr]
    refine ⟨⟨rfl, ?_⟩, ?_⟩
    · exact (insertCandidate_perm c _).trans (cons_others_perm hp hmem)
    · intro d hd he
      obtain rfl := List.inj_on_of_nodup_map hp hd hmem he
      exact hne
  · rw [hd] at h
    cases h

/-- A round that is done with none of its entries leaves everything as it is. -/
theorem idle_retryAll (self : Participant) (hashes : List EntryHash)
    (hp : (p.index.deferred.map (·.hash)).Nodup)
    (h : (p.retryAll self hashes).1 = false) :
    Idle p (p.retryAll self hashes).2 ∧ ∀ c ∈ p.index.deferred, c.hash ∈ hashes →
      ¬ p.index.state.roster.Enabled c.author c.statement := by
  induction hashes generalizing p with
  | nil => exact ⟨Idle.refl p, fun c _ hm => by cases hm⟩
  | cons hash rest ih =>
    obtain ⟨hhead, hrest⟩ := Bool.or_eq_false_iff.1 h
    obtain ⟨⟨hstate, hperm⟩, hone⟩ := idle_retryEntry hp hhead
    have hq := ((hperm.map (·.hash)).nodup_iff).2 hp
    obtain ⟨⟨hstate', hperm'⟩, hall⟩ := ih hq hrest
    refine ⟨⟨hstate'.trans hstate, hperm'.trans hperm⟩, fun c hc hm => ?_⟩
    rcases List.mem_cons.1 hm with he | hm
    · exact hone c hc he
    · rw [← hstate]
      exact hall c (hperm.mem_iff.2 hc) hm

end Progress

/-- No waiting entry can be enrolled. -/
def Index.Settled (i : Index) : Prop :=
  ∀ c ∈ i.deferred, ¬ i.state.roster.Enabled c.author c.statement

theorem Index.Tidy.nodup_deferred (h : i.Tidy self reader log) :
    (i.deferred.map (·.hash)).Nodup :=
  (List.nodup_append.1 h.nodup).2.1

theorem Index.Tidy.nodup_handled (h : i.Tidy self reader log) : i.handled.Nodup :=
  (List.nodup_append.1 h.nodup).1

namespace Progress

variable {p q : Progress}

/-- Enough rounds end when no waiting entry can be enrolled. -/
theorem settled_retry {rounds : Nat} (hp : p.index.Tidy self reader log)
    (h : p.index.deferred.length < rounds) :
    Runs self reader log p (p.retry self rounds) ∧ (p.retry self rounds).index.Settled := by
  induction rounds generalizing p with
  | zero => omega
  | succ rounds ih =>
    have hrun : Runs self reader log p (p.retryOnce self).2 := runs_retryAll hp _
    unfold retry
    split
    · next q hq =>
      obtain ⟨-, hlt⟩ := length_retryAll self p (p.index.deferred.map (·.hash))
      rw [← retryOnce, hq] at hlt
      rw [hq] at hrun
      obtain ⟨hrun', hsettled⟩ := ih (hrun.tidy hp) (by have := hlt rfl; omega)
      exact ⟨hrun.trans hrun', hsettled⟩
    · next q hq =>
      obtain ⟨hidle, hne⟩ := idle_retryAll self (p.index.deferred.map (·.hash))
        hp.nodup_deferred (by rw [← retryOnce, hq])
      rw [← retryOnce, hq] at hidle
      rw [hq] at hrun
      refine ⟨hrun, fun c hc => ?_⟩
      rw [hidle.state]
      have hc := hidle.deferred.mem_iff.1 hc
      exact hne c hc (List.mem_map.2 ⟨c, hc, rfl⟩)

end Progress

/-! ## What is known stays known -/

theorem Tries.knows (h : Tries self i c j told) :
    j.knows hash = true ↔ hash = c.hash ∨ i.knows hash = true := by
  have hothers : (∃ d ∈ i.others c.hash, d.hash = hash) ↔
      hash ≠ c.hash ∧ ∃ d ∈ i.deferred, d.hash = hash := by
    constructor
    · rintro ⟨d, hd, rfl⟩
      exact ⟨(Index.mem_others.1 hd).2, d, (Index.mem_others.1 hd).1, rfl⟩
    · rintro ⟨hne, d, hd, rfl⟩
      exact ⟨d, Index.mem_others.2 ⟨hd, hne⟩, rfl⟩
  have hdone : ∀ state, (Index.mk state (c.hash :: i.handled) (i.others c.hash)).knows hash = true ↔
      hash = c.hash ∨ i.knows hash = true := by
    intro state
    rw [Index.knows_eq_true_iff, Index.knows_eq_true_iff, hothers, List.mem_cons]
    by_cases hh : hash = c.hash
    · simp only [hh, true_or]
    · simp only [hh, false_or, ne_eq, not_false_eq_true, true_and]
  cases h with
  | applied enrolled roster => exact hdone _
  | misdirected secret roster => exact hdone _
  | refused enabled refused => exact hdone _
  | waits missing =>
    have hperm := Progress.insertCandidate_perm c (i.others c.hash)
    have hwait : (∃ d ∈ Progress.insertCandidate c (i.others c.hash), d.hash = hash) ↔
        hash = c.hash ∨ ∃ d ∈ i.others c.hash, d.hash = hash := by
      simp only [hperm.mem_iff, List.mem_cons, or_and_right, exists_or, exists_eq_left]
      exact or_congr_left eq_comm
    rw [Index.knows_eq_true_iff, Index.knows_eq_true_iff, hwait, hothers]
    by_cases hh : hash = c.hash
    · simp only [hh, true_or, or_true]
    · simp only [hh, false_or, ne_eq, not_false_eq_true, true_and]

theorem Move.knows (h : Move self reader log i j told) (hk : i.knows hash = true) :
    j.knows hash = true := by
  cases h with
  | invalid mem fresh opens invalid =>
    rw [Index.knows_eq_true_iff] at hk ⊢
    exact hk.imp_left (List.mem_cons_of_mem _)
  | tried offered fresh tries => exact tries.knows.2 (Or.inr hk)

theorem Moves.knows (h : Moves self reader log i j told) (hk : i.knows hash = true) :
    j.knows hash = true := by
  induction h with
  | refl => exact hk
  | snoc before last ih => exact last.knows ih

namespace Progress

variable {p q : Progress}

theorem Runs.knows (h : Runs self reader log p q) (hk : p.index.knows hash = true) :
    q.index.knows hash = true := by
  obtain ⟨told, hm, -⟩ := h
  exact hm.knows hk

theorem knows_take (he : Opens reader e) : (p.take self reader e).index.knows e.hash = true := by
  unfold take
  split
  · next hk => exact hk
  · next hk =>
    obtain ⟨opened, event, ho⟩ := he
    rw [ho]
    dsimp only
    split
    · exact Index.knows_eq_true_iff.2 (Or.inl List.mem_cons_self)
    · next said hs =>
      have hothers := others_eq_deferred (by simpa using hk)
      obtain ⟨told, ht, -⟩ := tries_consider self
        (c := ⟨e.hash, opened.sender, event, said⟩) hothers
      exact ht.knows.2 (Or.inl rfl)

theorem knows_foldl_take (he : e ∈ entries) (ho : Opens reader e) :
    (entries.foldl (take self reader) p).index.knows e.hash = true := by
  induction entries generalizing p with
  | nil => cases he
  | cons d rest ih =>
    rcases List.mem_cons.1 he with rfl | he
    · have hrest : ∀ d ∈ rest, d ∈ e :: rest := fun d hd => List.mem_cons_of_mem e hd
      have hrun : Runs self reader (e :: rest) (p.take self reader e) _ :=
        runs_foldl_take rest hrest
      exact hrun.knows (knows_take ho)
    · exact ih he

end Progress

/-! ## Reached indexes -/

theorem Index.Tidy.mono (h : i.Tidy self reader log) (sub : ∀ e ∈ log, e ∈ log') :
    i.Tidy self reader log' where
  nodup := h.nodup
  offered c hc := (h.offered c hc).mono sub
  opened hash hm := by
    obtain ⟨e, he, hh, ho⟩ := h.opened hash hm
    exact ⟨e, sub e he, hh, ho⟩

/-- A batch is made of moves, and ends when no waiting entry can be enrolled. -/
theorem Index.moves_update (hi : i.Tidy self reader log) (sub : ∀ e ∈ entries, e ∈ log) :
    Moves self reader log i (i.update self reader entries).index
        (i.update self reader entries).notices ∧
      (i.update self reader entries).index.Settled := by
  have htake : Progress.Runs self reader log (.start i)
      (entries.foldl (Progress.take self reader) (.start i)) := Progress.runs_foldl_take entries sub
  obtain ⟨hretry, hsettled⟩ := Progress.settled_retry (htake.tidy hi) (Nat.lt_succ_self _)
  obtain ⟨told, hm, hn⟩ := htake.trans hretry
  rw [show Progress.notices (.start i) = [] from rfl, List.nil_append] at hn
  subst hn
  exact ⟨hm, hsettled⟩

/-- A batch runs from any of its entries to its end. -/
theorem Index.runs_update (hi : i.Tidy self reader log) (before after : List Log.Entry) :
    Progress.Runs self reader (log ++ (before ++ after))
      (before.foldl (Progress.take self reader) (.start i))
      (i.update self reader (before ++ after)) := by
  have htidy := hi.mono fun d hd => List.mem_append_left (before ++ after) hd
  have hbefore : Progress.Runs self reader (log ++ (before ++ after)) (.start i) _ :=
    Progress.runs_foldl_take before fun d hd =>
      List.mem_append_right log (List.mem_append_left after hd)
  have hafter : Progress.Runs self reader (log ++ (before ++ after))
      (before.foldl (Progress.take self reader) (.start i)) _ :=
    Progress.runs_foldl_take after fun d hd =>
      List.mem_append_right log (List.mem_append_right before hd)
  have hretry := (Progress.settled_retry (hafter.tidy (hbefore.tidy htidy))
    (Nat.lt_succ_self _)).1
  unfold Index.update
  rw [List.foldl_append]
  exact hafter.trans hretry

theorem Index.knows_update (hi : i.Tidy self reader log) (he : e ∈ entries)
    (ho : Opens reader e) : (i.update self reader entries).index.knows e.hash = true := by
  have hrun := Index.runs_update hi entries []
  rw [List.append_nil] at hrun
  exact hrun.knows (Progress.knows_foldl_take he ho)

/-- What is known was delivered. -/
theorem Index.Tidy.knows_eq_false (h : i.Tidy self reader log) {hash : EntryHash}
    (new : hash ∉ log.map (·.hash)) : i.knows hash = false := by
  rw [← Bool.not_eq_true, Index.knows_eq_true_iff]
  rintro (hm | ⟨c, hc, rfl⟩)
  · obtain ⟨e, he, rfl, -⟩ := h.opened hash hm
    exact new (List.mem_map.2 ⟨e, he, rfl⟩)
  · obtain ⟨e, he, -, -, hhash, -⟩ := h.offered c hc
    exact new (List.mem_map.2 ⟨e, he, hhash.symm⟩)

/-- The indexes that batches of any entries lead to, with all entries that were delivered and all
that was told of them. -/
inductive Reached (self : Participant) (reader : Log.Reader) :
    List Log.Entry → List Notice → Index → Prop
  | empty (keys : ChainKeys) : Reached self reader [] [] (.empty keys)
  | withKeys {log : List Log.Entry} {told : List Notice} {i : Index} (keys : ChainKeys)
      (before : Reached self reader log told i) : Reached self reader log told (i.withKeys keys)
  | update {log : List Log.Entry} {told : List Notice} {i : Index} (entries : List Log.Entry)
      (before : Reached self reader log told i) :
      Reached self reader (log ++ entries) (told ++ (i.update self reader entries).notices)
        (i.update self reader entries).index

theorem Index.tidy_empty (keys : ChainKeys) : (empty keys).Tidy self reader [] where
  nodup := List.nodup_nil
  offered c hc := by cases hc
  opened hash hm := by cases hm

namespace Reached

theorem tidy (h : Reached self reader log told i) : i.Tidy self reader log := by
  induction h with
  | empty keys => exact Index.tidy_empty keys
  | withKeys keys before ih => exact ⟨ih.nodup, ih.offered, ih.opened⟩
  | @update log told i entries before ih =>
    have hmono := ih.mono fun e he => List.mem_append_left entries he
    exact (Index.moves_update hmono fun e he => List.mem_append_right log he).1.tidy hmono

/-- What holds at the beginning and is kept by other keys and by every move holds of every reached
index.  The moves are taken among all entries that are delivered in the end. -/
theorem invariant {P : List Notice → Index → Prop} (empty : ∀ keys, P [] (.empty keys))
    (withKeys : ∀ {told i} keys, P told i → P told (i.withKeys keys))
    (move : ∀ {told i j more}, i.Tidy self reader log → P told i →
      Move self reader log i j more → P (told ++ more) j)
    (h : Reached self reader log told i) : P told i := by
  -- moves keep it one after the other
  have hmoves : ∀ {told i j more}, i.Tidy self reader log → P told i →
      Moves self reader log i j more → P (told ++ more) j := by
    intro told i j more hi hp hm
    induction hm with
    | refl => rwa [List.append_nil]
    | snoc before last ih =>
      rw [← List.append_assoc]
      exact move (before.tidy hi) ih last
  have hpast : ∀ {past told i}, Reached self reader past told i → (∀ e ∈ past, e ∈ log) →
      P told i := by
    intro past told i h sub
    induction h with
    | empty keys => exact empty keys
    | withKeys keys before ih => exact withKeys keys (ih sub)
    | @update past told i entries before ih =>
      have hbefore : ∀ e ∈ past, e ∈ log := fun e he => sub e (List.mem_append_left entries he)
      have hi := before.tidy.mono hbefore
      refine hmoves hi (ih hbefore) ?_
      exact (Index.moves_update hi fun e he => sub e (List.mem_append_right past he)).1
  exact hpast h fun e he => he

theorem settled (h : Reached self reader log told i) : i.Settled := by
  induction h with
  | empty keys => exact fun c hc => by cases hc
  | withKeys keys before ih => exact ih
  | @update log told i entries before ih =>
    exact (Index.moves_update (before.tidy.mono fun e he => List.mem_append_left entries he)
      fun e he => List.mem_append_right log he).2

theorem knows (h : Reached self reader log told i) (he : e ∈ log) (ho : Opens reader e) :
    i.knows e.hash = true := by
  induction h with
  | empty keys => cases he
  | withKeys keys before ih => exact ih he
  | @update log told i entries before ih =>
    rcases List.mem_append.1 he with he | he
    · have hi := before.tidy.mono fun e he => List.mem_append_left entries he
      exact (Index.moves_update hi fun e he => List.mem_append_right log he).1.knows (ih he)
    · exact Index.knows_update before.tidy he ho

end Reached

end SecureGroup.Metadata

/-! ## A small group -/

namespace SecureGroup.Plain

attribute [local instance] Suite.plain

open Metadata

/-- The key of a number; the group has number zero. -/
def key (n : UInt8) : PrivateKey := ⟨.fit 32 [n]⟩

def group : Group := ⟨(key 0).pub, .fit 32 []⟩

def participant (member device : UInt8) : Participant := .of group ⟨key member, key device⟩

def reader : Log.Reader := .of group .metadata

/-- The chains of a device that has not sent anything. -/
def chains (device : UInt8) : ChainKeys := .ofChain (key device).pub ⟨0, .fit 32 [], 0⟩ 16

/-- The entry in which a device writes an event. -/
def entry (author : UInt8) (event : Event) : Log.Entry :=
  .at 0 ((Log.Binding.of group .metadata 0).sealWith (key author) (Event.codec.encode event)
    (.fit 12 [])).1

/-- The group announces a member. -/
def announced (member device : UInt8) : Event :=
  .memberAnnounced (key member).pub.bytes.toList (key device).pub.bytes.toList
    ((key member).signDevice group.id (key device).pub) ((key 0).signFirstMember (key member).pub)

/-- A member lets another one join with a device. -/
def joined (inviter member device : UInt8) : Event :=
  .deviceAdded (key member).pub.bytes.toList (key device).pub.bytes.toList
    ((key member).signDevice group.id (key device).pub) (some
      { inviter := (key inviter).pub
        invitationKey := (key 255).pub
        inviterSignature :=
          (key inviter).sign (Purpose.invitation.statement group.id (key 255).pub)
        invitationSignature :=
          (key 255).sign (Purpose.redemption.statement group.id (key member).pub)
        memberSignature := (key member).signDevice group.id (key device).pub })

/-- A member joins before the log tells of the inviter. -/
def joinedEarly : List Log.Entry := [entry 4 (joined 1 3 4), entry 2 (announced 1 2)]

end SecureGroup.Plain
