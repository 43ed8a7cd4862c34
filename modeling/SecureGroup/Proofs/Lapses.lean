import SecureGroup.Proofs.Delivery
import SecureGroup.Settings

/-!
# Messages after failed sends

A send that fails has used a position of its chain up, and nothing stands there in the log.  So the
messages that were posted stand at places of the chain with gaps between them (`Scattered`), and a
reader, which goes at most `maxSkipped` places past the furthest one it has read, comes across a gap
or is stopped by it (`Posted.readable`).  A message that was posted is decrypted as long as no gap
up to it is too wide; from the first gap that is too wide on, the sender itself lists all of them
as undecryptable (`Desk.Calls.list_posted`).  One failed send can be enough for that
(`unread_after_failed_send`).
-/

namespace SecureGroup

variable [Suite]

/-! ## What a reader sees -/

/-- A message that was posted, and its place on the chain. -/
structure Posted extends Sent where
  place : Nat

namespace Posted

variable {sender : PublicKey} {origin : UInt64} {skip h h' : Nat} {p : Posted}
  {posted rest : List Posted}

omit [Suite]

/-- The messages that a reader comes to from a place: up to the first one that is too far past the
one before it. -/
def readable (skip : Nat) : Nat → List Posted → List Posted
  | _, [] => []
  | h, p :: rest => if p.place ≤ h + skip then p :: readable skip p.place rest else []

/-- The place of the last of some messages, or a place before all of them. -/
def last (h : Nat) (posted : List Posted) : Nat := (posted.getLast?.map Posted.place).getD h

def decrypted (sender : PublicKey) (origin : UInt64) (p : Posted) : Message.Item :=
  .decrypted ⟨p.hash, sender, origin + .ofNat p.place, p.payload⟩

/-- The item of a message that is too far past a place. -/
def beyond (sender : PublicKey) (origin : UInt64) (h : Nat) (p : Posted) : Message.Item :=
  .undecryptable p.hash sender (.key (.counterAhead (origin.toNat + p.place) (p.place - h)))

/-- What a reader that has come to a place makes of a message. -/
def item (sender : PublicKey) (origin : UInt64) (skip h : Nat) (p : Posted) : Message.Item :=
  if p.place ≤ h + skip then p.decrypted sender origin else p.beyond sender origin h

/-- Where a message takes a reader. -/
def pass (skip h : Nat) (p : Posted) : Nat := if p.place ≤ h + skip then max h p.place else h

/-- What a reader makes of one message after the other. -/
def items (sender : PublicKey) (origin : UInt64) (skip : Nat) : Nat → List Posted →
    List Message.Item
  | _, [] => []
  | h, p :: rest => p.item sender origin skip h :: items sender origin skip (pass skip h p) rest

/-- Where one message after the other takes a reader. -/
def reach (skip h : Nat) (posted : List Posted) : Nat := posted.foldl (pass skip) h

theorem last_cons (h : Nat) (p : Posted) (rest : List Posted) :
    last h (p :: rest) = last p.place rest := by
  rw [last, last, List.getLast?_cons]
  cases rest.getLast? <;> rfl

theorem last_concat (h : Nat) (posted : List Posted) (p : Posted) :
    last h (posted ++ [p]) = p.place := by
  rw [last, List.getLast?_append]
  rfl

/-- When all messages can be read, so can one more that is not too far past the last of them. -/
theorem readable_concat (hall : readable skip h posted = posted)
    (hnear : p.place ≤ last h posted + skip) : readable skip h (posted ++ [p]) = posted ++ [p] := by
  induction posted generalizing h with
  | nil => exact if_pos hnear
  | cons q rest ih =>
    rw [last_cons] at hnear
    by_cases hq : q.place ≤ h + skip
    · have hcons : readable skip h (q :: rest) = q :: readable skip q.place rest := if_pos hq
      have hrest : readable skip q.place rest = rest := by
        rw [hcons] at hall
        exact (List.cons.inj hall).2
      have happend : readable skip h (q :: rest ++ [p]) =
          q :: readable skip q.place (rest ++ [p]) := if_pos hq
      rw [happend, ih hrest hnear]
      rfl
    · have hnil : readable skip h (q :: rest) = [] := if_neg hq
      rw [hnil] at hall
      cases hall

theorem entry_item (sender : PublicKey) (origin : UInt64) (skip h : Nat) (p : Posted) :
    (p.item sender origin skip h).entry = p.hash := by
  unfold item
  split <;> rfl

theorem reach_concat (skip h : Nat) (posted : List Posted) (p : Posted) :
    reach skip h (posted ++ [p]) = pass skip (reach skip h posted) p := by
  rw [reach, List.foldl_append]
  rfl

theorem items_concat (h : Nat) (posted : List Posted) (p : Posted) :
    items sender origin skip h (posted ++ [p]) =
      items sender origin skip h posted ++ [p.item sender origin skip (reach skip h posted)] := by
  induction posted generalizing h with
  | nil => rfl
  | cons q rest ih =>
    rw [List.cons_append, items, ih, items]
    rfl

theorem le_pass (skip h : Nat) (p : Posted) : h ≤ pass skip h p := by
  unfold pass
  split
  · exact Nat.le_max_left h p.place
  · exact Nat.le_refl h

theorem le_reach (skip h : Nat) (posted : List Posted) : h ≤ reach skip h posted := by
  induction posted generalizing h with
  | nil => exact Nat.le_refl h
  | cons p rest ih => exact Nat.le_trans (le_pass skip h p) (ih (pass skip h p))

/-- What comes after a message that is too far is too far as well. -/
theorem far_of_sorted (hsorted : (p :: rest).Pairwise (·.place < ·.place))
    (hfar : ¬ p.place ≤ h + skip) : ∀ q ∈ p :: rest, h + skip < q.place := by
  obtain ⟨hfirst, -⟩ := List.pairwise_cons.1 hsorted
  intro q hq
  rcases List.mem_cons.1 hq with rfl | hq
  · omega
  · have hlt := hfirst q hq
    omega

/-- Messages that are all too far take a reader nowhere. -/
theorem reach_eq_self (hfar : ∀ p ∈ posted, h + skip < p.place) : reach skip h posted = h := by
  induction posted with
  | nil => rfl
  | cons p rest ih =>
    have hp : ¬ p.place ≤ h + skip := Nat.not_le.2 (hfar p List.mem_cons_self)
    have hpass : pass skip h p = h := if_neg hp
    rw [reach, List.foldl_cons, hpass]
    exact ih fun q hq => hfar q (List.mem_cons_of_mem p hq)

theorem items_eq_beyond (hfar : ∀ p ∈ posted, h + skip < p.place) :
    items sender origin skip h posted = posted.map (beyond sender origin h) := by
  induction posted with
  | nil => rfl
  | cons p rest ih =>
    have hp : ¬ p.place ≤ h + skip := Nat.not_le.2 (hfar p List.mem_cons_self)
    have hpass : pass skip h p = h := if_neg hp
    have hitem : p.item sender origin skip h = p.beyond sender origin h := if_neg hp
    rw [items, hpass, hitem, List.map_cons, ih fun q hq => hfar q (List.mem_cons_of_mem p hq)]

/-- A reader reads at least what can be read from a place that it has come to before. -/
theorem readable_prefix (hle : h ≤ h') :
    (readable skip h posted).map (decrypted sender origin) <+:
      items sender origin skip h' posted := by
  induction posted generalizing h h' with
  | nil => exact List.prefix_rfl
  | cons p rest ih =>
    unfold readable
    split
    · next hnear =>
      have hnear' : p.place ≤ h' + skip := by omega
      have hitem : p.item sender origin skip h' = p.decrypted sender origin := if_pos hnear'
      have hpass : pass skip h' p = max h' p.place := if_pos hnear'
      rw [items, hitem, hpass, List.map_cons, List.cons_prefix_cons]
      exact ⟨rfl, ih (Nat.le_max_right h' p.place)⟩
    · exact List.nil_prefix

/-- Along a chain, what can be read is decrypted, and all that comes after it is too far past the
last of it. -/
theorem items_eq (sender : PublicKey) (origin : UInt64) (skip : Nat)
    (hsorted : posted.Pairwise (·.place < ·.place)) (hpast : ∀ p ∈ posted, h ≤ p.place) :
    items sender origin skip h posted =
      (readable skip h posted).map (decrypted sender origin) ++
        (posted.drop (readable skip h posted).length).map
          (beyond sender origin (last h (readable skip h posted))) := by
  induction posted generalizing h with
  | nil => rfl
  | cons p rest ih =>
    obtain ⟨hfirst, hrest⟩ := List.pairwise_cons.1 hsorted
    have hp := hpast p List.mem_cons_self
    by_cases hnear : p.place ≤ h + skip
    · have hitem : p.item sender origin skip h = p.decrypted sender origin := if_pos hnear
      have hpass : pass skip h p = p.place := by
        rw [pass, if_pos hnear, Nat.max_eq_right hp]
      have hreadable : readable skip h (p :: rest) = p :: readable skip p.place rest := if_pos hnear
      have hitems := ih hrest fun q hq => Nat.le_of_lt (hfirst q hq)
      rw [hreadable, last_cons, items, hitem, hpass, hitems]
      rfl
    · have hfar := far_of_sorted hsorted hnear
      have hreadable : readable skip h (p :: rest) = [] := if_neg hnear
      rw [hreadable]
      exact items_eq_beyond hfar

/-- Where a reader has come to by some of the messages makes no difference for the rest. -/
theorem items_of_le_reach (sender : PublicKey) (origin : UInt64)
    (hsorted : posted.Pairwise (·.place < ·.place)) (hpast : ∀ p ∈ posted, h ≤ p.place)
    (hle : h ≤ h') (hreach : h' ≤ reach skip h posted) :
    items sender origin skip h' posted = items sender origin skip h posted ∧
      reach skip h' posted = reach skip h posted := by
  induction posted generalizing h h' with
  | nil =>
    have heq : h' = h := Nat.le_antisymm hreach hle
    rw [heq]
    exact ⟨rfl, rfl⟩
  | cons p rest ih =>
    obtain ⟨hfirst, hrest⟩ := List.pairwise_cons.1 hsorted
    have hp := hpast p List.mem_cons_self
    by_cases hnear : p.place ≤ h + skip
    · have hnear' : p.place ≤ h' + skip := by omega
      have hitem : p.item sender origin skip h' = p.item sender origin skip h := by
        rw [item, item, if_pos hnear, if_pos hnear']
      have hpass : pass skip h p = p.place := by
        rw [pass, if_pos hnear, Nat.max_eq_right hp]
      have hpass' : pass skip h' p = max h' p.place := if_pos hnear'
      have hreach' : h' ≤ reach skip p.place rest := by
        rw [← hpass]
        exact hreach
      have hmax : max h' p.place ≤ reach skip p.place rest :=
        Nat.max_le.2 ⟨hreach', le_reach skip p.place rest⟩
      obtain ⟨hitems, hsame⟩ := ih hrest (fun q hq => Nat.le_of_lt (hfirst q hq))
        (Nat.le_max_right h' p.place) hmax
      refine ⟨?_, ?_⟩
      · rw [items, items, hitem, hpass, hpass', hitems]
      · rw [reach, reach, List.foldl_cons, List.foldl_cons, hpass, hpass']
        exact hsame
    · have hfar := far_of_sorted hsorted hnear
      rw [reach_eq_self hfar] at hreach
      have heq : h' = h := Nat.le_antisymm hreach hle
      rw [heq]
      exact ⟨rfl, rfl⟩

end Posted

/-! ## Listings of a chain with gaps -/

namespace Log.Reader

variable {reader : Reader} {sender : PublicKey} {origin own : ChainKey} {payload : Bytes}
  {e : Entry}

theorem Carries.not_foreign (h : reader.Carries sender own payload e) :
    ¬ reader.Foreign sender own.chainId e := by
  obtain ⟨opened, nonce, hread, rfl, hbody⟩ := h
  unfold Foreign Message.nextAfter?
  rw [hread]
  dsimp only
  rw [if_neg (fun hne => hne rfl), hbody]
  dsimp only
  rw [if_pos rfl]
  exact Option.some_ne_none _

end Log.Reader

namespace Message

variable {reader : Log.Reader} {sender : PublicKey} {origin : ChainKey} {keys : ChainKeys}
  {payload : Bytes} {e : Log.Entry} {opened : Log.Opened} {body : Body} {place h : Nat}

theorem own_list (reader : Log.Reader) (keys : ChainKeys) (l : List Log.Entry) :
    (list reader keys l).2.own = keys.own :=
  list_invariant (P := fun k => k.own = keys.own) rfl
    fun k device chainId counter hk => (k.own_messageKey device chainId counter).trans hk

/-- Entries that are not messages of a chain do not move its furthest state. -/
theorem reads_list_foreign (he : reader.Foreign sender origin.chainId e)
    (hk : keys.Reads sender origin h) : (list reader keys [e]).2.Reads sender origin h := by
  cases hread : reader.read e with
  | error cause =>
    rw [list_cons_of_error keys hread]
    exact hk
  | ok opened =>
    rw [list_cons_of_ok keys hread, list]
    unfold Log.Reader.Foreign nextAfter? at he
    rw [hread] at he
    dsimp only at he
    unfold itemOf
    split
    · exact hk
    · next body hbody =>
      have hne : (sender, origin.chainId) ≠ (opened.sender, body.chainId) := by
        intro heq
        obtain ⟨hsender, hchain⟩ := Prod.mk.inj heq
        rw [if_neg (fun hne => hne hsender.symm), hbody] at he
        dsimp only at he
        rw [if_pos hchain.symm] at he
        cases he
      exact hk.messageKey_of_ne hne

theorem reads_list_of_foreign {l : List Log.Entry}
    (hl : ∀ e ∈ l, reader.Foreign sender origin.chainId e) (hk : keys.Reads sender origin h) :
    (list reader keys l).2.Reads sender origin h := by
  induction l generalizing keys with
  | nil => exact hk
  | cons e rest ih =>
    have he := reads_list_foreign (hl e List.mem_cons_self) hk
    rw [← List.singleton_append, list_append]
    exact ih (fun e' he' => hl e' (List.mem_cons_of_mem e he')) he

/-- A reader that holds the chain from its start on sees a message as its place lets it, and comes
as far as that. -/
theorem list_scattered (enc : Suite.EncryptionLaw)
    (he : reader.Carries sender (origin.advance place) payload e) (hk : keys.Reads sender origin h)
    (fits : origin.counter.toNat + place < UInt64.size) :
    (list reader keys [e]).1 =
        [Posted.item sender origin.counter keys.maxSkipped h ⟨⟨e.ref, payload⟩, place⟩] ∧
      (list reader keys [e]).2.Reads sender origin
        (Posted.pass keys.maxSkipped h ⟨⟨e.ref, payload⟩, place⟩) := by
  obtain ⟨opened, nonce, hread, rfl, hbody⟩ := he
  have hhash := Log.Reader.hash_of_read hread
  have hchain := ChainKey.chainId_advance place origin
  have hcounter := ChainKey.toNat_counter_advance fits
  rw [list_cons_of_ok keys hread, list, Posted.item, Posted.pass]
  by_cases hnear : place ≤ h + keys.maxSkipped
  · obtain ⟨hkey, hreads⟩ := hk.messageKey_of_le hnear hcounter
    rw [← hchain] at hkey hreads
    have hbox := SecretBox.reveal_sealWith enc (origin.advance place).messageKey nonce payload
    rw [itemOf_decrypted hbody hkey hbox, if_pos hnear, if_pos hnear, hhash, Posted.decrypted,
      ← ChainKey.counter_advance]
    exact ⟨rfl, hreads⟩
  · obtain ⟨hkey, hreads⟩ := hk.messageKey_of_far (Nat.not_le.1 hnear) hcounter
    rw [← hchain] at hkey hreads
    rw [itemOf_undecryptable hbody hkey, if_neg hnear, if_neg hnear, hhash, Posted.beyond, hcounter]
    exact ⟨rfl, hreads⟩

end Message

/-- A log in which messages of a chain stand in order, but not at every place, each under a hash of
its own, among entries that are no messages of this chain.  Some places of the chain are used up. -/
inductive Scattered (reader : Log.Reader) (sender : PublicKey) (origin : ChainKey) :
    Nat → List Posted → List Log.Entry → Prop
  | start {l : List Log.Entry} (foreign : ∀ e ∈ l, reader.Foreign sender origin.chainId e) :
      Scattered reader sender origin 0 [] l
  | lapse {used : Nat} {posted : List Posted} {l : List Log.Entry}
      (before : Scattered reader sender origin used posted l) :
      Scattered reader sender origin (used + 1) posted l
  | other {used : Nat} {posted : List Posted} {l : List Log.Entry} {e : Log.Entry}
      (before : Scattered reader sender origin used posted l) (fresh : e.hash ∉ l.map (·.hash))
      (foreign : reader.Foreign sender origin.chainId e) :
      Scattered reader sender origin used posted (l ++ [e])
  | message {used : Nat} {posted : List Posted} {l : List Log.Entry} {e : Log.Entry}
      {payload : Bytes} (before : Scattered reader sender origin used posted l)
      (fresh : e.hash ∉ l.map (·.hash))
      (carries : reader.Carries sender (origin.advance used) payload e) :
      Scattered reader sender origin (used + 1) (posted ++ [⟨⟨e.ref, payload⟩, used⟩]) (l ++ [e])

namespace Scattered

variable {reader : Log.Reader} {sender : PublicKey} {origin : ChainKey} {used skip h : Nat}
  {posted : List Posted} {l : List Log.Entry} {keys : ChainKeys} {payload : Bytes} {e : Log.Entry}

theorem woven (hl : Scattered reader sender origin used posted l) :
    Woven (posted.map Posted.toSent) l := by
  induction hl with
  | start foreign => exact .start _
  | lapse before ih => exact ih
  | other before fresh foreign ih => exact ih.other fresh
  | message before fresh carries ih =>
    rw [List.map_append]
    exact ih.message fresh _

theorem place_lt (hl : Scattered reader sender origin used posted l) :
    ∀ p ∈ posted, p.place < used := by
  induction hl with
  | start foreign => simp
  | lapse before ih => exact fun p hp => Nat.lt_succ_of_lt (ih p hp)
  | other before fresh foreign ih => exact ih
  | message before fresh carries ih =>
    intro p hp
    rcases List.mem_append.1 hp with hp | hp
    · exact Nat.lt_succ_of_lt (ih p hp)
    · rw [List.mem_singleton.1 hp]
      exact Nat.lt_succ_self _

theorem sorted (hl : Scattered reader sender origin used posted l) :
    posted.Pairwise (·.place < ·.place) := by
  induction hl with
  | start foreign => exact .nil
  | lapse before ih => exact ih
  | other before fresh foreign ih => exact ih
  | message before fresh carries ih =>
    refine List.pairwise_append.2 ⟨ih, List.pairwise_singleton _ _, fun p hp q hq => ?_⟩
    rw [List.mem_singleton.1 hq]
    exact before.place_lt p hp

/-- Every message on the chain stands at a place that is used up. -/
theorem carries_lt (hl : Scattered reader sender origin used posted l) (he : e ∈ l) :
    reader.Foreign sender origin.chainId e ∨
      ∃ place payload, place < used ∧ reader.Carries sender (origin.advance place) payload e := by
  induction hl with
  | start foreign => exact Or.inl (foreign e he)
  | lapse before ih =>
    rcases ih he with hforeign | ⟨place, payload, hlt, hcarries⟩
    · exact Or.inl hforeign
    · exact Or.inr ⟨place, payload, Nat.lt_succ_of_lt hlt, hcarries⟩
  | other before fresh foreign ih =>
    rcases List.mem_append.1 he with he | he
    · exact ih he
    · rw [List.mem_singleton.1 he]
      exact Or.inl foreign
  | @message used posted l new payload before fresh carries ih =>
    rcases List.mem_append.1 he with he | he
    · rcases ih he with hforeign | ⟨place, payload, hlt, hcarries⟩
      · exact Or.inl hforeign
      · exact Or.inr ⟨place, payload, Nat.lt_succ_of_lt hlt, hcarries⟩
    · rw [List.mem_singleton.1 he]
      exact Or.inr ⟨used, payload, Nat.lt_succ_self used, carries⟩

theorem not_carries (hl : Scattered reader sender origin used posted l) (he : e ∈ l)
    (room : origin.counter.toNat + used < UInt64.size) :
    ¬ reader.Carries sender (origin.advance used) payload e := by
  intro hnext
  rcases hl.carries_lt he with hforeign | ⟨place, payload, hlt, hcarries⟩
  · rw [← ChainKey.chainId_advance used origin] at hforeign
    exact hnext.not_foreign hforeign
  · have hcounter := congrArg UInt64.toNat (hcarries.counter_eq hnext)
    rw [ChainKey.toNat_counter_advance (by omega), ChainKey.toNat_counter_advance room] at hcounter
    omega

/-- A reader that holds the chain from its start on makes of the messages what their places let
it. -/
theorem filter_list_eq (enc : Suite.EncryptionLaw)
    (hl : Scattered reader sender origin used posted l) (hk : keys.Reads sender origin h)
    (room : origin.counter.toNat + used < UInt64.size) :
    (Message.list reader keys l).1.filter
          (fun item => item.entry ∈ (posted.map Posted.toSent).map Sent.hash) =
        Posted.items sender origin.counter keys.maxSkipped h posted ∧
      (Message.list reader keys l).2.Reads sender origin
        (Posted.reach keys.maxSkipped h posted) := by
  induction hl with
  | @start l foreign =>
    exact ⟨List.filter_eq_nil_iff.2 (by simp), Message.reads_list_of_foreign foreign hk⟩
  | lapse before ih => exact ih (by omega)
  | @other used posted l e before fresh foreign ih =>
    obtain ⟨hitems, hreads⟩ := ih room
    rw [Message.list_append]
    refine ⟨?_, Message.reads_list_foreign foreign hreads⟩
    rw [List.filter_append, hitems, before.woven.filter_list_other fresh, List.append_nil]
  | @message used posted l e payload before fresh carries ih =>
    obtain ⟨hitems, hreads⟩ := ih (by omega)
    obtain ⟨hitem, hreads'⟩ := Message.list_scattered enc carries hreads (by omega)
    rw [Message.maxSkipped_list] at hitem hreads'
    rw [Message.list_append, Posted.items_concat, Posted.reach_concat, hitem, List.map_append]
    refine ⟨?_, hreads'⟩
    have hentries := fun item (hi : item ∈ (Message.list reader keys l).1) =>
      Message.entry_mem_of_mem_list hi
    have hfresh : Sent.hash ⟨e.ref, payload⟩ ∉ l.map (·.hash) := fresh
    rw [List.map_singleton, Woven.filter_message hentries hfresh (Posted.entry_item _ _ _ _ _),
      hitems]

theorem length_le (hl : Scattered reader sender origin used posted l) : posted.length ≤ used := by
  induction hl with
  | start foreign => exact Nat.le_refl 0
  | lapse before ih => exact Nat.le_succ_of_le ih
  | other before fresh foreign ih => exact ih
  | message before fresh carries ih =>
    rw [List.length_append, List.length_singleton]
    exact Nat.succ_le_succ ih

/-- The places after the last message are places at which no message stands. -/
theorem le_last (hl : Scattered reader sender origin used posted l) :
    used ≤ Posted.last 0 posted + 1 + (used - posted.length) := by
  induction hl with
  | start foreign => exact Nat.zero_le _
  | lapse before ih =>
    have hlength := before.length_le
    omega
  | other before fresh foreign ih => exact ih
  | message before fresh carries ih =>
    rw [Posted.last_concat]
    exact Nat.le_add_right _ _

/-- A chain with fewer gaps than a reader skips is read to its end. -/
theorem readable_eq_self (hl : Scattered reader sender origin used posted l)
    (few : used < posted.length + skip) : Posted.readable skip 0 posted = posted := by
  induction hl with
  | start foreign => rfl
  | lapse before ih => exact ih (by omega)
  | other before fresh foreign ih => exact ih few
  | @message used posted l e payload before fresh carries ih =>
    rw [List.length_append, List.length_singleton] at few
    have hfew : used < posted.length + skip := by omega
    have hlength := before.length_le
    have hlast := before.le_last
    have hnear : used ≤ Posted.last 0 posted + skip := by omega
    exact Posted.readable_concat (ih hfew) hnear

end Scattered

/-! ## Calls of a store -/

namespace Desk

/-- The calls of a message store, one after the other: how many messages it was asked to send, and
those that it posted. -/
inductive Calls (device : PrivateKey) (start : Desk) : Nat → List Posted → Desk → Prop
  | start : Calls device start 0 [] start
  /-- A message is sent.  Its octets can be counted by a word, and no other octets in the log have
  the same hash. -/
  | posts {used : Nat} {posted : List Posted} {d : Desk} {payload body : Bytes} {keys : ChainKeys}
      {ref : Log.Ref} {binding : Log.Binding} {store : Log.Store} {n n' n'' : Entropy}
      (before : Calls device start used posted d)
      (composed : Message.compose d.keys payload n = ((body, keys), n'))
      (appended : d.binding.append d.store device body n' = ((.ok ref, binding, store), n''))
      (fits : body.length < UInt64.size ∧
        (d.binding.sealEntry device body n').1.1.length < UInt64.size)
      (apart : ∀ e ∈ d.entries, e.hash = .of (d.binding.sealEntry device body n').1.1 →
        e.payload = (d.binding.sealEntry device body n').1.1) :
      Calls device start (used + 1) (posted ++ [⟨⟨ref, payload⟩, used⟩]) ⟨keys, binding, store⟩
  /-- A message is not sent, because it takes too long or the log is closed for writing. -/
  | fails {used : Nat} {posted : List Posted} {d : Desk} {payload body : Bytes} {keys : ChainKeys}
      {cause : Error} {binding : Log.Binding} {store : Log.Store} {n n' n'' : Entropy}
      (before : Calls device start used posted d)
      (composed : Message.compose d.keys payload n = ((body, keys), n'))
      (appended : d.binding.append d.store device body n' = ((.error cause, binding, store), n'')) :
      Calls device start (used + 1) posted ⟨keys, binding, store⟩
  /-- The messages are listed. -/
  | lists {used : Nat} {posted : List Posted} {d : Desk}
      (before : Calls device start used posted d) :
      Calls device start used posted
        { d with keys := (Message.list d.binding.toReader d.keys d.entries).2 }
  /-- The log takes longer to acknowledge, or shorter. -/
  | slows {used : Nat} {posted : List Posted} {d : Desk}
      (before : Calls device start used posted d) (delay : Option Nat) :
      Calls device start used posted { d with store := { d.store with delay } }
  /-- Others add octets to the log that are no message of the device on its chain. -/
  | added {used : Nat} {posted : List Posted} {d : Desk} {octets : Bytes}
      (before : Calls device start used posted d)
      (foreign : ∀ e : Log.Entry, e.payload = octets →
        d.binding.toReader.Foreign device.pub d.keys.own.chainId e) :
      Calls device start used posted
        { d with store := (d.store.commit d.binding.address octets).2 }

/-- The chain has moved on by the messages that it was asked to send, those that it posted stand in
the log in order, and the device has read no further than what it posted lets it. -/
structure Tracked (device : PrivateKey) (start : Desk) (used : Nat) (posted : List Posted)
    (d : Desk) : Prop where
  own : d.keys.own = start.keys.own.advance used
  reader : d.binding.toReader = start.binding.toReader
  maxSkipped : d.keys.maxSkipped = start.keys.maxSkipped
  log : Scattered start.binding.toReader device.pub start.keys.own used posted d.entries
  reads : ∃ h, h ≤ Posted.reach start.keys.maxSkipped 0 posted ∧
    d.keys.Reads device.pub start.keys.own h

variable {device : PrivateKey} {start d : Desk} {used : Nat} {posted : List Posted}
  {payload body : Bytes} {keys : ChainKeys} {binding : Log.Binding} {store : Log.Store}
  {n n' n'' : Entropy}

namespace Tracked

/-- A message that is posted is not in the log before, and comes to its end. -/
theorem posts (sig : Suite.SignatureLaw) (enc : Suite.EncryptionLaw) {ref : Log.Ref}
    (hd : Tracked device start used posted d)
    (composed : Message.compose d.keys payload n = ((body, keys), n'))
    (appended : d.binding.append d.store device body n' = ((.ok ref, binding, store), n''))
    (fits : body.length < UInt64.size ∧
      (d.binding.sealEntry device body n').1.1.length < UInt64.size)
    (apart : ∀ e ∈ d.entries, e.hash = .of (d.binding.sealEntry device body n').1.1 →
      e.payload = (d.binding.sealEntry device body n').1.1)
    (room : start.keys.own.counter.toNat + used < UInt64.size) :
    Tracked device start (used + 1) (posted ++ [⟨⟨ref, payload⟩, used⟩])
      ⟨keys, binding, store⟩ := by
  obtain ⟨hbinding, hcases⟩ := append_cases sig enc composed appended fits apart
  have hkeys := Message.keys_of_compose composed
  rw [hd.reader, hd.own] at hcases
  rcases hcases with ⟨e, he, -, hcarries⟩ | ⟨e, rfl, hfresh, hcarries, hentries⟩
  · -- the octets would be a message at a place that was not used before
    exact absurd hcarries (hd.log.not_carries he room)
  · obtain ⟨h, hle, hreads⟩ := hd.reads
    refine ⟨?_, hbinding.trans hd.reader, ?_, ?_, h, ?_, ?_⟩
    · rw [hkeys, hd.own, ChainKey.next_advance]
    · rw [hkeys]
      exact hd.maxSkipped
    · rw [hentries]
      exact hd.log.message hfresh hcarries
    · rw [Posted.reach_concat]
      exact Nat.le_trans hle (Posted.le_pass _ _ _)
    · rw [hkeys]
      exact hreads

/-- A message that is not posted uses a place up, and leaves the log as it is. -/
theorem fails {cause : Error} (hd : Tracked device start used posted d)
    (composed : Message.compose d.keys payload n = ((body, keys), n'))
    (appended : d.binding.append d.store device body n' = ((.error cause, binding, store), n'')) :
    Tracked device start (used + 1) posted ⟨keys, binding, store⟩ := by
  have hkeys := Message.keys_of_compose composed
  obtain ⟨hbinding, rfl⟩ := Log.Binding.append_eq_error appended
  have hentries : Desk.entries ⟨keys, binding, d.store⟩ = d.entries :=
    congrArg (fun r : Log.Reader => d.store.entries r.address) hbinding
  refine ⟨?_, hbinding.trans hd.reader, ?_, ?_, ?_⟩
  · rw [hkeys, hd.own, ChainKey.next_advance]
  · rw [hkeys]
    exact hd.maxSkipped
  · rw [hentries]
    exact hd.log.lapse
  · rw [hkeys]
    exact hd.reads

/-- A listing takes the reader as far as the messages in the log let it, and no further. -/
theorem lists (enc : Suite.EncryptionLaw) (hd : Tracked device start used posted d)
    (room : start.keys.own.counter.toNat + used < UInt64.size) :
    Tracked device start used posted
      { d with keys := (Message.list d.binding.toReader d.keys d.entries).2 } := by
  obtain ⟨h, hle, hreads⟩ := hd.reads
  have hlisted := (hd.log.filter_list_eq enc hreads room).2
  have hreach := (Posted.items_of_le_reach device.pub start.keys.own.counter hd.log.sorted
    (fun p _ => Nat.zero_le p.place) (Nat.zero_le h) hle).2
  rw [hd.maxSkipped, hreach] at hlisted
  rw [hd.reader]
  refine ⟨?_, hd.reader, ?_, hd.log, _, Nat.le_refl _, hlisted⟩
  · exact (Message.own_list _ _ _).trans hd.own
  · exact (Message.maxSkipped_list _ _ _).trans hd.maxSkipped

/-- What others add changes nothing but the log. -/
theorem added {octets : Bytes} (hd : Tracked device start used posted d)
    (foreign : ∀ e : Log.Entry, e.payload = octets →
      d.binding.toReader.Foreign device.pub d.keys.own.chainId e) :
    Tracked device start used posted
      { d with store := (d.store.commit d.binding.address octets).2 } := by
  have hcases := d.store.commit_cases d.binding.address octets
  rw [hd.reader, hd.own, ChainKey.chainId_advance] at foreign
  refine ⟨hd.own, hd.reader, hd.maxSkipped, ?_, hd.reads⟩
  unfold entries
  dsimp only
  rcases hcases with ⟨e, he, -, hsame⟩ | ⟨hfresh, -, hnew⟩
  · rw [hsame]
    exact hd.log
  · rw [hnew]
    exact hd.log.other hfresh (foreign _ rfl)

end Tracked

namespace Calls

/-- What is known of a store after any calls. -/
theorem tracked (sig : Suite.SignatureLaw) (enc : Suite.EncryptionLaw)
    (h : Calls device start used posted d)
    (foreign : ∀ e ∈ start.entries,
      start.binding.toReader.Foreign device.pub start.keys.own.chainId e)
    (registered : start.keys.Reads device.pub start.keys.own 0)
    (room : start.keys.own.counter.toNat + used < UInt64.size) :
    Tracked device start used posted d := by
  induction h with
  | start => exact ⟨rfl, rfl, rfl, .start foreign, 0, Nat.zero_le _, registered⟩
  | posts before composed appended fits apart ih =>
    have hd := ih (by omega)
    exact hd.posts sig enc composed appended fits apart (by omega)
  | fails before composed appended ih =>
    have hd := ih (by omega)
    exact hd.fails composed appended
  | lists before ih => exact (ih room).lists enc room
  | slows before delay ih =>
    have hd := ih room
    exact ⟨hd.own, hd.reader, hd.maxSkipped, hd.log, hd.reads⟩
  | added before foreign' ih => exact (ih room).added foreign'

/-- A store sends messages, some of which fail, and lists them now and then, while others add to the
log what is no message of this chain.  Whatever happened, the messages that were posted stand in the
log in order, each once.  The next listing of the store holds the messages before the first gap that
is too wide, decrypted, and after it all others, refused as too far past the last one before it.
Every reader that holds the chain from the start on decrypts those before the first gap that is too
wide for it.  No gap is too wide when fewer sends failed than a reader skips. -/
theorem list_posted (sig : Suite.SignatureLaw) (enc : Suite.EncryptionLaw) (group : Group)
    (h : Calls device start used posted d) (bound : start.binding.toReader = .of group .messages)
    (foreign : ∀ e ∈ start.entries,
      start.binding.toReader.Foreign device.pub start.keys.own.chainId e)
    (registered : start.keys.Reads device.pub start.keys.own 0)
    (room : start.keys.own.counter.toNat + used < UInt64.size) :
    let skip := start.keys.maxSkipped
    let origin := start.keys.own.counter
    let about := fun item : Message.Item => decide (item.entry ∈ posted.map (·.ref.hash))
    let read := Posted.readable skip 0 posted
    (posted.map (·.ref.hash)).Nodup ∧
      (d.entries.filter (·.hash ∈ posted.map (·.ref.hash))).map (·.ref) = posted.map (·.ref) ∧
      (Message.list (.of group .messages) d.keys d.entries).1.filter about =
        read.map (·.decrypted device.pub origin) ++ (posted.drop read.length).map
          (·.beyond device.pub origin (Posted.last 0 read)) ∧
      (∀ keys : ChainKeys, keys.Holds device.pub start.keys.own →
        (Posted.readable keys.maxSkipped 0 posted).map (·.decrypted device.pub origin) <+:
          (Message.list (.of group .messages) keys d.entries).1.filter about) ∧
      ∀ skip, used < posted.length + skip → Posted.readable skip 0 posted = posted := by
  intro skip origin about read
  have hd := h.tracked sig enc foreign registered room
  have hlog := hd.log
  rw [bound] at hlog
  have hhashes : (posted.map Posted.toSent).map Sent.hash = posted.map (·.ref.hash) := by
    rw [List.map_map]
    rfl
  have hrefs : (posted.map Posted.toSent).map (·.ref) = posted.map (·.ref) := by
    rw [List.map_map]
    rfl
  have hnodup := hlog.woven.nodup_hashes
  have horder := hlog.woven.refs_eq
  rw [hhashes] at hnodup horder
  rw [hrefs] at horder
  have hpast : ∀ p ∈ posted, 0 ≤ p.place := fun p _ => Nat.zero_le p.place
  refine ⟨hnodup, horder, ?_, ?_, fun skip few => hlog.readable_eq_self few⟩
  · obtain ⟨known, hle, hreads⟩ := hd.reads
    have hlisted := (hlog.filter_list_eq enc hreads room).1
    rw [hhashes, hd.maxSkipped] at hlisted
    have hsame := (Posted.items_of_le_reach device.pub origin hlog.sorted hpast (Nat.zero_le known)
      hle).1
    have hsplit := Posted.items_eq device.pub origin skip hlog.sorted hpast
    exact hlisted.trans (hsame.trans hsplit)
  · intro keys hk
    obtain ⟨known, hreads⟩ := hk.reads
    have hlisted := (hlog.filter_list_eq enc hreads room).1
    rw [hhashes] at hlisted
    rw [hlisted]
    exact Posted.readable_prefix (Nat.zero_le known)

end Calls

end Desk

end SecureGroup

/-! ## A slow log -/

namespace SecureGroup.Plain

attribute [local instance] Suite.plain

/-- What a device has before it writes, with some settings. -/
def deskWith (settings : Settings) (device : UInt8) : Desk :=
  ⟨.ofChain (key device).pub ⟨0, .fit 32 [], 0⟩ settings.maxSkippedKeys,
    .of group .messages settings.appendTimeout, .empty⟩

/-- The desk when the log takes so many milliseconds to acknowledge. -/
def slow (d : Desk) (ms : Nat) : Desk := { d with store := { d.store with delay := some ms } }

/-- Writing is a call that posts a message, if it succeeds. -/
theorem calls_write {device : UInt8} {start d : Desk} {used : Nat} {posted : List Posted}
    {payload : Bytes} {ref : Log.Ref} (before : Desk.Calls (key device) start used posted d)
    (ok : (write device d payload).1 = .ok ref)
    (fits : (Message.compose d.keys payload zeros).1.1.length < UInt64.size ∧
      (d.binding.sealEntry (key device) (Message.compose d.keys payload zeros).1.1
        (Message.compose d.keys payload zeros).2).1.1.length < UInt64.size)
    (apart : ∀ entry ∈ d.entries, entry.hash ≠ .of (d.binding.sealEntry (key device)
      (Message.compose d.keys payload zeros).1.1 (Message.compose d.keys payload zeros).2).1.1) :
    Desk.Calls (key device) start (used + 1) (posted ++ [⟨⟨ref, payload⟩, used⟩])
      (write device d payload).2 :=
  .posts before rfl (Prod.ext (Prod.ext ok rfl) rfl) fits
    fun entry he hhash => absurd hhash (apart entry he)

/-- Writing is a call that uses a place of the chain up, if it fails. -/
theorem calls_write_of_error {device : UInt8} {start d : Desk} {used : Nat} {posted : List Posted}
    {payload : Bytes} {cause : Error} (before : Desk.Calls (key device) start used posted d)
    (failed : (write device d payload).1 = .error cause) :
    Desk.Calls (key device) start (used + 1) posted (write device d payload).2 :=
  .fails before rfl (Prod.ext (Prod.ext failed rfl) rfl)

end SecureGroup.Plain

namespace SecureGroup.Desk

attribute [local instance] Suite.plain

open Plain

/-- A message is sent, one is not, and one more is sent, by a device that skips two places. -/
theorem list_posted_around_lapse :
    let settings : Settings := ⟨256, 1, 2, 64⟩
    let first := write 2 (deskWith settings 2) [1]
    let second := write 2 (slow first.2 5) [2]
    let third := write 2 (slow second.2 0) [3]
    ∃ r s, Calls (key 2) (deskWith settings 2) 3 [⟨⟨r, [1]⟩, 0⟩, ⟨⟨s, [3]⟩, 2⟩] third.2 ∧
      (Message.list (.of group .messages) third.2.keys third.2.entries).1.filter
          (fun item => item.entry ∈ [r.hash, s.hash]) =
        [.decrypted ⟨r.hash, (key 2).pub, 0, [1]⟩, .decrypted ⟨s.hash, (key 2).pub, 2, [3]⟩] := by
  intro settings first second third
  obtain ⟨r, hr⟩ : ∃ r, first.1 = .ok r := ⟨_, rfl⟩
  obtain ⟨s, hs⟩ : ∃ s, third.1 = .ok s := ⟨_, rfl⟩
  have hlate : second.1 = .error (.timeout 1) := by decide +kernel
  have hempty : ∀ e ∈ (deskWith settings 2).entries,
      (deskWith settings 2).binding.toReader.Foreign (key 2).pub
        (deskWith settings 2).keys.own.chainId e := by
    intro e he
    cases he
  have hfirst : Calls (key 2) (deskWith settings 2) 1 ([] ++ [⟨⟨r, [1]⟩, 0⟩]) first.2 :=
    calls_write .start hr (by decide +kernel) (by decide +kernel)
  have hsecond : Calls (key 2) (deskWith settings 2) 2 ([] ++ [⟨⟨r, [1]⟩, 0⟩]) second.2 :=
    calls_write_of_error (.slows hfirst (some 5)) hlate
  have hthird : Calls (key 2) (deskWith settings 2) 3
      ([] ++ [⟨⟨r, [1]⟩, 0⟩] ++ [⟨⟨s, [3]⟩, 2⟩]) third.2 :=
    calls_write (.slows hsecond (some 0)) hs (by decide +kernel) (by decide +kernel)
  refine ⟨r, s, hthird, ?_⟩
  have hlisted := (Calls.list_posted Suite.plain_signatureLaw Suite.plain_encryptionLaw group hthird
    rfl hempty (ChainKeys.reads_ofChain _ _ _) (by decide)).2.2.1
  exact hlisted

/-- With a device that skips one place, a single failed send is enough: the next message is sent,
and the device itself cannot read it. -/
theorem unread_after_failed_send :
    let settings : Settings := ⟨256, 1, 1, 64⟩
    let first := write 2 (deskWith settings 2) [1]
    let second := write 2 (slow first.2 5) [2]
    let third := write 2 (slow second.2 0) [3]
    settings.validate = .ok () ∧ second.1 = .error (.timeout 1) ∧
      ∃ r s, first.1 = .ok r ∧ third.1 = .ok s ∧
        (Message.list (.of group .messages) third.2.keys third.2.entries).1 =
          [.decrypted ⟨r.hash, (key 2).pub, 0, [1]⟩,
            .undecryptable s.hash (key 2).pub (.key (.counterAhead 2 2))] := by
  intro settings first second third
  refine ⟨by decide +kernel, by decide +kernel, _, _, rfl, rfl, ?_⟩
  decide +kernel

end SecureGroup.Desk
