import SecureGroup.Log.Binding

/-!
# Appends under way

Appends through one binding may overlap.  Each of them finds the binding open or closed, takes a
number and seals its payload, and is acknowledged by the store or given up (`Traffic.Step`).  These
steps mingle in any order with each other, with closing, and with whatever others do to the store.
How long the store takes is left open: an append that waits may be acknowledged or given up at any
moment.
-/

namespace SecureGroup.Log

variable [Suite]

/-- An append: who writes what, the octets once they are sealed, and the answer once there is
one. -/
structure Call where
  device : PrivateKey
  payload : Bytes
  octets : Option Bytes
  result : Option (Except Error Ref)

/-- The reference that an append was given. -/
def Call.ref? (c : Call) : Option Ref :=
  match c.result with
  | some (.ok ref) => some ref
  | _ => none

/-- A binding, the store, and the appends that were started through the binding, in order. -/
structure Traffic where
  binding : Binding
  store : Store
  calls : List Call

namespace Traffic

/-- The log that the binding writes. -/
def entries (t : Traffic) : List Entry := t.store.entries t.binding.address

def octets (t : Traffic) : List Bytes := t.calls.filterMap (·.octets)

/-- The references that were given so far. -/
def refs (t : Traffic) : List Ref := t.calls.filterMap (·.ref?)

/-- One step, and the octets that others add to the log in it. -/
inductive Step : Traffic → List Bytes → Traffic → Prop
  /-- An append is started and finds the binding open. -/
  | starts {t : Traffic} (device : PrivateKey) (payload : Bytes)
      (isOpen : t.binding.closed = false) :
      Step t [] { t with calls := t.calls ++ [⟨device, payload, none, none⟩] }
  /-- An append is started and finds the binding closed. -/
  | refuses {t : Traffic} (device : PrivateKey) (payload : Bytes)
      (closed : t.binding.closed = true) :
      Step t [] { t with calls := t.calls ++ [⟨device, payload, none, some (.error .closed)⟩] }
  /-- An append takes the next number and seals its payload. -/
  | seals {binding : Binding} {store : Store} {device : PrivateKey} {payload : Bytes}
      (before after : List Call) (nonce : Octets 12) :
      Step ⟨binding, store, before ++ ⟨device, payload, none, none⟩ :: after⟩ []
        ⟨(binding.sealWith device payload nonce).2, store, before ++
          ⟨device, payload, some (binding.sealWith device payload nonce).1, none⟩ :: after⟩
  /-- The store adds the octets of an append and acknowledges them. -/
  | acknowledges {binding : Binding} {store : Store} {device : PrivateKey} {payload octets : Bytes}
      (before after : List Call) :
      Step ⟨binding, store, before ++ ⟨device, payload, some octets, none⟩ :: after⟩ []
        ⟨binding, (store.commit binding.address octets).2, before ++ ⟨device, payload, some octets,
          some (.ok (store.commit binding.address octets).1)⟩ :: after⟩
  /-- An append is given up before the store has added its octets. -/
  | lapses {binding : Binding} {store : Store} {device : PrivateKey} {payload octets : Bytes}
      (before after : List Call) :
      Step ⟨binding, store, before ++ ⟨device, payload, some octets, none⟩ :: after⟩ []
        ⟨binding, store, before ++ ⟨device, payload, some octets,
          some (.error (.timeout binding.timeout))⟩ :: after⟩
  | closes {t : Traffic} : Step t [] { t with binding := t.binding.close }
  /-- Others add whatever octets they like to the log. -/
  | added {t : Traffic} (octets : Bytes) :
      Step t [octets] { t with store := (t.store.commit t.binding.address octets).2 }
  /-- Whatever leaves the log as it is: other logs grow, entries are listened to and delivered
  again, the store becomes slower or faster. -/
  | aside {t : Traffic} {store : Store} (entries : store.entries t.binding.address = t.entries) :
      Step t [] { t with store }

/-- Steps one after the other, and all that others add to the log in them. -/
inductive Runs (start : Traffic) : List Bytes → Traffic → Prop
  | refl : Runs start [] start
  | snoc {t t' : Traffic} {others more : List Bytes} (before : Runs start others t)
      (last : Step t more t') : Runs start (others ++ more) t'

end Traffic

end SecureGroup.Log
