/-!
# JSON values

A value of the data format.  The fields of an object have an order; `Json.ofFields` sorts them by
their names and keeps each name once.
-/

namespace SecureGroup

/-- A number: an integer of 64 bits, or a floating-point number. -/
inductive Json.Number where
  | integer (n : Int)
  | float (f : Float)

inductive Json where
  | null
  | bool (b : Bool)
  | number (n : Json.Number)
  | string (s : String)
  | array (items : List Json)
  | object (fields : List (String × Json))

namespace Json

instance : Inhabited Json := ⟨null⟩

def int (n : Int) : Json := number (.integer n)

def nat (n : Nat) : Json := int n

/-- A field among those of an object, by its name; a field of that name is replaced. -/
def insert (name : String) (value : Json) : List (String × Json) → List (String × Json)
  | [] => [(name, value)]
  | (n, v) :: rest =>
    if name < n then (name, value) :: (n, v) :: rest
    else if n < name then (n, v) :: insert name value rest
    else (name, value) :: rest

/-- The object with these fields; the last of one name counts. -/
def ofFields (fields : List (String × Json)) : Json :=
  object (fields.foldl (fun acc (n, v) => insert n v acc) [])

def field? (name : String) : Json → Option Json
  | object fields => fields.lookup name
  | _ => none

end Json

end SecureGroup
