import SecureGroup.Json.Parser

/-!
# Reading JSON with known fields

An object whose fields are known: each may stand once and in any place, and other fields are
passed over.  Instead of the object there may be an array with the values in their order.
-/

namespace SecureGroup.Json

/-- Reads a value from the front of a text. -/
abbrev Reader (β : Type) := List Char → Option (β × List Char)

variable {β : Type}

/-- The known fields of an object up to its end; those seen before may not come again. -/
def namedFields? (reader : String → Option (Reader β)) :
    Nat → List String → Reader (List (String × β))
  | 0, _, _ => none
  | fuel + 1, seen, cs => do
    let (name, rest) ← text? (skipSpace cs)
    match skipSpace rest with
    | ':' :: rest =>
      let (field, rest) ← match reader name with
        | some read =>
          if name ∈ seen then none
          else (read (skipSpace rest)).map fun (value, rest) => ([(name, value)], rest)
        | none => (skip? (fuelFor rest) rest).map fun rest => ([], rest)
      match skipSpace rest with
      | ',' :: rest =>
        let (fields, rest) ← namedFields? reader fuel (field.map (·.1) ++ seen) rest
        return (field ++ fields, rest)
      | '\x7d' :: rest => return (field, rest)
      | _ => none
    | _ => none

/-- The values of fields in their order, up to the end of an array. -/
def orderedFields? (reader : String → Option (Reader β)) :
    List String → Reader (List (String × β))
  | [], _ => none
  | name :: names, cs => do
    let read ← reader name
    let (value, rest) ← read (skipSpace cs)
    match skipSpace rest with
    | ',' :: rest =>
      let (fields, rest) ← orderedFields? reader names rest
      return ((name, value) :: fields, rest)
    | ']' :: rest => return ([(name, value)], rest)
    | _ => none

/-- The known fields that a text gives, as an object or as an array in the order of `names`. -/
def readRecord (reader : String → Option (Reader β)) (names : List String) (s : String) :
    Option (List (String × β)) := do
  let (fields, rest) ← match skipSpace s.toList with
    | '\x7b' :: cs => match skipSpace cs with
      | '\x7d' :: rest => some ([], rest)
      | cs => namedFields? reader (cs.length + 1) [] cs
    | '[' :: cs => match skipSpace cs with
      | ']' :: rest => some ([], rest)
      | cs => orderedFields? reader names cs
    | _ => none
  if (skipSpace rest).isEmpty then some fields else none

/-- Reads a natural number of at most 64 bits. -/
def readWord : Reader Nat := fun cs =>
  match number? cs with
  | some (.integer n, rest) =>
    if 0 ≤ n ∧ n < 0x10000000000000000 then some (n.toNat, rest) else none
  | _ => none

end SecureGroup.Json
