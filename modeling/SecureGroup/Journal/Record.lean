import SecureGroup.Error
import SecureGroup.Json.Printer
import SecureGroup.Json.Record
import SecureGroup.Timestamp

/-!
# Records of a journal

A record is one line of JSON.  It is written with its values in a fixed order, those that are
absent left out, and read back from an object or from an array of all seven values.
-/

namespace SecureGroup.Journal

structure Record where
  time : String
  level : String
  replica : String
  target : String
  message : String
  fields : Option Json
  span : Option String

namespace Record

/-- The names of the values, in order. -/
def names : List String := ["ts", "level", "instance", "target", "msg", "fields", "span"]

/-- The values of a record under their names, in order. -/
def values (r : Record) : List (String × Json) :=
  [("ts", .string r.time), ("level", .string r.level), ("instance", .string r.replica),
    ("target", .string r.target), ("msg", .string r.message)] ++
    (r.fields.map fun v => ("fields", v)).toList ++
    (r.span.map fun s => ("span", .string s)).toList

def toJson (r : Record) : Json := .object r.values

def toLine (r : Record) : String := r.toJson.render

def readText : Json.Reader Json := fun cs => (Json.text? cs).map fun (s, rest) => (.string s, rest)

/-- Reads a text, or `null`. -/
def readOptionalText : Json.Reader Json := fun cs =>
  match cs with
  | 'n' :: rest => (Json.dropWord? ['u', 'l', 'l'] rest).map fun rest => (.null, rest)
  | cs => readText cs

/-- Reads any value; the record around it is one level of its depth. -/
def readAny : Json.Reader Json := fun cs => Json.value? (Json.fuelFor cs) (Json.maxDepth - 1) cs

/-- How the value with a name is read. -/
def reader (name : String) : Option (Json.Reader Json) :=
  if name = "fields" then some readAny
  else if name = "span" then some readOptionalText
  else if name ∈ names then some readText
  else none

def requiredText (values : List (String × Json)) (name : String) : Except Error String :=
  match values.lookup name with
  | some (.string s) => .ok s
  | _ => .error .json

def ofValues (values : List (String × Json)) : Except Error Record := do
  return {
    time := ← requiredText values "ts"
    level := ← requiredText values "level"
    replica := ← requiredText values "instance"
    target := ← requiredText values "target"
    message := ← requiredText values "msg"
    fields := match values.lookup "fields" with
      | some .null => none
      | other => other
    span := match values.lookup "span" with
      | some (.string s) => some s
      | _ => none }

def isArray (s : String) : Bool := (Json.skipSpace s.toList).head? = some '['

def ofLine (line : String) : Except Error Record :=
  match Json.readRecord reader names line with
  | none => .error .json
  | some values =>
    if isArray line ∧ values.length ≠ names.length then .error .json else ofValues values

end Record

end SecureGroup.Journal
