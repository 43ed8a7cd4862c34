import SecureGroup.Journal.Filter
import SecureGroup.Journal.Record
import SecureGroup.Text.Lines

/-!
# Journals

A replica writes what happens to it into a file of its own, one record a line.  The file is named
for the day and the replica, and a later run goes on at its end.  Values are noted with an event
under their names; a text under the name of the message is the message, and the others are fields.
-/

namespace SecureGroup.Journal

/-- A value that is noted with an event. -/
inductive FieldValue where
  | text (s : String)
  /-- An error, by its text. -/
  | failure (s : String)
  | integer (n : Int)
  | truth (b : Bool)
  | real (f : Float)

structure Span where
  name : String
  target : String
  level : Level

/-- Something that happened: the values that are noted with it under their names, and the spans
around it from the outermost on. -/
structure Event where
  time : Timestamp
  level : Level
  target : String
  values : List (String × FieldValue)
  spans : List Span

/-- The target of the spans of a replica. -/
def spanTarget : String := "groupsync_core::metadata"

def Span.ofName (name : String) : Span := ⟨name, spanTarget, .error⟩

/-- The name of the message among the values of an event. -/
def messageName : String := "message"

/-- The JSON form of a value; a real number that is not finite has none. -/
def FieldValue.toJson? : FieldValue → Option Json
  | .text s => some (.string s)
  | .failure s => some (.string s)
  | .integer n => some (.int n)
  | .truth b => some (.bool b)
  | .real f => if f.isFinite then some (.number (.float f)) else none

/-- The message that a value is: a text under its name. -/
def message? : String × FieldValue → Option String
  | (name, .text s) => if name = messageName then some s else none
  | _ => none

/-- The field that a value is: any other value that has a JSON form. -/
def field? (value : String × FieldValue) : Option (String × Json) :=
  if (message? value).isSome then none else value.2.toJson?.map fun v => (value.1, v)

namespace Event

def saying (message : String) (fields : List (String × FieldValue)) (time : Timestamp)
    (level : Level) (target : String) (spans : List Span) : Event :=
  ⟨time, level, target, (messageName, .text message) :: fields, spans⟩

/-- The message of an event, the last one if it has several. -/
def message (e : Event) : String := ((e.values.filterMap message?).getLast?).getD ""

def fields (e : Event) : List (String × Json) := e.values.filterMap field?

/-- The names of the spans around an event, those that a filter lets through. -/
def spanNames (filter : Filter) (e : Event) : List String :=
  (e.spans.filter fun s => filter.allows s.target s.level).map (·.name)

def record (filter : Filter) (replica : String) (e : Event) : Record where
  time := e.time.toText
  level := e.level.name
  replica := replica
  target := e.target
  message := e.message
  fields := if e.fields.isEmpty then none else some (Json.ofFields e.fields)
  span :=
    if (e.spanNames filter).isEmpty then none else some (" > ".intercalate (e.spanNames filter))

end Event

/-- The text of a file after an event: if the filter lets the event through, the line of its record
comes to the end. -/
def write (filter : Filter) (replica : String) (text : String) (e : Event) : String :=
  if filter.allows e.target e.level then text ++ (e.record filter replica).toLine ++ "\n" else text

def run (filter : Filter) (replica : String) (text : String) (events : List Event) : String :=
  events.foldl (write filter replica) text

def fileName (now : Timestamp) (replica : String) : String :=
  now.date.toText ++ "_" ++ replica ++ ".jsonl"

/-- The path of the file below the directory of all journals. -/
def path (now : Timestamp) (replica : String) : String := "raw/" ++ fileName now replica

def maxName : Nat := 255

def maxPath : Nat := 4095

/-- The part of a name in front of its first slash. -/
def firstPart (name : String) : String := String.ofList (name.toList.takeWhile (· ≠ '/'))

/-- Opens the file of a replica; its name cannot lead into another directory. -/
def openFile (directoryIsFile : Bool) (now : Timestamp) (replica : String) :
    Except Error String :=
  let name := fileName now replica
  if directoryIsFile then .error (.file .notADirectory)
  else if '\x00' ∈ replica.toList then .error (.file .nulInName)
  else if maxPath < (path now replica).utf8ByteSize ∨ maxName < (firstPart name).utf8ByteSize then
    .error (.file .nameTooLong)
  else if '/' ∈ replica.toList then .error (.file .noSuchDirectory)
  else .ok (path now replica)

/-- The file after some runs of a replica: its path and its text. -/
def runs (filter : Filter) (directoryIsFile : Bool) (now : Timestamp) (replica : String)
    (batches : List (List Event)) : Except Error (String × String) := do
  let file ← openFile directoryIsFile now replica
  return (file, batches.foldl (run filter replica) "")

/-- What the lines of a file are read as. -/
def records (text : String) : List (Except Error Record) := (Text.lines text).map Record.ofLine

end SecureGroup.Journal
