import SecureGroup.Decimal.Natural
import SecureGroup.Error
import SecureGroup.Json.Printer
import SecureGroup.Json.Record
import SecureGroup.Text.Blank

/-!
# Settings

The numbers that a replica is set up with.  They are read from JSON, where a missing one has its
default, or from named variables, and none of them may be zero.
-/

namespace SecureGroup

/-- The numbers that a replica is set up with. -/
structure Settings where
  /-- How many notifications are kept for a subscriber at least. -/
  eventCapacity : Nat
  /-- How long an append may take, in milliseconds. -/
  appendTimeout : Nat
  /-- How far a chain may be moved past its furthest known position at once. -/
  maxSkippedKeys : Nat
  /-- How many entries are taken in one batch. -/
  batchSize : Nat
deriving DecidableEq

namespace Setting

def all : List Setting := [.eventCapacity, .appendTimeout, .maxSkippedKeys, .batchSize]

end Setting

namespace Settings

/-- What is set unless something else is said. -/
def default : Settings := ⟨256, 10000, 1024, 64⟩

def get (s : Settings) : Setting → Nat
  | .eventCapacity => s.eventCapacity
  | .appendTimeout => s.appendTimeout
  | .maxSkippedKeys => s.maxSkippedKeys
  | .batchSize => s.batchSize

def set (s : Settings) : Setting → Nat → Settings
  | .eventCapacity, n => { s with eventCapacity := n }
  | .appendTimeout, n => { s with appendTimeout := n }
  | .maxSkippedKeys, n => { s with maxSkippedKeys := n }
  | .batchSize, n => { s with batchSize := n }

/-- The settings with a limit on an append in microseconds, of which full milliseconds count. -/
def withTimeoutMicros (s : Settings) (us : Nat) : Settings := { s with appendTimeout := us / 1000 }

/-- Checks that no number is zero. -/
def validate (s : Settings) : Except Error Unit :=
  match Setting.all.find? (s.get · = 0) with
  | some setting => .error (.settingZero setting)
  | none => .ok ()

def toJson (s : Settings) : Json :=
  .object (Setting.all.map fun setting => (setting.field, .nat (s.get setting)))

def field? (name : String) : Option Setting := Setting.all.find? (·.field = name)

def ofJsonText (text : String) : Except Error Settings :=
  match Json.readRecord (fun name => (field? name).map fun _ => Json.readWord)
      (Setting.all.map Setting.field) text with
  | none => .error .json
  | some fields => .ok (Setting.all.foldl
      (fun s setting => match fields.lookup setting.field with
        | some n => s.set setting n
        | none => s) default)

/-- The number of one variable; without the variable the default stands. -/
def readVariable (vars : String → Option String) (s : Settings) (setting : Setting) :
    Except Error Settings :=
  match vars setting.envName with
  | none => .ok s
  | some text => match Decimal.readWord (Text.trimmed text) with
    | some n => .ok (s.set setting n)
    | none => .error (.settingText setting text)

/-- Reads valid settings from variables. -/
def ofVariables (vars : String → Option String) : Except Error Settings := do
  let s ← Setting.all.foldlM (readVariable vars) default
  s.validate
  return s

end Settings

end SecureGroup
