import SecureGroup.Decimal.Natural

/-!
# Levels of a journal

The weight of an event, the heaviest first, and how much of it a threshold lets through.
-/

namespace SecureGroup.Journal

/-- The weight of an event. -/
inductive Level where
  | error
  | warn
  | info
  | debug
  | trace
deriving DecidableEq

namespace Level

/-- All levels, the heaviest first. -/
def all : List Level := [error, warn, info, debug, trace]

def name : Level → String
  | error => "error"
  | warn => "warn"
  | info => "info"
  | debug => "debug"
  | trace => "trace"

def ofName? (name : String) : Option Level := all.find? (·.name = name)

/-- The place of a level, from one on. -/
def rank : Level → Nat
  | error => 1
  | warn => 2
  | info => 3
  | debug => 4
  | trace => 5

end Level

/-- The least heavy level that is let through, if any is. -/
abbrev Threshold := Option Level

/-- Whether a threshold lets a level through. -/
def Threshold.allows (t : Threshold) (l : Level) : Bool :=
  match t with
  | none => false
  | some most => l.rank ≤ most.rank

def lowerAscii (c : Char) : Char := if 'A' ≤ c ∧ c ≤ 'Z' then Char.ofNat (c.toNat + 32) else c

/-- The threshold that a text names: a level in letters of any case, `off`, or a number up to
five. -/
def Threshold.ofText? (s : String) : Option Threshold :=
  match Decimal.readWord s.toList with
  | some 0 => some none
  | some n => (Level.all.find? (·.rank = n)).map some
  | none =>
    let word := s.toList.map lowerAscii
    if word = "off".toList then some none
    else (Level.all.find? (·.name.toList = word)).map some

end SecureGroup.Journal
