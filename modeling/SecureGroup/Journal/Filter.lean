import SecureGroup.Error
import SecureGroup.Journal.Level
import SecureGroup.Text.Alphanumeric
import SecureGroup.Text.Blank

/-!
# Filters of a journal

A filter is a list of directives, each a threshold for all targets or for those that start with a
text.  The directive with the longest such text decides; a later one replaces an earlier one with
the same text.  What no directive covers is not let through.
-/

namespace SecureGroup.Journal

/-- A threshold for the targets that start with a text, or for all of them. -/
structure Directive where
  target : Option String
  threshold : Threshold
deriving DecidableEq

structure Filter where
  directives : List Directive

namespace Directive

/-- Whether a directive may begin with a character. -/
def isStart (c : Char) : Bool := Text.isAlphanumeric c || c == '-' || c == ':' || c == '_'

/-- The directive that a text writes: a level, a target, or both with `=` between them.  Blanks at
either end do not count for where `=` stands, but they are not taken off the target or the level. -/
def ofText? (s : String) : Option Directive :=
  match Text.trimmed s with
  | [] => none
  | c :: cs =>
    if !isStart c then none
    else match (c :: cs).idxOf? '=' with
      | none => match Threshold.ofText? s with
        | some t => some ⟨none, t⟩
        | none => some ⟨some s, some .trace⟩
      | some place =>
        let target := some (String.ofList (s.toList.take place))
        let level := String.ofList (s.toList.drop (place + 1))
        if level = "" then some ⟨target, some .trace⟩
        else (Threshold.ofText? level).map fun t => ⟨target, t⟩

/-- How specific a directive is: the length of its text, and least when it is for all targets. -/
def weight (d : Directive) : Nat :=
  match d.target with
  | none => 0
  | some t => t.utf8ByteSize + 1

def covers (d : Directive) (target : String) : Bool :=
  match d.target with
  | none => true
  | some t => t.toList.isPrefixOf target.toList

end Directive

namespace Filter

/-- The filter that a text writes, its directives separated by commas; empty ones do not count. -/
def ofText? (s : String) : Option Filter :=
  (((s.splitOn ",").filter (· ≠ "")).mapM Directive.ofText?).map Filter.mk

/-- The more specific of two directives, the second one if they are equally so. -/
def sharper (best : Option Directive) (d : Directive) : Option Directive :=
  match best with
  | none => some d
  | some b => if b.weight ≤ d.weight then some d else some b

def deciding? (f : Filter) (target : String) : Option Directive :=
  (f.directives.filter (·.covers target)).foldl sharper none

/-- Whether an event of a level from a target is let through. -/
def allows (f : Filter) (target : String) (level : Level) : Bool :=
  match f.deciding? target with
  | none => false
  | some d => d.threshold.allows level

/-- What is let through when nothing is said. -/
def default : Filter := ⟨[⟨some "groupsync_core", some .info⟩]⟩

/-- The filter that a text asks for, otherwise the one of the environment, otherwise the
default. -/
def choose (asked environment : Option String) : Except Error Filter :=
  match asked with
  | some text => match ofText? text with
    | some f => .ok f
    | none => .error .logFilter
  | none => .ok ((environment.bind ofText?).getD default)

end Filter

end SecureGroup.Journal
