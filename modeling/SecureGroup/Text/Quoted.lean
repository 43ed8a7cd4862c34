import SecureGroup.Bytes.Hex
import SecureGroup.Text.Unprintable

/-!
# Quoted text

A text between marks, with a backslash before the mark and before a backslash, short forms for
the usual controls, and the number of every other character that has no form of its own.
-/

namespace SecureGroup.Text

/-- The hexadecimal digits of a number, without leading zeros. -/
def hexNumber (n : Nat) : String := String.ofList (Nat.toDigits 16 n)

/-- One character as it stands between two marks. -/
def escape (mark c : Char) : String :=
  if c = mark ∨ c = '\\' then String.ofList ['\\', c]
  else if c = '\n' then "\\n"
  else if c = '\r' then "\\r"
  else if c = '\t' then "\\t"
  else if c.toNat = 0 then "\\0"
  else if isUnprintable c then "\\u\x7b" ++ hexNumber c.toNat ++ "\x7d"
  else String.singleton c

/-- A text between double quotation marks. -/
def quote (s : String) : String := "\"" ++ String.join (s.toList.map (escape '"')) ++ "\""

/-- A character between single quotation marks. -/
def quoteChar (c : Char) : String := "'" ++ escape '\'' c ++ "'"

end SecureGroup.Text
