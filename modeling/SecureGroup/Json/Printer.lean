import SecureGroup.Decimal.Shortest
import SecureGroup.Json.Value

/-!
# Writing JSON

The compact form: no spaces, the fields of an object in their order.  A text escapes quotation
marks, backslashes and controls.  A floating-point number is written with the fewest digits that
read back, positionally from `1e-5` up to `1e16` and otherwise with an exponent after its sign.
-/

namespace SecureGroup.Json

/-! ## Algorithm -/

/-- The digit of a value below 16. -/
def hexDigit (n : Nat) : Char := if n < 10 then Char.ofNat (48 + n) else Char.ofNat (87 + n)

def escape (c : Char) : List Char :=
  if c = '"' then ['\\', '"']
  else if c = '\\' then ['\\', '\\']
  else if c = '\n' then ['\\', 'n']
  else if c = '\r' then ['\\', 'r']
  else if c = '\t' then ['\\', 't']
  else if c.toNat = 8 then ['\\', 'b']
  else if c.toNat = 12 then ['\\', 'f']
  else if c.toNat < 32 then ['\\', 'u', '0', '0', hexDigit (c.toNat / 16), hexDigit (c.toNat % 16)]
  else [c]

/-- A text between quotation marks. -/
def quoted (s : String) : List Char := '"' :: s.toList.flatMap escape ++ ['"']

def intChars (n : Int) : List Char :=
  if n < 0 then '-' :: Nat.toDigits 10 n.natAbs else Nat.toDigits 10 n.natAbs

/-- The digits of an exponent, always after a sign. -/
def exponentChars (n : Int) : List Char :=
  if n < 0 then intChars n else '+' :: intChars n

/-- The decimal `d * 10 ^ k` with a point or an exponent. -/
def decimalChars (d : Nat) (k : Int) : List Char :=
  let digits := Nat.toDigits 10 d
  let point := digits.length + k
  if 0 ≤ k ∧ point ≤ 16 then digits ++ List.replicate k.toNat '0' ++ ['.', '0']
  else if 0 < point ∧ point ≤ 16 then digits.take point.toNat ++ '.' :: digits.drop point.toNat
  else if -5 < point ∧ point ≤ 0 then
    ['0', '.'] ++ List.replicate (-point).toNat '0' ++ digits
  else
    let mantissa := match digits with
      | first :: second :: rest => first :: '.' :: second :: rest
      | short => short
    mantissa ++ 'e' :: exponentChars (point - 1)

/-- The bit in front of the fraction, which a floating-point number does not store. -/
def hidden : Nat := 0x10000000000000

/-- A floating-point number; one that is not finite is written as `null`. -/
def floatChars (f : Float) : List Char :=
  let bits : Nat := f.toBits.toNat
  let fraction : Nat := bits % hidden
  let exponent : Nat := bits / hidden % 2048
  let sign := if 2048 * hidden ≤ bits then ['-'] else []
  if exponent = 2047 then ['n', 'u', 'l', 'l']
  else if exponent = 0 ∧ fraction = 0 then sign ++ ['0', '.', '0']
  else
    let (d, k) :=
      if exponent = 0 then Decimal.shortest fraction (-1074) false
      else
        Decimal.shortest (hidden + fraction) ((exponent : Int) - 1075)
          (fraction = 0 ∧ 1 < exponent)
    sign ++ decimalChars d k

def Number.chars : Number → List Char
  | integer n => intChars n
  | float f => floatChars f

mutual

/-- A value in its compact form. -/
def chars : Json → List Char
  | null => ['n', 'u', 'l', 'l']
  | bool true => ['t', 'r', 'u', 'e']
  | bool false => ['f', 'a', 'l', 's', 'e']
  | number n => n.chars
  | string s => quoted s
  | array items => '[' :: itemChars items ++ [']']
  | object fields => '\x7b' :: fieldChars fields ++ ['\x7d']

/-- The items of an array, with commas between them. -/
def itemChars : List Json → List Char
  | [] => []
  | [item] => chars item
  | item :: rest => chars item ++ ',' :: itemChars rest

/-- The fields of an object, with commas between them. -/
def fieldChars : List (String × Json) → List Char
  | [] => []
  | [(name, value)] => quoted name ++ ':' :: chars value
  | (name, value) :: rest => quoted name ++ ':' :: chars value ++ ',' :: fieldChars rest

end

def render (v : Json) : String := String.ofList (chars v)

end SecureGroup.Json
