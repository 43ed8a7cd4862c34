import SecureGroup.Json.Value

/-!
# Reading JSON

`parse` reads one value and nothing after it, blanks apart.  Containers are at most 127 deep.
Integers of 64 bits stay integers; any other number becomes a floating-point number from its
first digits, as many as fit into 64 bits, and one power of ten.  `skip` passes over a value
whose content does not matter: its form is checked, but not its depth, the size of its numbers
or the pairing of surrogates in its texts.
-/

namespace SecureGroup.Json

/-! ## Characters -/

/-- Whether a character may stand between tokens. -/
def isSpace (c : Char) : Bool := c == ' ' || c == '\n' || c == '\t' || c == '\r'

/-- The text after its leading blanks. -/
def skipSpace (cs : List Char) : List Char := cs.dropWhile isSpace

def isDigit (c : Char) : Bool := '0' ≤ c && c ≤ '9'

def digitValue (c : Char) : Nat := c.toNat - 48

def hexDigitValue? (c : Char) : Option Nat :=
  if isDigit c then some (digitValue c)
  else if 'a' ≤ c && c ≤ 'f' then some (c.toNat - 87)
  else if 'A' ≤ c && c ≤ 'F' then some (c.toNat - 55)
  else none

/-- The text after a word that it starts with. -/
def dropWord? : List Char → List Char → Option (List Char)
  | [], cs => some cs
  | w :: ws, c :: cs => if w = c then dropWord? ws cs else none
  | _ :: _, [] => none

/-! ## Texts -/

/-- The number that four hexadecimal digits write, and the text after them. -/
def unit? : List Char → Option (Nat × List Char)
  | a :: b :: c :: d :: rest => do
    let a ← hexDigitValue? a
    let b ← hexDigitValue? b
    let c ← hexDigitValue? c
    let d ← hexDigitValue? d
    return (4096 * a + 256 * b + 16 * c + d, rest)
  | _ => none

/-- The character that a backslash and another character write, if it is a short form. -/
def shortForm? : Char → Option Char
  | '"' => some '"'
  | '\\' => some '\\'
  | '/' => some '/'
  | 'b' => some '\x08'
  | 'f' => some '\x0c'
  | 'n' => some '\n'
  | 'r' => some '\r'
  | 't' => some '\t'
  | _ => none

/-- The character that numbers of 16 bits write after a backslash and `u`: one of them, or a high
surrogate and a low one. -/
def numbered? (cs : List Char) : Option (Char × List Char) := do
  let (n, rest) ← unit? cs
  if 0xdc00 ≤ n ∧ n ≤ 0xdfff then none
  else if 0xd800 ≤ n ∧ n ≤ 0xdbff then
    match rest with
    | '\\' :: 'u' :: rest =>
      let (m, rest) ← unit? rest
      if 0xdc00 ≤ m ∧ m ≤ 0xdfff then
        return (Char.ofNat (0x10000 + (n - 0xd800) * 0x400 + (m - 0xdc00)), rest)
      else none
    | _ => none
  else return (Char.ofNat n, rest)

/-- The characters up to the closing quotation mark, and the text after it. -/
def textBody? : Nat → List Char → Option (List Char × List Char)
  | 0, _ => none
  | _ + 1, [] => none
  | fuel + 1, c :: cs =>
    if c = '"' then some ([], cs)
    else if c.toNat < 32 then none
    else if c = '\\' then
      match cs with
      | [] => none
      | 'u' :: cs => do
        let (d, cs) ← numbered? cs
        let (ds, cs) ← textBody? fuel cs
        return (d :: ds, cs)
      | e :: cs => do
        let d ← shortForm? e
        let (ds, cs) ← textBody? fuel cs
        return (d :: ds, cs)
    else do
      let (ds, cs) ← textBody? fuel cs
      return (c :: ds, cs)

def text? : List Char → Option (String × List Char)
  | '"' :: cs => (textBody? (cs.length + 1) cs).map fun (ds, rest) => (String.ofList ds, rest)
  | _ => none

/-! ## Numbers -/

def maxSignificand : Nat := UInt64.size - 1

/-- Takes digits into a significand while it fits; also how many were taken. -/
def absorb (significand taken : Nat) : List Char → Nat × Nat
  | [] => (significand, taken)
  | c :: cs =>
    let next := 10 * significand + digitValue c
    if next ≤ maxSignificand then absorb next (taken + 1) cs else (significand, taken)

/-- A significand times a power of ten: one division or multiplication, more only below the
smallest power.  Nothing when the number is too large. -/
def scale (f : Float) (exponent : Int) : Nat → Option Float
  | 0 => some 0.0
  | fuel + 1 =>
    if exponent.natAbs ≤ 308 then
      let power := Float.ofScientific 1 false exponent.natAbs
      if 0 ≤ exponent then
        let r := f * power
        if r.isInf then none else some r
      else some (f / power)
    else if f == 0.0 then some f
    else if 0 ≤ exponent then none
    else scale (f / 1e308) (exponent + 308) fuel

/-- The floating-point number of a sign, a significand and an exponent. -/
def float? (negative : Bool) (significand : Nat) (exponent : Int) : Option Float :=
  (scale (UInt64.ofNat significand).toFloat exponent 8).map fun f => if negative then -f else f

/-- The exponent after its `e`, and the text after it. -/
def exponent? (cs : List Char) : Option (Int × List Char) :=
  let (negative, cs) := match cs with
    | '+' :: cs => (false, cs)
    | '-' :: cs => (true, cs)
    | cs => (false, cs)
  match cs.span isDigit with
  | ([], _) => none
  | (ds, rest) =>
    let n := ds.foldl (fun n c => 10 * n + digitValue c) 0
    some (if negative then -n else n, rest)

/-- Finishes a number that is no integer; an exponent beyond 32 bits makes it zero or too large. -/
def finish (negative : Bool) (significand : Nat) (shift : Int) (cs : List Char) :
    Option (Number × List Char) :=
  match cs with
  | c :: rest =>
    if c = 'e' ∨ c = 'E' then do
      let (e, rest) ← exponent? rest
      if e.natAbs < 0x80000000 then
        return (.float (← float? negative significand (shift + e)), rest)
      else if significand ≠ 0 ∧ 0 ≤ e then none
      else return (.float (if negative then -0.0 else 0.0), rest)
    else (float? negative significand shift).map fun f => (.float f, cs)
  | [] => (float? negative significand shift).map fun f => (.float f, [])

/-- A number without its sign, and the text after it. -/
def unsigned? (negative : Bool) (cs : List Char) : Option (Number × List Char) :=
  let (ds, rest) := cs.span isDigit
  if ds.isEmpty ∨ (ds.head? = some '0' ∧ 1 < ds.length) then none
  else
    let (significand, taken) := absorb 0 0 ds
    let shift : Int := ds.length - taken
    match rest with
    | '.' :: rest =>
      let (fs, rest) := rest.span isDigit
      if fs.isEmpty then none
      else
        let (significand, taken) := absorb significand 0 fs
        finish negative significand (shift - taken) rest
    | c :: _ =>
      if c = 'e' ∨ c = 'E' then finish negative significand shift rest
      else whole significand shift rest
    | [] => whole significand shift rest
where
  /-- An integer if it has 64 bits, otherwise a floating-point number. -/
  whole (significand : Nat) (shift : Int) (rest : List Char) : Option (Number × List Char) :=
    if shift ≠ 0 then (float? negative significand shift).map fun f => (.float f, rest)
    else if !negative then some (.integer significand, rest)
    else if significand ≠ 0 ∧ significand ≤ 0x8000000000000000 then
      some (.integer (-significand), rest)
    else (float? true significand 0).map fun f => (.float f, rest)

def number? : List Char → Option (Number × List Char)
  | '-' :: cs => unsigned? true cs
  | cs => unsigned? false cs

/-! ## Values -/

mutual

/-- A value at most `depth` containers deep, and the text after it. -/
def value? : Nat → Nat → List Char → Option (Json × List Char)
  | 0, _, _ => none
  | fuel + 1, depth, cs =>
    match skipSpace cs with
    | [] => none
    | c :: cs =>
      if c = 'n' then (dropWord? ['u', 'l', 'l'] cs).map fun rest => (null, rest)
      else if c = 't' then (dropWord? ['r', 'u', 'e'] cs).map fun rest => (bool true, rest)
      else if c = 'f' then (dropWord? ['a', 'l', 's', 'e'] cs).map fun rest => (bool false, rest)
      else if c = '"' then (text? (c :: cs)).map fun (s, rest) => (string s, rest)
      else if c = '[' then
        match depth with
        | 0 => none
        | depth + 1 =>
          match skipSpace cs with
          | ']' :: rest => some (array [], rest)
          | cs => (items? fuel depth cs).map fun (items, rest) => (array items, rest)
      else if c = '\x7b' then
        match depth with
        | 0 => none
        | depth + 1 =>
          match skipSpace cs with
          | '\x7d' :: rest => some (object [], rest)
          | cs => (fields? fuel depth cs).map fun (fields, rest) => (ofFields fields, rest)
      else (number? (c :: cs)).map fun (n, rest) => (number n, rest)

/-- The items of an array up to its end. -/
def items? : Nat → Nat → List Char → Option (List Json × List Char)
  | 0, _, _ => none
  | fuel + 1, depth, cs => do
    let (item, rest) ← value? fuel depth cs
    match skipSpace rest with
    | ',' :: rest =>
      let (items, rest) ← items? fuel depth rest
      return (item :: items, rest)
    | ']' :: rest => return ([item], rest)
    | _ => none

def fields? : Nat → Nat → List Char → Option (List (String × Json) × List Char)
  | 0, _, _ => none
  | fuel + 1, depth, cs => do
    let (name, rest) ← text? (skipSpace cs)
    match skipSpace rest with
    | ':' :: rest =>
      let (value, rest) ← value? fuel depth rest
      match skipSpace rest with
      | ',' :: rest =>
        let (fields, rest) ← fields? fuel depth rest
        return ((name, value) :: fields, rest)
      | '\x7d' :: rest => return ([(name, value)], rest)
      | _ => none
    | _ => none

end

/-- How many steps reading a text may take. -/
def fuelFor (cs : List Char) : Nat := 2 * cs.length + 2

/-- How deep containers may be. -/
def maxDepth : Nat := 127

def parse (s : String) : Option Json :=
  match value? (fuelFor s.toList) maxDepth s.toList with
  | some (v, rest) => if (skipSpace rest).isEmpty then some v else none
  | none => none

/-! ## Values whose content does not matter -/

/-- The text after the closing quotation mark of a text. -/
def skipText? : Nat → List Char → Option (List Char)
  | 0, _ => none
  | _ + 1, [] => none
  | fuel + 1, c :: cs =>
    if c = '"' then some cs
    else if c.toNat < 32 then none
    else if c = '\\' then
      match cs with
      | [] => none
      | 'u' :: cs => do
        let (_, cs) ← unit? cs
        skipText? fuel cs
      | e :: cs => do
        let _ ← shortForm? e
        skipText? fuel cs
    else skipText? fuel cs

/-- The text after the digits and the exponent of a number. -/
def skipExponent? (cs : List Char) : Option (List Char) :=
  match cs with
  | c :: rest => if c = 'e' ∨ c = 'E' then (exponent? rest).map (·.2) else some cs
  | [] => some []

/-- The text after a number without its sign. -/
def skipNumber? (cs : List Char) : Option (List Char) :=
  let (ds, rest) := cs.span isDigit
  if ds.isEmpty ∨ (ds.head? = some '0' ∧ 1 < ds.length) then none
  else match rest with
    | '.' :: rest =>
      let (fs, rest) := rest.span isDigit
      if fs.isEmpty then none else skipExponent? rest
    | rest => skipExponent? rest

mutual

def skip? : Nat → List Char → Option (List Char)
  | 0, _ => none
  | fuel + 1, cs =>
    match skipSpace cs with
    | [] => none
    | c :: cs =>
      if c = 'n' then dropWord? ['u', 'l', 'l'] cs
      else if c = 't' then dropWord? ['r', 'u', 'e'] cs
      else if c = 'f' then dropWord? ['a', 'l', 's', 'e'] cs
      else if c = '"' then skipText? (cs.length + 1) cs
      else if c = '-' then skipNumber? cs
      else if c = '[' then
        match skipSpace cs with
        | ']' :: rest => some rest
        | cs => skipItems? fuel cs
      else if c = '\x7b' then
        match skipSpace cs with
        | '\x7d' :: rest => some rest
        | cs => skipFields? fuel cs
      else skipNumber? (c :: cs)

/-- The text after the items of an array and its end. -/
def skipItems? : Nat → List Char → Option (List Char)
  | 0, _ => none
  | fuel + 1, cs => do
    let rest ← skip? fuel cs
    match skipSpace rest with
    | ',' :: rest => skipItems? fuel rest
    | ']' :: rest => return rest
    | _ => none

/-- The text after the fields of an object and its end. -/
def skipFields? : Nat → List Char → Option (List Char)
  | 0, _ => none
  | fuel + 1, cs =>
    match skipSpace cs with
    | '"' :: cs => do
      let rest ← skipText? (cs.length + 1) cs
      match skipSpace rest with
      | ':' :: rest =>
        let rest ← skip? fuel rest
        match skipSpace rest with
        | ',' :: rest => skipFields? fuel rest
        | '\x7d' :: rest => return rest
        | _ => none
      | _ => none
    | _ => none

end

end SecureGroup.Json
