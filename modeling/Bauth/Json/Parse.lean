import Mathlib.Data.Rat.Defs
import Mathlib.Data.Nat.Digits.Defs
import Mathlib.Data.List.Basic

/-!
# Reading JSON

`JSON.parse`: a text of Unicode characters is read as one value, with nothing but white space around
it. Numbers keep their exact value, and strings are lists of UTF-16 code units.
-/

namespace Json

inductive Value where
  | null
  | bool (b : Bool)
  | number (n : ℚ)
  | string (units : List ℕ)
  | array (items : List Value)
  | object (members : List (List ℕ × Value))

/-- The UTF-16 code units of a character. -/
def codeUnits (c : Char) : List ℕ :=
  if c.toNat < 0x10000 then [c.toNat]
  else [0xD800 + (c.toNat - 0x10000) / 0x400, 0xDC00 + (c.toNat - 0x10000) % 0x400]

def isWhitespace (c : Char) : Bool := c = ' ' || c = '\t' || c = '\n' || c = '\r'

def skipWhitespace (text : List Char) : List Char := text.dropWhile isWhitespace

/-! ### Strings -/

def hexDigit (c : Char) : Option ℕ :=
  if c.isDigit then some (c.toNat - 48)
  else if 'a' ≤ c && c ≤ 'f' then some (c.toNat - 87)
  else if 'A' ≤ c && c ≤ 'F' then some (c.toNat - 55)
  else none

def hexUnit (a b c d : Char) : Option ℕ := do
  return (← hexDigit a) * 4096 + (← hexDigit b) * 256 + (← hexDigit c) * 16 + (← hexDigit d)

/-- The character that an escape of two characters stands for. -/
def unescape (c : Char) : Option ℕ :=
  if c = '"' || c = '\\' || c = '/' then some c.toNat
  else if c = 'b' then some 8
  else if c = 'f' then some 12
  else if c = 'n' then some 10
  else if c = 'r' then some 13
  else if c = 't' then some 9
  else none

/-- A string, after its opening quote, and what follows its closing quote. -/
def parseChars : List Char → Option (List ℕ × List Char)
  | [] => none
  | '"' :: rest => some ([], rest)
  | '\\' :: 'u' :: a :: b :: c :: d :: rest => do
    let unit ← hexUnit a b c d
    let (units, rest) ← parseChars rest
    return (unit :: units, rest)
  | '\\' :: c :: rest => do
    let unit ← unescape c
    let (units, rest) ← parseChars rest
    return (unit :: units, rest)
  | c :: rest =>
    if c = '\\' || c.toNat < 0x20 then none
    else do
      let (units, rest) ← parseChars rest
      return (codeUnits c ++ units, rest)

/-! ### Numbers -/

def digitsValue (digits : List Char) : ℕ := digits.foldl (fun n c => 10 * n + (c.toNat - 48)) 0

/-- One digit at least, and no more once the first one is zero. -/
def parseInteger (text : List Char) : Option (ℕ × List Char) :=
  match text with
  | '0' :: rest => some (0, rest)
  | _ =>
    match text.span Char.isDigit with
    | ([], _) => none
    | (digits, rest) => some (digitsValue digits, rest)

/-- What a fraction adds. -/
def parseFraction (text : List Char) : Option (ℚ × List Char) :=
  match text with
  | '.' :: rest =>
    match rest.span Char.isDigit with
    | ([], _) => none
    | (digits, rest) => some (digitsValue digits / 10 ^ digits.length, rest)
  | _ => some (0, text)

def parseExponentDigits (sign : ℤ) (text : List Char) : Option (ℤ × List Char) :=
  match text.span Char.isDigit with
  | ([], _) => none
  | (digits, rest) => some (sign * digitsValue digits, rest)

def parseExponent (text : List Char) : Option (ℤ × List Char) :=
  match text with
  | c :: rest =>
    if c = 'e' || c = 'E' then
      match rest with
      | '+' :: rest => parseExponentDigits 1 rest
      | '-' :: rest => parseExponentDigits (-1) rest
      | rest => parseExponentDigits 1 rest
    else some (0, text)
  | [] => some (0, text)

def parseUnsigned (text : List Char) : Option (ℚ × List Char) := do
  let (integer, text) ← parseInteger text
  let (fraction, text) ← parseFraction text
  let (exponent, text) ← parseExponent text
  return ((integer + fraction) * 10 ^ exponent, text)

def parseNumber (text : List Char) : Option (ℚ × List Char) :=
  match text with
  | '-' :: rest => do
    let (n, rest) ← parseUnsigned rest
    return (-n, rest)
  | _ => parseUnsigned text

/-! ### Values -/

mutual

/-- One value and what follows it; the fuel bounds the nesting. -/
def parseValue : ℕ → List Char → Option (Value × List Char)
  | 0, _ => none
  | fuel + 1, text =>
    match skipWhitespace text with
    | 'n' :: 'u' :: 'l' :: 'l' :: rest => some (.null, rest)
    | 't' :: 'r' :: 'u' :: 'e' :: rest => some (.bool true, rest)
    | 'f' :: 'a' :: 'l' :: 's' :: 'e' :: rest => some (.bool false, rest)
    | '"' :: rest => do
      let (units, rest) ← parseChars rest
      return (.string units, rest)
    | '[' :: rest =>
      match skipWhitespace rest with
      | ']' :: rest => some (.array [], rest)
      | rest => do
        let (items, rest) ← parseItems fuel rest
        return (.array items, rest)
    | '{' :: rest =>
      match skipWhitespace rest with
      | '}' :: rest => some (.object [], rest)
      | rest => do
        let (members, rest) ← parseMembers fuel rest
        return (.object members, rest)
    | text => do
      let (n, rest) ← parseNumber text
      return (.number n, rest)

/-- The items of an array, up to its bracket. -/
def parseItems : ℕ → List Char → Option (List Value × List Char)
  | 0, _ => none
  | fuel + 1, text => do
    let (item, rest) ← parseValue fuel text
    match skipWhitespace rest with
    | ',' :: rest => do
      let (items, rest) ← parseItems fuel rest
      return (item :: items, rest)
    | ']' :: rest => return ([item], rest)
    | _ => none

/-- The members of an object, up to its brace. -/
def parseMembers : ℕ → List Char → Option (List (List ℕ × Value) × List Char)
  | 0, _ => none
  | fuel + 1, text =>
    match skipWhitespace text with
    | '"' :: rest => do
      let (key, rest) ← parseChars rest
      match skipWhitespace rest with
      | ':' :: rest => do
        let (value, rest) ← parseValue fuel rest
        match skipWhitespace rest with
        | ',' :: rest => do
          let (members, rest) ← parseMembers fuel rest
          return ((key, value) :: members, rest)
        | '}' :: rest => return ([(key, value)], rest)
        | _ => none
      | _ => none
    | _ => none

end

/-- `JSON.parse`; `none` where it throws. -/
def parse (text : List Char) : Option Value := do
  let (value, rest) ← parseValue (text.length + 1) text
  if skipWhitespace rest = [] then return value else none

/-- The property of that name; of members of one name the last one counts. -/
def Value.property (name : String) : Value → Option Value
  | object members =>
    (members.reverse.find? fun m => m.1 = name.toList.flatMap codeUnits).map Prod.snd
  | _ => none

end Json
