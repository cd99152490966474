import HardenLlm.Common.Bindings
import HardenLlm.Common.Json
/-!
# Reading documents

The decoder: it skips white space, undoes the escapes of strings, takes
numbers by their literal, and collects the fields of an object into a map.
Arrays and objects may be nested to a given depth only.
-/

namespace HardenLlm.Json

open Bindings

/-! ## Numbers -/

/-- The characters that occur in numbers. -/
def numberChar (c : Char) : Bool := c.isDigit || c ∈ ['-', '+', '.', 'e', 'E']

/-- The digits after an exponent's letter and sign. -/
def exponentDigits : List Char → Bool
  | '+' :: digits | '-' :: digits => digits ≠ [] && digits.all Char.isDigit
  | digits => digits ≠ [] && digits.all Char.isDigit

/-- What may follow the digits of a number. -/
def exponent : List Char → Bool
  | [] => true
  | c :: rest => (c = 'e' || c = 'E') && exponentDigits rest

def fraction : List Char → Bool
  | '.' :: c :: rest => c.isDigit && exponent (rest.dropWhile Char.isDigit)
  | rest => exponent rest

/-- A number without its sign. -/
def magnitude : List Char → Bool
  | [] => false
  | c :: rest => if c = '0' then fraction rest else c.isDigit && fraction (rest.dropWhile Char.isDigit)

def withoutSign : List Char → List Char
  | [] => []
  | c :: rest => if c = '-' then rest else c :: rest

/-- **The literal of a number.** -/
def isNumber (cs : List Char) : Bool := cs.all numberChar && magnitude (withoutSign cs)

/-! ## Strings -/

def hexValue (c : Char) : Option ℕ :=
  if c.isDigit then some (c.toNat - 48)
  else if 'a' ≤ c && c ≤ 'f' then some (c.toNat - 87)
  else if 'A' ≤ c && c ≤ 'F' then some (c.toNat - 55)
  else none

/-- Four hexadecimal digits. -/
def readHex : List Char → Option (ℕ × List Char)
  | a :: b :: c :: d :: rest => do
    let a ← hexValue a
    let b ← hexValue b
    let c ← hexValue c
    let d ← hexValue d
    return (((a * 16 + b) * 16 + c) * 16 + d, rest)
  | _ => none

/-- The second half of a surrogate pair. -/
def lowSurrogate : List Char → Option (ℕ × List Char)
  | '\\' :: 'u' :: rest => (readHex rest).filter fun e => 0xDC00 ≤ e.1 && e.1 < 0xE000
  | _ => none

/-- The character behind `\u`; half a pair stands for the replacement
character. -/
def readUnicode (cs : List Char) : Option (Char × List Char) := do
  let (n, rest) ← readHex cs
  if n < 0xD800 ∨ 0xE000 ≤ n then return (Char.ofNat n, rest)
  else match (if n < 0xDC00 then lowSurrogate rest else none) with
    | some (m, rest') => return (Char.ofNat (0x10000 + (n - 0xD800) * 0x400 + (m - 0xDC00)), rest')
    | none => return (Char.ofNat 0xFFFD, rest)

/-- The character behind a backslash. -/
def unescape : List Char → Option (Char × List Char)
  | [] => none
  | c :: rest =>
    if c = 'u' then readUnicode rest
    else (match c with
      | '"' => some '"'
      | '\\' => some '\\'
      | '/' => some '/'
      | 'b' => some (Char.ofNat 8)
      | 'f' => some (Char.ofNat 12)
      | 'n' => some '\n'
      | 'r' => some '\r'
      | 't' => some '\t'
      | _ => none).map fun c => (c, rest)

/-- The characters of a string, up to the closing quote. -/
def readChars : ℕ → List Char → Option (List Char × List Char)
  | 0, _ | _, [] => none
  | fuel + 1, c :: rest =>
    if c = '"' then some ([], rest)
    else if c = '\\' then do
      let (c, rest) ← unescape rest
      let (cs, rest) ← readChars fuel rest
      return (c :: cs, rest)
    else if c.toNat < 32 then none
    else do
      let (cs, rest) ← readChars fuel rest
      return (c :: cs, rest)

/-- A string behind its opening quote. -/
def readString (cs : List Char) : Option (String × List Char) :=
  (readChars (cs.length + 1) cs).map fun e => (String.ofList e.1, e.2)

/-! ## Values -/

def isBlank (c : Char) : Bool := c = ' ' || c = '\t' || c = '\n' || c = '\r'

def skip (cs : List Char) : List Char := cs.dropWhile isBlank

/-- The rest of a word. -/
def readWord (word : List Char) (v : Json) (cs : List Char) : Option (Json × List Char) :=
  if word.isPrefixOf cs then some (v, cs.drop word.length) else none

def readNumber (cs : List Char) : Option (Json × List Char) :=
  let literal := cs.takeWhile numberChar
  if isNumber literal then some (.num (String.ofList literal), cs.dropWhile numberChar) else none

/-- A key with its colon. -/
def readKey (cs : List Char) : Option (String × List Char) :=
  match skip cs with
  | '"' :: rest => do
    let (key, rest) ← readString rest
    match skip rest with
    | ':' :: rest => return (key, rest)
    | _ => none
  | _ => none

section Nested

variable (read : List Char → Option (Json × List Char))

/-- The items behind the first one. -/
def readItems : ℕ → List Char → Option (List Json × List Char)
  | 0, _ => none
  | fuel + 1, cs =>
    match skip cs with
    | ']' :: rest => some ([], rest)
    | ',' :: rest => do
      let (v, rest) ← read rest
      let (vs, rest) ← readItems fuel rest
      return (v :: vs, rest)
    | _ => none

/-- An array behind its opening bracket. -/
def readArray (cs : List Char) : Option (Json × List Char) :=
  match skip cs with
  | ']' :: rest => some (.arr [], rest)
  | _ => do
    let (v, rest) ← read cs
    let (vs, rest) ← readItems read (rest.length + 1) rest
    return (.arr (v :: vs), rest)

def readField (cs : List Char) : Option ((String × Json) × List Char) := do
  let (key, rest) ← readKey cs
  let (v, rest) ← read rest
  return ((key, v), rest)

/-- The fields behind the first one. -/
def readFields : ℕ → List Char → Option (List (String × Json) × List Char)
  | 0, _ => none
  | fuel + 1, cs =>
    match skip cs with
    | '\x7d' :: rest => some ([], rest)
    | ',' :: rest => do
      let (e, rest) ← readField read rest
      let (es, rest) ← readFields fuel rest
      return (e :: es, rest)
    | _ => none

/-- An object behind its opening brace. -/
def readObject (cs : List Char) : Option (Json × List Char) :=
  match skip cs with
  | '\x7d' :: rest => some (.obj [], rest)
  | _ => do
    let (e, rest) ← readField read cs
    let (es, rest) ← readFields read (rest.length + 1) rest
    return (.obj (collect (e :: es)), rest)

end Nested

/-- A value; arrays and objects are left to `nested`. -/
def readWith (nested : Option (List Char → Option (Json × List Char))) (cs : List Char) :
    Option (Json × List Char) :=
  match skip cs with
  | [] => none
  | c :: rest =>
    if c = '[' then nested.bind fun read => readArray read rest
    else if c = '\x7b' then nested.bind fun read => readObject read rest
    else if c = '"' then (readString rest).map fun e => (.str e.1, e.2)
    else if c = 'n' then readWord ['u', 'l', 'l'] .null rest
    else if c = 't' then readWord ['r', 'u', 'e'] (.bool true) rest
    else if c = 'f' then readWord ['a', 'l', 's', 'e'] (.bool false) rest
    else readNumber (c :: rest)

/-- **The value at the head of a text**, nested at most so deep, and what
follows it. -/
def readValue : ℕ → List Char → Option (Json × List Char)
  | 0 => readWith none
  | depth + 1 => readWith (some (readValue depth))

/-- The nesting that a decoder accepts. -/
def maxNestingDepth : ℕ := 10000

/-- `Decoder.Decode` with `UseNumber`: the first value of a text. -/
def decode (text : String) : Option (Json × List Char) := readValue maxNestingDepth text.toList

end HardenLlm.Json
