import Mathlib.Data.Int.Notation
import Mathlib.Data.Nat.Notation
/-!
# JSON values

Decoded documents and the text they are encoded to. Numbers keep their
literal, and the fields of an object stand in the order in which the
encoder writes them.
-/

namespace HardenLlm

/-- **A decoded document.** -/
inductive Json
  | null
  | bool (b : Bool)
  | num (literal : String)
  | str (s : String)
  | arr (items : List Json)
  | obj (fields : List (String × Json))

namespace Json

/-! ## Text -/

def hexDigit (n : ℕ) : Char := (Nat.toDigits 16 n).headD '0'

/-- The `\u` escape of a character below `0x10000`. -/
def unicodeEscape (c : Char) : List Char :=
  let n := c.toNat
  ['\\', 'u', hexDigit (n / 4096 % 16), hexDigit (n / 256 % 16), hexDigit (n / 16 % 16),
    hexDigit (n % 16)]

/-- One character of a string literal. Markup characters and the line
separators are escaped too. -/
def escapeChar (c : Char) : List Char :=
  if c = '"' then ['\\', '"']
  else if c = '\\' then ['\\', '\\']
  else if c = '\n' then ['\\', 'n']
  else if c = '\r' then ['\\', 'r']
  else if c = '\t' then ['\\', 't']
  else if c.toNat = 8 then ['\\', 'b']
  else if c.toNat = 12 then ['\\', 'f']
  else if c.toNat < 32 ∨ c = '<' ∨ c = '>' ∨ c = '&' ∨ c.toNat = 0x2028 ∨ c.toNat = 0x2029 then
    unicodeEscape c
  else [c]

def quote (s : String) : String := "\"" ++ String.ofList (s.toList.flatMap escapeChar) ++ "\""

mutual

/-- The compact text of a document. -/
def encode : Json → String
  | .null => "null"
  | .bool b => if b then "true" else "false"
  | .num literal => literal
  | .str s => quote s
  | .arr items => "[" ++ String.intercalate "," (encodeItems items) ++ "]"
  | .obj fields => "\x7b" ++ String.intercalate "," (encodeFields fields) ++ "\x7d"

def encodeItems : List Json → List String
  | [] => []
  | v :: rest => encode v :: encodeItems rest

def encodeFields : List (String × Json) → List String
  | [] => []
  | (key, v) :: rest => (quote key ++ ":" ++ encode v) :: encodeFields rest

end

/-! ## Keys -/

mutual

/-- Some object in the document has a field whose key satisfies `p`. -/
def hasKey (p : String → Bool) : Json → Bool
  | .arr items => hasKeyItems p items
  | .obj fields => hasKeyFields p fields
  | _ => false

def hasKeyItems (p : String → Bool) : List Json → Bool
  | [] => false
  | v :: rest => hasKey p v || hasKeyItems p rest

def hasKeyFields (p : String → Bool) : List (String × Json) → Bool
  | [] => false
  | (key, v) :: rest => p key || hasKey p v || hasKeyFields p rest

end

end Json

end HardenLlm
