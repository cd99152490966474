import HardenLlm.Common.Json.Canonical
import HardenLlm.Common.Json.Reader
import HardenLlm.Common.Regex
import HardenLlm.Common.Rewrite
import HardenLlm.Runtime.Model.Accounting
/-!
# The redactor

`redaction.go`: configured secrets are replaced first, then what looks like
a key, and last the URLs of a text are written anew with their user
information and secret parameters replaced. How `net/url` reads a URL is a
parameter; how it writes one is spelled out, since that is the text that
leaves.
-/

namespace HardenLlm.Redaction

open Regex

/-- `Replacement`. -/
def replacement : List Char := "[REDACTED]".toList

/-! ## Patterns -/

def hyphen : Regex := opt (char fun c => c = '-' || c = '_')

/-- `secretKeyPattern`. -/
def secretKeyPattern : Regex :=
  oneOf [allOf [textFold "api", hyphen, textFold "key"], textFold "authorization",
    allOf [textFold "proxy", hyphen, textFold "authorization"], textFold "cookie",
    allOf [textFold "set", hyphen, textFold "cookie"], textFold "password", textFold "passwd",
    textFold "secret", allOf [textFold "client", hyphen, textFold "secret"],
    allOf [textFold "access", hyphen, textFold "token"],
    allOf [textFold "refresh", hyphen, textFold "token"],
    allOf [textFold "id", hyphen, textFold "token"], textFold "credential",
    textFold "ciphertext", allOf [textFold "auth", hyphen, textFold "tag"],
    allOf [textFold "encryption", hyphen, textFold "key"],
    allOf [textFold "private", hyphen, textFold "key"]]

/-- The characters of a token. -/
def tokenChar (c : Char) : Bool := c.isAlphanum || c ∈ ['.', '_', '~', '+', '/', '=', '-']

/-- `bearerPattern`. Ignoring case, two more letters are in the class. -/
def bearerPattern : Regex :=
  allOf [boundary, oneOf [textFold "Bearer", textFold "Basic"], plus (char space),
    plus (char fun c => tokenChar c || c.toNat = 0x17F || c.toNat = 0x212A)]

/-- `providerKeyPattern`. -/
def providerKeyPattern : Regex :=
  allOf [boundary,
    oneOf [text "sk", text "sk-ant", text "AIza", text "xai", text "gsk", text "nvapi"],
    opt (char (· == '-')), atLeast 8 (char tokenChar)]

/-- `pemPattern`. -/
def pemPattern : Regex :=
  let label := star false (char fun c => c.isUpper || c = ' ')
  allOf [text "-----BEGIN ", label, text "PRIVATE KEY-----", star true (char fun _ => true),
    text "-----END ", label, text "PRIVATE KEY-----"]

/-- `querySecretKey`. -/
def querySecretKey : Regex :=
  allOf [start,
    oneOf [textFold "key", allOf [textFold "api", hyphen, textFold "key"], textFold "token",
      allOf [textFold "access", hyphen, textFold "token"], textFold "auth",
      textFold "authorization", textFold "signature", textFold "sig", textFold "credential",
      textFold "password", textFold "secret"],
    stop]

/-- `embeddedURLPattern`. -/
def embeddedURLPattern : Regex :=
  allOf [textFold "http", opt (textFold "s"), text "://",
    plus (char fun c => !(space c || c ∈ ['"', '\'', '<', '>']))]

/-! ## URLs -/

/-- A parameter of a query, decoded, with the values of a repeated key. -/
structure Param where
  key : List Char
  value : List Char
  more : List (List Char) := []
  deriving DecidableEq

/-- **A URL as `net/url` reads it**: user information, host, path and
fragment in the form they are written in again, the query decoded, its keys
in order. -/
structure Url where
  scheme : List Char
  user : Option (List Char)
  host : List Char
  path : List Char
  forceQuery : Bool
  query : List Param
  fragment : List Char
  deriving DecidableEq

/-- A byte as `%XX`. -/
def percent (b : UInt8) : List Char :=
  ['%', (Json.hexDigit (b.toNat / 16)).toUpper, (Json.hexDigit (b.toNat % 16)).toUpper]

/-- `url.QueryEscape`. -/
def queryEscape (t : List Char) : List Char :=
  t.flatMap fun c =>
    if c.isAlphanum || c ∈ ['-', '_', '.', '~'] then [c]
    else if c = ' ' then ['+']
    else (String.utf8EncodeChar c).flatMap percent

/-- The pairs of one key in `Values.Encode`. -/
def Param.pairs (p : Param) : List (List Char) :=
  (p.value :: p.more).map fun v => queryEscape p.key ++ '=' :: queryEscape v

/-- `Values.Encode`. -/
def encodeQuery (query : List Param) : List Char :=
  ['&'].intercalate (query.flatMap Param.pairs)

namespace Url

variable (u : Url)

/-- **`URL.String`**, of a URL with a scheme and a host, after its query was
encoded. -/
def render : List Char :=
  let raw := encodeQuery u.query
  u.scheme ++ "://".toList
    ++ (match u.user with | some user => user ++ ['@'] | none => [])
    ++ u.host ++ u.path
    ++ (if u.forceQuery ∨ raw ≠ [] then '?' :: raw else [])
    ++ (if u.fragment = [] then [] else '#' :: u.fragment)

/-- The replacement as user information, and as a value of a query. -/
def encodedReplacement : List Char := "%5BREDACTED%5D".toList

/-- What `redactParsedURL` puts in place. -/
def redacted : Url :=
  { u with
    user := u.user.map fun _ => encodedReplacement
    query := u.query.map fun p =>
      if querySecretKey.isMatch p.key then { p with value := replacement, more := [] } else p }

/-- `redactParsedURL`. -/
def redactParsedURL : List Char := u.redacted.render

end Url

/-! ## The redactor -/

/-- A redactor, and how `net/url` reads. -/
structure Redactor where
  literals : List (List Char)
  parse : List Char → Option Url

/-- `New`: secrets trimmed, each once, the longest first. -/
def new (parse : List Char → Option Url) (secrets : List String) : Redactor where
  literals := ((((secrets.map fun s => (Runtime.trimSpace s).toList).filter
    fun s => s ≠ [] ∧ s ≠ replacement).dedup).insertionSort fun s t =>
      (String.ofList t).utf8ByteSize ≤ (String.ofList s).utf8ByteSize)
  parse := parse

namespace Redactor

variable (r : Redactor)

/-- A URL written by `f`; a text that is no URL with a scheme and a host
stays. -/
def onURL (f : Url → List Char) (t : List Char) : List Char :=
  match r.parse t with
  | some u => if u.scheme ≠ [] ∧ u.host ≠ [] then f u else t
  | none => t

/-- `redactURL`. -/
def redactURL (t : List Char) : List Char := r.onURL Url.redactParsedURL t

/-- The literals replaced, one after the other. -/
def replaceLiterals (t : List Char) : List Char :=
  r.literals.foldl (fun t s => Rewrite.replaceAll (Rewrite.literal s) (fun _ => replacement) t) t

def replacePattern (p : Regex) (t : List Char) : List Char :=
  Rewrite.replaceAll p.length (fun _ => replacement) t

/-- The passes before the URLs. -/
def scrub (t : List Char) : List Char :=
  replacePattern providerKeyPattern (replacePattern bearerPattern
    (replacePattern pemPattern (r.replaceLiterals t)))

/-- The URLs within a text. -/
def embedded (t : List Char) : List Char := Rewrite.replaceAll embeddedURLPattern.length r.redactURL t

/-- **`Text`.** -/
def text (value : String) : String :=
  String.ofList (r.redactURL (r.embedded (r.scrub value.toList)))

end Redactor

/-! ## Documents -/

/-- `strings.ToLower`, as far as it gives ASCII letters. -/
def lowerChar (c : Char) : Char :=
  if c.toNat = 0x212A then 'k' else if c.toNat = 0x130 then 'i' else c.toLower

def isNumber : Json → Bool
  | .num _ => true
  | _ => false

/-- `isSecretKey`. -/
def isSecretKey (key : String) (value : Json) : Bool :=
  let trimmed := (Runtime.trimSpace key).toList
  let lower := trimmed.map lowerChar
  let compact := lower.filter fun c => c ∉ ['-', '_', '.']
  let ends (s : String) := s.toList.isSuffixOf compact
  (secretKeyPattern.isMatch trimmed
      || compact = "response".toList || compact = "completion".toList
      || compact = "rawresponse".toList
      || ends "prompt" || ends "response" || ends "responsebody" || ends "providerenvelope"
      || ends "url")
    && !(("tokens".toList.isSuffixOf lower || lower = "tokenstotal".toList
      || lower = "ratepertoken".toList) && isNumber value)

namespace Redactor

variable (r : Redactor)

mutual

/-- **`Value`.** Keys stay as they are; they decide what becomes of their
values. -/
def value : Json → Json
  | .obj fields => .obj (valueFields fields)
  | .arr items => .arr (valueItems items)
  | .str s => .str (r.text s)
  | v => v

def valueItems : List Json → List Json
  | [] => []
  | v :: rest => value v :: valueItems rest

def valueFields : List (String × Json) → List (String × Json)
  | [] => []
  | (key, v) :: rest =>
    (key, if isSecretKey key v then .str (String.ofList replacement) else value v)
      :: valueFields rest

end

/-- The document `JSON` reads: one value and nothing after it. -/
def input? (input : String) : Option Json :=
  match Json.decode input with
  | some (v, rest) => if Json.skip rest = [] then some v.decoded else none
  | none => none

/-- The document `JSON` writes. -/
def document (input : String) : Json :=
  match input? input with
  | some v => (r.value v).sorted
  | none => .obj [("rawText", .str (r.text input))]

/-- **`JSON`.** -/
def json (input : String) : String := (r.document input).encode

end Redactor

end HardenLlm.Redaction
