import HardenLlm.Common.Json.Nesting
import HardenLlm.Common.Json.Numerals
import HardenLlm.Common.Transaction
import HardenLlm.Runtime.Model.Accounting
/-!
# Operation keys

`internal/cachekey`: an operation is checked and normalised, encoded with
its cache version as canonical JSON, and the text is hashed. Values are
those of Go's `any`, as far as they can be told apart by reflection; the
case mapping of letters is a parameter.
-/

namespace HardenLlm.Cachekey

open Bindings

/-! ## Values -/

/-- The literal of a number. -/
def NumberLiteral := { literal : String // Json.isNumber literal.toList = true }

/-- A field of a struct, in Go and in JSON. -/
structure FieldName where
  go : String
  json : String
  deriving DecidableEq, Repr

/-- **A value of type `any`.** A nil pointer, slice or map is `nil`. A
floating-point number stands for the literal it is written as, if it is
finite; a raw message for the document it holds, if it is one. Slices and
maps that several references share have an identity. Of a struct only the
fields are kept that are encoded. -/
inductive GoValue
  | nil
  | bool (b : Bool)
  | int (n : ℤ)
  | float (literal : Option NumberLiteral)
  | string (s : String)
  /-- A `json.Number`. -/
  | number (literal : String)
  /-- A byte slice, by its base64 text. -/
  | bytes (base64 : String)
  /-- A `json.RawMessage`. -/
  | raw (document : Option Json)
  | pointer (v : GoValue)
  | slice (id : Option ℕ) (items : List GoValue)
  | array (items : List GoValue)
  | map (id : Option ℕ) (entries : List (String × GoValue))
  /-- A map whose keys are not strings. -/
  | keyed
  | struct (fields : List (FieldName × GoValue))
  /-- A value of any other kind. -/
  | other (kind : String)

/-- What a check finds. -/
inductive Problem
  | nonFinite
  | cycle
  | stringKeys
  | unsupported (kind : String)
  deriving DecidableEq, Repr

inductive KeyError
  | schemaVersion (version : String)
  | incomplete
  | credentialHeader (header : String)
  | unsafeValue (path : String) (problem : Problem)
  | encoding
  | decoding
  deriving DecidableEq, Repr

/-! ## Checks -/

mutual

/-- **`validateReflect`**, with the references on the path. -/
def validateReflect (path : String) (seen : List ℕ) : GoValue → Except KeyError Unit
  | .nil | .bool _ | .int _ | .string _ | .number _ | .bytes _ | .raw _ | .float (some _) => .ok ()
  | .float none => .error (.unsafeValue path .nonFinite)
  | .pointer v => validateReflect path seen v
  | .slice id items =>
    if id.any (· ∈ seen) then .error (.unsafeValue path .cycle)
    else validateItems path (id.toList ++ seen) 0 items
  | .array items => validateItems path seen 0 items
  | .map id entries =>
    if id.any (· ∈ seen) then .error (.unsafeValue path .cycle)
    else validateEntries path (id.toList ++ seen) entries
  | .keyed => .error (.unsafeValue path .stringKeys)
  | .struct fields => validateFields path seen fields
  | .other kind => .error (.unsafeValue path (.unsupported kind))

def validateItems (path : String) (seen : List ℕ) (index : ℕ) :
    List GoValue → Except KeyError Unit
  | [] => .ok ()
  | v :: rest => do
    validateReflect (path ++ "[" ++ toString index ++ "]") seen v
    validateItems path seen (index + 1) rest

def validateEntries (path : String) (seen : List ℕ) :
    List (String × GoValue) → Except KeyError Unit
  | [] => .ok ()
  | (key, v) :: rest => do
    validateReflect (path ++ "." ++ key) seen v
    validateEntries path seen rest

def validateFields (path : String) (seen : List ℕ) :
    List (FieldName × GoValue) → Except KeyError Unit
  | [] => .ok ()
  | (name, v) :: rest => do
    validateReflect (path ++ "." ++ name.go) seen v
    validateFields path seen rest

end

def validateJSONSafe (v : GoValue) (path : String) : Except KeyError Unit :=
  validateReflect path [] v

/-! ## Encoding -/

mutual

/-- **`json.Marshal`**, as a document: maps are written in the order of
their keys. -/
def marshal : GoValue → Except KeyError Json
  | .nil => .ok .null
  | .bool b => .ok (.bool b)
  | .int n => .ok (.int n)
  | .float (some literal) => .ok (.num literal.1)
  | .string s => .ok (.str s)
  | .number literal =>
    if literal = "" then .ok (.num "0")
    else if Json.isNumber literal.toList then .ok (.num literal) else .error .encoding
  | .bytes base64 => .ok (.str base64)
  | .raw (some document) => if document.numeric then .ok document else .error .encoding
  | .pointer v => marshal v
  | .slice _ items | .array items => (marshalItems items).map .arr
  | .map _ entries => (marshalEntries entries).map fun fields => .obj (sortByKey fields)
  | .struct fields => (marshalFields fields).map .obj
  | .float none | .raw none | .keyed | .other _ => .error .encoding

def marshalItems : List GoValue → Except KeyError (List Json)
  | [] => .ok []
  | v :: rest => do return (← marshal v) :: (← marshalItems rest)

def marshalEntries : List (String × GoValue) → Except KeyError (List (String × Json))
  | [] => .ok []
  | (key, v) :: rest => do return (key, ← marshal v) :: (← marshalEntries rest)

def marshalFields : List (FieldName × GoValue) → Except KeyError (List (String × Json))
  | [] => .ok []
  | (name, v) :: rest => do return (name.json, ← marshal v) :: (← marshalFields rest)

end

mutual

/-- **`writeCanonical`** on a decoded value, whose objects are maps. -/
def writeCanonical : Json → String
  | .null => "null"
  | .bool b => if b then "true" else "false"
  | .num literal => literal
  | .str s => Json.quote s
  | .arr items => "[" ++ String.intercalate "," (writeItems items) ++ "]"
  | .obj fields =>
    "\x7b" ++ String.intercalate ","
      ((sortByKey (writeValues fields)).map fun e => Json.quote e.1 ++ ":" ++ e.2) ++ "\x7d"

def writeItems : List Json → List String
  | [] => []
  | v :: rest => writeCanonical v :: writeItems rest

/-- The keys of a map with the texts of their values. -/
def writeValues : List (String × Json) → List (String × String)
  | [] => []
  | (key, v) :: rest => (key, writeCanonical v) :: writeValues rest

end

/-- **`StableJSON`.** -/
def stableJSON (v : GoValue) : Except KeyError String := do
  validateJSONSafe v "$"
  let document ← marshal v
  match Json.decode document.encode with
  | none => .error .decoding
  | some (generic, _) => .ok (writeCanonical generic)

/-! ## Operations -/

structure Endpoint where
  identity : String
  method : String
  path : String
  deriving DecidableEq, Repr

structure ResponseProjection where
  provider : String
  kind : String
  version : String
  deriving DecidableEq, Repr

/-- The entries of a map, and its identity. -/
structure GoMap where
  id : Option ℕ := none
  entries : List (String × GoValue)

/-- **A prepared request, as the cache sees it.** -/
structure Operation where
  schemaVersion : String
  cacheDomain : String := ""
  protocol : String
  endpoint : Endpoint
  model : String
  payload : GoValue
  semanticHeaders : Option GoMap := none
  responseProjection : ResponseProjection

def operationSchemaVersion : String := "utility-llm.operation.v1"

def defaultVersion : String := "operation-v2"

/-- A letter in a pattern that ignores case; two letters outside ASCII
fold to ASCII ones. -/
def folds (letter c : Char) : Bool :=
  c.toLower = letter || (letter = 'k' && c.toNat = 0x212A) || (letter = 's' && c.toNat = 0x17F)

/-- The words that a header's name may not contain. -/
def forbiddenWords : List String :=
  ["authorization", "apikey", "api-key", "api_key", "secret", "token", "password", "credential",
    "cf-access-client-secret"]

def isSeparator (c : Char) : Bool := c = '-' || c = '_'

/-- The word stands here, up to a separator or the end. -/
def startsWithWord (word cs : List Char) : Bool :=
  word.length ≤ cs.length && (word.zip cs).all (fun e => folds e.1 e.2)
    && ((cs.drop word.length).head?.all isSeparator)

/-- A forbidden word behind a separator, or here. -/
def forbiddenFrom (here : Bool) : List Char → Bool
  | [] => here && forbiddenWords.any fun word => startsWithWord word.toList []
  | c :: rest =>
    (here && forbiddenWords.any fun word => startsWithWord word.toList (c :: rest))
      || forbiddenFrom (isSeparator c) rest

def forbiddenSemanticHeader (header : String) : Bool := forbiddenFrom true header.toList

variable (toUpper : String → String)

open HardenLlm.Runtime (trimSpace)

/-- The fields without the space around them, and the method in upper
case. -/
def Operation.trimmed (o : Operation) : Operation where
  schemaVersion := operationSchemaVersion
  cacheDomain := trimSpace o.cacheDomain
  protocol := trimSpace o.protocol
  endpoint :=
    { identity := trimSpace o.endpoint.identity
      method := toUpper (trimSpace o.endpoint.method)
      path := trimSpace o.endpoint.path }
  model := trimSpace o.model
  payload := o.payload
  semanticHeaders := some (o.semanticHeaders.getD { entries := [] })
  responseProjection :=
    { provider := trimSpace o.responseProjection.provider
      kind := trimSpace o.responseProjection.kind
      version := trimSpace o.responseProjection.version }

/-- The fields that may not be empty. -/
def Operation.required (o : Operation) : List String :=
  [o.protocol, o.endpoint.identity, o.endpoint.method, o.endpoint.path, o.model,
    o.responseProjection.provider, o.responseProjection.kind, o.responseProjection.version]

def Operation.headers (o : Operation) : GoMap := o.semanticHeaders.getD { entries := [] }

/-- The first header, in the order of the map, that may hold a
credential. -/
def rejectHeader (entries : List (String × GoValue)) : Except KeyError Unit :=
  match entries.find? fun e => forbiddenSemanticHeader e.1 with
  | some e => .error (.credentialHeader e.1)
  | none => .ok ()

/-- **`Normalize`.** -/
def normalize (o : Operation) : Except KeyError Operation := do
  require (trimSpace o.schemaVersion = operationSchemaVersion) (.schemaVersion o.schemaVersion)
  let normalized := o.trimmed toUpper
  require ("" ∉ normalized.required) .incomplete
  rejectHeader normalized.headers.entries
  validateJSONSafe normalized.payload "operation.payload"
  validateJSONSafe (.map normalized.headers.id normalized.headers.entries)
    "operation.semanticHeaders"
  return normalized

/-- An operation as a struct; an empty cache domain is left out. -/
def Operation.value (o : Operation) : GoValue :=
  let field (go json : String) (v : GoValue) : FieldName × GoValue := (⟨go, json⟩, v)
  .struct <|
    [field "SchemaVersion" "schemaVersion" (.string o.schemaVersion)]
    ++ (if o.cacheDomain = "" then []
      else [field "CacheDomain" "cacheDomain" (.string o.cacheDomain)])
    ++ [field "Protocol" "protocol" (.string o.protocol),
      field "Endpoint" "endpoint" (.struct
        [field "Identity" "identity" (.string o.endpoint.identity),
          field "Method" "method" (.string o.endpoint.method),
          field "Path" "path" (.string o.endpoint.path)]),
      field "Model" "model" (.string o.model),
      field "Payload" "payload" o.payload,
      field "SemanticHeaders" "semanticHeaders"
        (match o.semanticHeaders with
          | none => .nil
          | some headers => .map headers.id headers.entries),
      field "ResponseProjection" "responseProjection" (.struct
        [field "Provider" "provider" (.string o.responseProjection.provider),
          field "Kind" "kind" (.string o.responseProjection.kind),
          field "Version" "version" (.string o.responseProjection.version)])]

/-- The cache version that is hashed. -/
def effectiveVersion (version : String) : String :=
  if trimSpace version = "" then defaultVersion else trimSpace version

/-- The bytes that `Hash` hashes. -/
def hashInput (o : Operation) (cacheVersion : String) : Except KeyError ByteArray := do
  let normalized ← normalize toUpper o
  let text ← stableJSON (.map none
    [("operation", normalized.value), ("cacheVersion", .string (effectiveVersion cacheVersion))])
  return text.toUTF8

/-- **`Hash`**, over a digest with its hexadecimal text. -/
def hash (sha256 : ByteArray → String) (o : Operation) (cacheVersion : String) :
    Except KeyError String :=
  (hashInput toUpper o cacheVersion).map sha256

end HardenLlm.Cachekey
