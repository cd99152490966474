import HardenLlm.Common.Cipher
import HardenLlm.Common.System
import HardenLlm.Stateful.Model.Profiles
/-!
# The credential vault

`credential.go`: an entered credential is sealed with the scope, the
identifier and the origin it is for as additional data. Keys are given as
bytes, and so are nonces and ciphertexts, which the source keeps in base64.
-/

namespace HardenLlm.Stateful

open Bindings
open HardenLlm.Runtime (trimSpace)

/-! ## Payloads -/

def validCredentialHeaderName (s : String) : Bool :=
  s ≠ "" && s.utf8ByteSize ≤ 128
    && s.toList.all fun c => c.isAlphanum || c ∈ "!#$%&'*+-.^_`|~".toList

def validCredentialHeaderValue (s : String) : Bool :=
  s.utf8ByteSize ≤ 8192 && s.toList.all fun c => c = '\t' || (0x20 ≤ c.toNat && c.toNat ≠ 0x7f)

/-- A line break or a zero. -/
def breaksLine (s : String) : Bool := s.toList.any fun c => c = '\r' || c = '\n' || c.toNat = 0

def validateCredentialPayload (p : CredentialPayload) : Bool :=
  trimSpace p.apiKey ≠ "" && trimSpace p.apiKey = p.apiKey && p.apiKey.utf8ByteSize ≤ 16 * 1024
    && !breaksLine p.apiKey && p.headers.entries.length ≤ 64
    && p.headers.entries.all (fun e =>
      validCredentialHeaderName e.1 && validCredentialHeaderValue e.2)
    -- Names that differ in case only are ambiguous.
    && (p.headers.entries.map fun e => e.1.toList.map Char.toLower).Nodup

/-- What is encrypted; headers are left out when there are none. -/
def payloadFields (p : CredentialPayload) : List (String × Json) :=
  ("apiKey", .str p.apiKey)
    :: if p.headers.entries = [] then []
      else [("headers", .obj (mapValues Json.str (sortByKey p.headers.entries)))]

def payloadDocument (p : CredentialPayload) : Json := .obj (payloadFields p)

/-- The decoder compares names without regard to case; two letters beyond
ASCII fold to it. -/
def foldName (s : String) : List Char :=
  s.toList.map fun c => if c.toNat = 0x17f then 'S' else if c.toNat = 0x212a then 'K' else c.toUpper

/-- A map of texts is decoded. -/
def decodeHeaders (m : Dict String String) : List (String × Json) → Option (Dict String String)
  | [] => some m
  | (key, .str s) :: rest => decodeHeaders (m.put key s) rest
  | (key, .null) :: rest => decodeHeaders (m.put key "") rest
  | _ => none

/-- One field of a payload is decoded, if it has this name. -/
def decodePayloadField (p : CredentialPayload) (key : String) (v : Json) : Option CredentialPayload :=
  if foldName key = foldName "apiKey" then
    match v with
    | .str s => some { p with apiKey := s }
    | .null => some p
    | _ => none
  else if foldName key = foldName "headers" then
    match v with
    | .obj fields => (decodeHeaders p.headers fields).map fun headers => { p with headers := headers }
    | .null => some { p with headers := .empty }
    | _ => none
  else none

def decodePayloadFields (p : CredentialPayload) : List (String × Json) → Option CredentialPayload
  | [] => some p
  | (key, v) :: rest => (decodePayloadField p key v).bind fun p => decodePayloadFields p rest

/-- The payload that a plaintext holds, and nothing after it. -/
def readPayload (plaintext : ByteArray) : Option CredentialPayload := do
  let text ← String.fromUTF8? plaintext
  let (v, rest) ← Json.decode text
  let payload ← match v with
    | .obj fields => decodePayloadFields ⟨"", .empty⟩ fields
    | .null => some ⟨"", .empty⟩
    | _ => none
  if validateCredentialPayload payload && rest.all Json.isBlank then some payload else none

/-! ## Sealing and opening -/

/-- `credentialAAD`. -/
def credentialAAD (b : CredentialBinding) (keyID : String) : ByteArray :=
  (Json.obj [("schemaVersion", .num "1"), ("algorithm", .str "AES-256-GCM"), ("keyId", .str keyID),
    ("apiKeyHash", .str b.apiKeyHash), ("credentialId", .str b.credentialID),
    ("origin", .str b.origin)]).encode.toUTF8

variable {A : Type} (d : Deployment A) (cipher : Cipher) (key : ByteArray)

/-- **`Seal`**, with the nonce that was drawn. -/
def sealCredential (payload : CredentialPayload) (binding : CredentialBinding) (nonce : ByteArray) :
    Option EncryptedCredential := do
  let binding ← normalizeCredentialBinding d binding
  if validateCredentialPayload payload && nonce.size = cipher.nonceSize then
    some ⟨"primary", nonce,
      cipher.seals key nonce (payloadDocument payload).encode.toUTF8 (credentialAAD binding "primary")⟩
  else none

/-- **`Open`.** -/
def openCredential (e : EncryptedCredential) (binding : CredentialBinding) :
    Option CredentialPayload :=
  if e.keyID ≠ "primary" then none
  else if e.nonce.size ≠ cipher.nonceSize || e.ciphertext.size < cipher.overhead then none
  else do
    let binding ← normalizeCredentialBinding d binding
    let plaintext ← cipher.opens key e.nonce e.ciphertext (credentialAAD binding e.keyID)
    readPayload plaintext

/-- The vault of a deployment. -/
def credentialVault : Vault where
  seals := sealCredential d cipher key
  opens := openCredential d cipher key

/-! ## Custody -/

/-- What was sealed: a payload, what it is for, and the result. -/
structure Sealed where
  payload : CredentialPayload
  binding : CredentialBinding
  encrypted : EncryptedCredential

/-- The encrypted columns of a row. -/
def CredentialRow.encrypted (r : CredentialRow) : EncryptedCredential := ⟨r.keyID, r.nonce, r.ciphertext⟩

/-- What an attacker puts in the place of a row's encrypted columns. -/
def pasteCredential (e : EncryptedCredential) : Table.Assignment (schema.key .credentials) where
  val := fun (r : CredentialRow) =>
    { r with keyID := e.keyID, nonce := e.nonce, ciphertext := e.ciphertext }
  property := fun _ => rfl

/-- **The stored credentials**, and everything that was ever sealed. -/
structure Custody where
  db : Database
  log : List Sealed := []

inductive CustodyEvent (A : Type)
  /-- A profile is saved, perhaps with a credential, new or rotated. -/
  | save (hash : String) (input : SaveProfileInput) (w : Saving A)
  | delete (hash id : String) (now : ℤ)
  | replace (hash data : String) (w : Replacing A)
  /-- An attacker writes to the encrypted columns of a row. -/
  | paste (hash id : String) (e : EncryptedCredential)

namespace Custody

variable (s : Custody)

/-- It is among what was sealed. -/
def Has (e : EncryptedCredential) : Prop := ∃ x ∈ s.log, x.encrypted = e

/-- What a save seals. -/
def sealing (hash : String) (input : SaveProfileInput) (nonce : ByteArray) : List Sealed :=
  match checkScope hash, d.validateSnapshot input with
  | .ok _, .ok input =>
    match sealedCandidate d hash input nonce, input.credential with
    | .ok (some record), some entered => [⟨entered.payload, record.binding, record.encrypted⟩]
    | _, _ => []
  | _, _ => []

/-- What may happen. Nobody else has the key: what a bundle brings along, or
an attacker puts together from columns that were copied, either was sealed
before or does not open. -/
def Allows : CustodyEvent A → Prop
  | .replace hash data _ => ∀ bundle, readBundle d hash data = .ok bundle →
      ∀ c ∈ bundle.credentials, ∀ record, bundleCredentialRecord d hash c = .ok record →
        openCredential d cipher key record.encrypted record.binding ≠ none → s.Has record.encrypted
  | .paste _ _ e => ∀ b, openCredential d cipher key e b ≠ none → s.Has e
  | _ => True

def next : CustodyEvent A → Custody
  | .save hash input w =>
    ⟨((saveProfile d hash input w).exec s.db).2, sealing d hash input w.nonce ++ s.log⟩
  | .delete hash id now => { s with db := ((deleteProfile d hash id now).exec s.db).2 }
  | .replace hash data w => { s with db := ((replaceBundle d hash data w).exec s.db).2 }
  | .paste hash id e =>
    let pasted : Action ℕ := schema.updateIn .credentials
      (fun (r : CredentialRow) => r.hash = hash && r.id = id) (pasteCredential e)
    { s with db := (pasted.exec s.db).2 }

end Custody

/-- **Custody as a system**, from a database without credentials. -/
def custody : System Custody where
  init s := s.log = [] ∧ (s.db .credentials).rows = []
  step s s' := ∃ e, s.Allows d cipher key e ∧ s' = s.next d e

end HardenLlm.Stateful
