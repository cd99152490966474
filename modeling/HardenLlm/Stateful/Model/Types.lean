import HardenLlm.Cachekey.Model
import HardenLlm.Client.Model.Cache
import HardenLlm.Common.Scope
import HardenLlm.Gateway.Model.Tracking
/-!
# The reference service

The data of the `stateful` package: profiles and the credentials they are
bound to, drafts, cached results, recorded runs and tracked requests, the
tables of `schema.sql` and `request_tracking_schema.sql` that hold them,
and the deployment a service is started with. Every row belongs to the
hash of an access key.

What the service computes without a look at the database is part of the
deployment: the checks of definitions and snapshots, the vault, the parsers
of addresses and identifiers, the codecs. So is what the database does with
a single row, its `CHECK` constraints.
-/

namespace HardenLlm.Stateful

open Bindings
open HardenLlm.Client (CacheRecord)
open HardenLlm.Runtime (Ledger Accounting Pricing)

variable {A : Type}

/-! ## Errors -/

structure FieldError where
  field : String
  message : String
  deriving DecidableEq, Repr

/-- **An error of the service.** An error of the database or of another
package is `plain`. -/
inductive Failure
  | operation (code message : String) (currentRevision : Option ℤ := none)
  | validation (code : String) (fieldErrors : List FieldError)
  | plain (text : String)
  deriving DecidableEq, Repr

def validationFailure (field message : String) : Failure :=
  .validation "profile_invalid" [⟨field, message⟩]

/-- `storageFailure`: an error that is not the service's own is hidden. -/
def storageFailure : Failure → Failure
  | .plain _ =>
    .operation "storage_unavailable"
      "Reference PostgreSQL operation failed; inspect correlated service diagnostics."
  | e => e

/-- A lower-case hexadecimal SHA-256 digest. -/
def validKeyHash (value : String) : Bool :=
  value.toList.length = 64
    && value.toList.all fun c => ('0' ≤ c && c ≤ '9') || ('a' ≤ c && c ≤ 'f')

/-- `checkScope`. -/
def checkScope (hash : String) : Except Failure Unit :=
  if validKeyHash hash then .ok ()
  else .error (.operation "invalid_api_key" "An authenticated access-key scope is required.")

/-! ## Connections and credentials -/

/-- A connection of the Go client, with its credential. -/
structure Connection (A : Type) where
  id : String
  provider : String
  protocol : String
  baseURL : String
  cacheDomain : String := ""
  apiKey : String := ""
  headers : Dict String String := .empty
  supportsWebSearch : Bool := false
  pricing : Option (Pricing A) := none

structure CredentialPayload where
  apiKey : String
  headers : Dict String String

structure CredentialBinding where
  apiKeyHash : String
  credentialID : String
  origin : String
  deriving DecidableEq, Repr

structure EncryptedCredential where
  keyID : String
  nonce : ByteArray
  ciphertext : ByteArray

instance : DecidableEq EncryptedCredential := fun a b =>
  decidable_of_iff (a.keyID = b.keyID ∧ a.nonce.data = b.nonce.data
    ∧ a.ciphertext.data = b.ciphertext.data) (by cases a; cases b; simp [ByteArray.ext_iff])

structure CredentialRecord where
  binding : CredentialBinding
  encrypted : EncryptedCredential
  revision : ℤ

/-- **The vault**: AES-GCM with the binding as additional data. Sealing
takes the nonce that was drawn. -/
structure Vault where
  seals : CredentialPayload → CredentialBinding → ByteArray → Option EncryptedCredential
  opens : EncryptedCredential → CredentialBinding → Option CredentialPayload

/-! ## Profiles -/

inductive BindingSource
  | deployment
  | entered
  | other (text : String)
  deriving DecidableEq, Repr

structure ProfileCredentialBinding where
  source : BindingSource
  deploymentUpstreamID : String := ""
  enteredCredentialID : String := ""
  deriving DecidableEq, Repr

structure Preset where
  name : String
  definition : Json
  inputs : Json
  binding : ProfileCredentialBinding

/-- A parsed definition; `rest` is what only the request options are made
from. -/
structure Profile (A : Type) where
  provider : String
  apiInferenceType : String
  baseURL : String
  modelID : String
  pricing : Option (Pricing A)
  supportsWebSearch : Option Bool
  rest : Json

structure CredentialStatus where
  configured : Bool
  source : BindingSource
  id : String
  revision : ℤ
  message : String := ""
  deriving DecidableEq, Repr

structure ProfileView where
  id : String
  name : String
  saved : Bool
  presetID : String := ""
  createdAt : Option ℤ := none
  definition : Json
  credentialStatus : CredentialStatus

structure ProfileDraft where
  sourceProfileID : String := ""
  presetID : String := ""
  definition : Json
  inputs : Json
  binding : ProfileCredentialBinding
  credentialStatus : CredentialStatus

/-- **A profile with the connection it is executed on.** -/
structure ResolvedProfile (A : Type) extends ProfileDraft where
  connection : Connection A
  credentialRevision : ℤ

structure EnteredCredentialInput where
  id : String := ""
  revision : ℤ
  origin : String
  payload : CredentialPayload

structure SaveProfileInput where
  name : String := ""
  presetID : String := ""
  definition : Json
  inputs : Json
  binding : ProfileCredentialBinding
  credential : Option EnteredCredentialInput := none

structure BundleProfile where
  profile : ProfileView
  inputs : Json
  binding : ProfileCredentialBinding

/-- A credential as it is exported: its bytes in base64. -/
structure BundleCredential where
  id : String
  origin : String
  keyID : String
  nonce : String
  ciphertext : String
  revision : ℤ

structure ProfileBundle where
  schemaVersion : ℤ
  bundleID : String
  createdAt : Option ℤ
  apiKeyHash : String
  profiles : List BundleProfile
  hiddenPresets : List String
  credentials : List BundleCredential

/-! ## Drafts and recorded runs -/

structure Draft where
  draftKey : String
  revision : ℤ := 0
  payload : Json := .obj []

structure SaveDraftInput where
  revision : ℤ
  payload : Json

structure HistorySummary where
  runID : String
  profileID : String
  modelID : String
  status : String
  startedAt : ℤ
  finishedAt : ℤ
  cacheServed : Bool
  rest : Json

structure StoredHistorySummary (A : Type) where
  summary : HistorySummary
  accounting : Accounting A
  error : Option Json

structure HistoryRecord where
  schemaVersion : ℤ
  runID : String
  status : String
  startedAt : ℤ
  finishedAt : ℤ
  summary : HistorySummary
  request : Json
  result : Json
  error : Option Json

structure HistoryQuery where
  «from» : Option ℤ := none
  before : Option ℤ := none
  page : ℤ := 0
  pageSize : ℤ := 0

/-! ## Runs -/

/-- A target of a recovery policy, as the service reads it. -/
structure RecoveryTarget where
  source : String
  profileID : String := ""
  modelID : String := ""
  reasoningEffort : String := ""
  providerOptions : Json := .null
  upstream : String := ""

/-- A target as the core reads it. -/
inductive CoreTarget
  | unchanged (data : Json)
  | model (connectionID modelID reasoningEffort : String) (providerOptions : Json)

/-- **A recovery policy**: its five places for a target, where there is
one, and the rest. -/
structure PolicyDocument where
  repairInitial : Option Json := none
  repairEscalation : Option Json := none
  rerunTarget : Option Json := none
  rerunRepairInitial : Option Json := none
  rerunRepairEscalation : Option Json := none
  rest : Json

structure RunInput where
  profileID : String
  modelID : String := ""
  reasoningEffort : String := ""
  recoveryPolicy : Json
  cacheVersion : String := ""
  /-- The fields that the request is made from. -/
  rest : Json

/-! ## Tables -/

inductive TableName
  | credentials
  | profiles
  | hiddenPresets
  | drafts
  | cacheEntries
  | history
  | requestTracking
  deriving DecidableEq, Repr

structure CredentialRow where
  hash : String
  id : String
  origin : String
  keyID : String
  nonce : ByteArray
  ciphertext : ByteArray
  revision : ℤ
  createdAt : ℤ
  updatedAt : ℤ

structure ProfileRow where
  hash : String
  id : String
  name : String
  presetID : Option String
  definition : Json
  inputs : Json
  credentialSource : BindingSource
  deploymentUpstreamID : Option String
  enteredCredentialID : Option String
  createdAt : ℤ

structure HiddenPresetRow where
  hash : String
  presetID : String
  createdAt : ℤ

structure DraftRow where
  hash : String
  draftKey : String
  revision : ℤ
  payload : Json
  updatedAt : ℤ
  expiresAt : ℤ

/-- A cached result; the source keeps the record as JSON. -/
structure CacheRow where
  hash : String
  «namespace» : String
  operationHash : String
  record : CacheRecord
  expiresAt : ℤ

structure HistoryRow where
  hash : String
  runID : String
  schemaVersion : ℤ
  status : String
  startedAt : ℤ
  finishedAt : ℤ
  summary : Json
  request : Json
  result : Json

structure TrackingRow where
  hash : String
  record : Gateway.TrackingRecord

/-- **The reference schema.** Each primary key begins with the hash. -/
def schema : Schema String where
  Name := TableName
  Row
    | .credentials => CredentialRow
    | .profiles => ProfileRow
    | .hiddenPresets => HiddenPresetRow
    | .drafts => DraftRow
    | .cacheEntries => CacheRow
    | .history => HistoryRow
    | .requestTracking => TrackingRow
  Id
    | .cacheEntries => String ×ₗ String
    | _ => String
  key
    | .credentials, r => (CredentialRow.hash r, CredentialRow.id r)
    | .profiles, r => (ProfileRow.hash r, ProfileRow.id r)
    | .hiddenPresets, r => (HiddenPresetRow.hash r, HiddenPresetRow.presetID r)
    | .drafts, r => (DraftRow.hash r, DraftRow.draftKey r)
    | .cacheEntries, r => (CacheRow.hash r, toLex (CacheRow.namespace r, CacheRow.operationHash r))
    | .history, r => (HistoryRow.hash r, HistoryRow.runID r)
    | .requestTracking, r => (TrackingRow.hash r, (TrackingRow.record r).id)

instance : DecidableEq schema.Name := inferInstanceAs (DecidableEq TableName)

instance (n : schema.Name) : LinearOrder (schema.Id n) :=
  match n with
  | .cacheEntries => inferInstanceAs (LinearOrder (String ×ₗ String))
  | .credentials | .profiles | .hiddenPresets | .drafts | .history | .requestTracking =>
    inferInstanceAs (LinearOrder String)

abbrev Database := schema.Store

/-- **What a service does to its database.** -/
abbrev Action (α : Type) := Op Database Failure α

/-- `withStorageTx` and `storageFailure`. -/
def stored {α : Type} (x : Action α) : Action α := x.atomically.mapError storageFailure

/-! ## The deployment -/

/-- A URL as `net/url` reads it; a port has digits only. -/
structure ParsedURL where
  scheme : String
  opaqueData : String := ""
  hasUser : Bool := false
  host : String
  hostname : String
  port : String := ""
  path : String := ""
  rawQuery : String := ""
  fragment : String := ""

/-- **What a service is started with**, and what it computes without the
database. -/
structure Deployment (A : Type) where
  presets : Dict String Preset
  /-- The upstreams of the deployment, with their credentials. -/
  connections : Dict String (Connection A)
  vault : Option Vault
  historyEnabled : Bool
  cacheTTL : ℤ
  /-- The `CHECK` constraints, on single rows. -/
  check : (n : TableName) → schema.Row n → Bool
  parseDefinition : Json → Except Failure (Profile A)
  validateSnapshot : SaveProfileInput → Except Failure SaveProfileInput
  /-- `snapshotRecord`: the checked input, the identifier and the name. -/
  snapshot : SaveProfileInput → ℤ → String → Except Failure (SaveProfileInput × String × String)
  validateProfileName : String → Bool
  parseUUID : String → Bool
  /-- `url.Parse`. -/
  parseURL : String → Option ParsedURL
  /-- `strings.ToLower`. -/
  toLower : String → String
  encodeBase64 : ByteArray → String
  decodeBase64 : String → Option ByteArray
  encodeBundle : ProfileBundle → String
  decodeBundle : String → Option ProfileBundle
  /-- `unsafePersistedField`: names that a draft may not hold. -/
  unsafePersistedField : Json → Bool
  decodeSummary : Json → Option (StoredHistorySummary A)
  encodeSummary : StoredHistorySummary A → Json
  validatedHistoryAccounting : HistoryRecord → Except Failure (Accounting A)
  /-- The order in which rows come when none is asked for. -/
  scan : List HistoryRow → List HistoryRow
  decodePolicy : Json → Except Failure PolicyDocument
  decodeTarget : Json → Option RecoveryTarget
  /-- The core's recovery policy, checked, from the targets that were
  rewritten. -/
  corePolicy : PolicyDocument → List CoreTarget → Except Failure Json
  /-- The request that is made from a run's input, the policy and the
  resolved profiles. -/
  request : RunInput → Json → Dict String (ResolvedProfile A) → Except Failure Json

variable (d : Deployment A)

/-- An `INSERT` that a constraint may refuse. -/
def insertRow (n : schema.Name) (r : schema.Row n) : Action Unit := do
  .ensure (d.check n r = true) (.plain "check constraint")
  let added ← schema.insertInto n r
  .ensure (added = true) (.plain "unique constraint")

end HardenLlm.Stateful
