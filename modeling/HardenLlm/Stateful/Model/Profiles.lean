import HardenLlm.Stateful.Model.Types
/-!
# Profiles

`profile_store.go` and `bundle.go`: what a scope sees of presets and of its
own profiles, how a profile becomes a connection, and how profiles and
credentials are saved, deleted, exported and replaced. Each statement is
written with its own `WHERE` clause.

The probe of a connection, the clock and the random source answer as they
are given. Nonces and ciphertexts are kept as bytes where the source keeps
their base64.
-/

namespace HardenLlm.Stateful

open Bindings
open HardenLlm.Runtime (trimSpace)

variable {A : Type} (d : Deployment A)

/-! ## Views -/

/-- `bindingStatus`. -/
def bindingStatus (binding : ProfileCredentialBinding) (revision : ℤ) : CredentialStatus :=
  let message := "Select or supply an explicitly configured provider credential."
  if binding.source = .deployment then
    let configured := (d.connections.get? binding.deploymentUpstreamID).any (·.apiKey ≠ "")
    { configured, source := binding.source, id := binding.deploymentUpstreamID, revision
      message := if configured then "" else message }
  else
    let configured := 0 < revision && d.vault.isSome
    { configured, source := binding.source, id := binding.enteredCredentialID, revision
      message := if configured then "" else message }

/-- Go's zero value. -/
def unknownStatus : CredentialStatus := ⟨false, .other "", "", 0, ""⟩

def presetDraft (id : String) (p : Preset) : ProfileDraft where
  sourceProfileID := id
  presetID := id
  definition := p.definition
  inputs := p.inputs
  binding := p.binding
  credentialStatus := { unknownStatus with source := p.binding.source }

/-- The presets that are not hidden, in the order of their names. -/
def presetViews (hidden : List String) : List ProfileView :=
  ((sortByKey d.presets.entries).filter fun e => e.1 ∉ hidden).map fun e =>
    { id := e.1, name := e.2.name, saved := false, definition := e.2.definition
      credentialStatus := bindingStatus d e.2.binding 0 }

/-- The binding of a stored profile. -/
def ProfileRow.binding (r : ProfileRow) : ProfileCredentialBinding where
  source := r.credentialSource
  deploymentUpstreamID := r.deploymentUpstreamID.getD ""
  enteredCredentialID := r.enteredCredentialID.getD ""

/-- `LEFT JOIN credentials c ON c.api_key_hash=p.api_key_hash AND
c.id=p.entered_credential_id`, and the revision there. -/
def joinedRevision (p : ProfileRow) : Action ℤ := do
  let rows : List CredentialRow ← schema.selectFrom .credentials
    fun (c : CredentialRow) => c.hash = p.hash && p.enteredCredentialID = some c.id
  return (rows.head?.map (·.revision)).getD 0

def profileView (r : ProfileRow) (status : CredentialStatus) : ProfileView where
  id := r.id
  name := r.name
  saved := true
  presetID := r.presetID.getD ""
  createdAt := some r.createdAt
  definition := r.definition
  credentialStatus := status

/-- The views of stored profiles, one after the other. -/
def profileViews : List ProfileRow → Action (List ProfileView)
  | [] => return []
  | r :: rest => do
    let revision ← joinedRevision r
    let views ← profileViews rest
    return profileView r (bindingStatus d r.binding revision) :: views

/-- `ORDER BY created_at DESC, id DESC`. -/
def newestFirst (rows : List ProfileRow) : List ProfileRow :=
  rows.insertionSort fun a b => b.createdAt < a.createdAt ∨ (b.createdAt = a.createdAt ∧ b.id ≤ a.id)

/-- `listProfilesTx`. -/
def listProfilesTx (hash : String) : Action (List ProfileView) := do
  let hidden : List HiddenPresetRow ← schema.selectFrom .hiddenPresets
    fun (r : HiddenPresetRow) => r.hash = hash
  let rows : List ProfileRow ← schema.selectFrom .profiles fun (r : ProfileRow) => r.hash = hash
  let views ← profileViews d (newestFirst rows)
  return presetViews d (hidden.map (·.presetID)) ++ views

def listProfiles (hash : String) : Action (List ProfileView) := do
  .lift (checkScope hash)
  stored (listProfilesTx d hash)

def profileNotFound : Failure :=
  .operation "profile_not_found" "Profile was not found for this access key."

/-- A stored profile as a draft. -/
def recordDraft (r : ProfileRow) (status : CredentialStatus) : ProfileDraft where
  sourceProfileID := r.id
  presetID := r.presetID.getD ""
  definition := r.definition
  inputs := r.inputs
  binding := r.binding
  credentialStatus := status

/-- The saved profile of a scope. -/
def savedDraftTx (hash id : String) : Action ProfileDraft := do
  .ensure (d.parseUUID id = true) profileNotFound
  let rows : List ProfileRow ← schema.selectFrom .profiles
    fun (r : ProfileRow) => r.hash = hash && r.id = id
  match rows.head? with
  | none => .lift (.error profileNotFound)
  | some r => do
    let revision ← joinedRevision r
    return recordDraft r (bindingStatus d r.binding revision)

/-- `profileDraftTx`. -/
def profileDraftTx (hash id : String) : Action ProfileDraft :=
  match d.presets.get? id with
  | some p => do
    let hidden : List HiddenPresetRow ← schema.selectFrom .hiddenPresets
      fun (r : HiddenPresetRow) => r.hash = hash && r.presetID = id
    .ensure (hidden = []) (.operation "preset_not_found"
      "Starting template is not available for this access key.")
    return { presetDraft id p with credentialStatus := bindingStatus d p.binding 0 }
  | none => savedDraftTx d hash id

def getProfile (hash id : String) : Action ProfileDraft := do
  .lift (checkScope hash)
  stored (profileDraftTx d hash id)

/-! ## Origins -/

/-- `strconv.Atoi` of digits. -/
def portNumber (port : String) : ℕ := port.toList.foldl (fun n c => 10 * n + (c.toNat - 48)) 0

/-- `net.JoinHostPort`. -/
def joinHostPort (host port : String) : String :=
  (if ':' ∈ host.toList then "[" ++ host ++ "]" else host) ++ ":" ++ port

/-- `normalizeOrigin`. -/
def Deployment.normalizeOrigin (value : String) : Option String :=
  match d.parseURL (trimSpace value) with
  | none => none
  | some u =>
    if d.toLower u.scheme ≠ "https" ∨ u.hostname = "" ∨ u.hasUser ∨ u.opaqueData ≠ ""
        ∨ u.rawQuery ≠ "" ∨ u.fragment ≠ "" ∨ (u.path ≠ "" ∧ u.path ≠ "/") then none
    else if u.port ≠ "" ∧ (portNumber u.port < 1 ∨ 65535 < portNumber u.port) then none
    else
      let name := u.hostname.toList
      let host := d.toLower (.ofList (if name.getLast? = some '.' then name.dropLast else name))
      let port := if u.port = "443" then "" else u.port
      let host := if ':' ∈ host.toList then "[" ++ host ++ "]" else host
      let bracket (c : Char) : Bool := c = '[' || c = ']'
      let bare := ((host.toList.dropWhile bracket).reverse.dropWhile bracket).reverse
      some ("https://" ++ if port ≠ "" then joinHostPort (.ofList bare) port else host)

/-- `originForURL`. -/
def Deployment.originForURL (value : String) : Option String :=
  (d.parseURL value).bind fun u => d.normalizeOrigin (u.scheme ++ "://" ++ u.host)

/-! ## Connections -/

def credentialInvalid : Failure :=
  .validation "credential_invalid" [⟨"credentialBinding",
    "Select or provide a credential authorized for this access key and provider origin."⟩]

/-- The record of a stored credential. -/
def CredentialRow.toRecord (r : CredentialRow) : CredentialRecord where
  binding := { apiKeyHash := r.hash, credentialID := r.id, origin := r.origin }
  encrypted := { keyID := r.keyID, nonce := r.nonce, ciphertext := r.ciphertext }
  revision := r.revision

/-- `readCredentialTx`. -/
def readCredentialTx (hash id : String) : Action (Option CredentialRecord) := do
  let rows : List CredentialRow ← schema.selectFrom .credentials
    fun (r : CredentialRow) => r.hash = hash && r.id = id
  return rows.head?.map (·.toRecord)

/-- The credential that is given, or the stored one. -/
def candidateTx (hash id : String) : Option CredentialRecord → Action (Option CredentialRecord)
  | some record => pure (some record)
  | none => readCredentialTx hash id

/-- `openRecord`. -/
def openRecord (record : CredentialRecord) (binding : CredentialBinding) :
    Except Failure CredentialPayload :=
  match d.vault.bind fun vault => vault.opens record.encrypted binding with
  | some payload => .ok payload
  | none => .error (.validation "credential_invalid"
      [⟨"credential", "Entered credential cannot be authenticated for this binding."⟩])

/-- The connection of a definition, before it has a credential. -/
def Profile.connection (p : Profile A) : Connection A where
  id := "generation"
  provider := p.provider
  protocol := p.apiInferenceType
  baseURL := p.baseURL
  supportsWebSearch := p.supportsWebSearch.getD false
  pricing := p.pricing

/-- A connection with a credential of the deployment, whose origin must be
that of the profile. -/
def withDeploymentCredential (origin upstream : String) (c : Connection A) :
    Except Failure (Connection A) :=
  match d.connections.get? upstream with
  | none => .error credentialInvalid
  | some loaded =>
    if loaded.apiKey = "" ∨ d.originForURL loaded.baseURL ≠ some origin then .error credentialInvalid
    else .ok { c with
      apiKey := loaded.apiKey, headers := loaded.headers, cacheDomain := loaded.cacheDomain }

/-- A connection with a credential of the scope, bound to the origin of the
profile. -/
def withEnteredCredential (binding : CredentialBinding) (candidate : Option CredentialRecord)
    (c : Connection A) : Except Failure (Connection A × ℤ) :=
  match candidate with
  | none => .error credentialInvalid
  | some record =>
    if record.binding ≠ binding then .error credentialInvalid
    else do
      let payload ← openRecord d record binding
      return ({ c with apiKey := payload.apiKey, headers := payload.headers }, record.revision)

/-- A draft with its connection. -/
def resolved (draft : ProfileDraft) (c : Connection A) (revision : ℤ) : ResolvedProfile A where
  toProfileDraft := { draft with credentialStatus := bindingStatus d draft.binding revision }
  connection := c
  credentialRevision := revision

/-- **`resolveDraftTx`**: the connection that a draft is executed on. -/
def resolveDraftTx (hash : String) (draft : ProfileDraft) (candidate : Option CredentialRecord) :
    Action (ResolvedProfile A) := do
  let definition ← .lift (d.parseDefinition draft.definition)
  match d.originForURL definition.baseURL with
  | none => .lift (.error credentialInvalid)
  | some origin =>
    match draft.binding.source with
    | .deployment => do
      let c ← .lift (withDeploymentCredential d origin draft.binding.deploymentUpstreamID
        definition.connection)
      return resolved d draft c 0
    | .entered => do
      let binding : CredentialBinding := ⟨hash, draft.binding.enteredCredentialID, origin⟩
      let candidate ← candidateTx hash binding.credentialID candidate
      let (c, revision) ← .lift (withEnteredCredential d binding candidate definition.connection)
      return resolved d draft c revision
    | .other _ => .lift (.error credentialInvalid)

/-! ## Saving -/

def revisionConflict (revision : ℤ) : Failure :=
  .operation "revision_conflict"
    "The credential or draft revision changed; reload before saving." (some revision)

/-- `revisionConflictTx`, of a credential. -/
def credentialConflictTx (binding : CredentialBinding) : Action Unit := do
  let rows : List CredentialRow ← schema.selectFrom .credentials
    fun (r : CredentialRow) => r.hash = binding.apiKeyHash && r.id = binding.credentialID
  .lift (.error (revisionConflict ((rows.head?.map (·.revision)).getD 0)))

/-- The row of a credential that is new. -/
def CredentialRecord.row (record : CredentialRecord) (now : ℤ) : CredentialRow where
  hash := record.binding.apiKeyHash
  id := record.binding.credentialID
  origin := record.binding.origin
  keyID := record.encrypted.keyID
  nonce := record.encrypted.nonce
  ciphertext := record.encrypted.ciphertext
  revision := record.revision
  createdAt := now
  updatedAt := now

/-- `insertCredentialTx`. -/
def insertCredentialTx (record : CredentialRecord) (now : ℤ) : Action Unit := do
  .ensure (d.check .credentials (record.row now) = true) (.plain "check constraint")
  let added ← schema.insertInto .credentials (record.row now)
  if added then pure () else credentialConflictTx record.binding

/-- `SET origin, key_id, nonce, ciphertext, revision=revision+1,
updated_at`. -/
def rotateCredential (record : CredentialRecord) (now : ℤ) :
    Table.Assignment (schema.key .credentials) where
  val := fun (r : CredentialRow) =>
    { r with
      origin := record.binding.origin
      keyID := record.encrypted.keyID
      nonce := record.encrypted.nonce
      ciphertext := record.encrypted.ciphertext
      revision := r.revision + 1
      updatedAt := now }
  property := fun _ => rfl

/-- `saveCredentialTx`. -/
def saveCredentialTx (record : CredentialRecord) (expected now : ℤ) : Action Unit :=
  if expected = 0 then insertCredentialTx d record now
  else do
    let affected ← schema.updateIn .credentials
      (fun (r : CredentialRow) => r.hash = record.binding.apiKeyHash
        && r.id = record.binding.credentialID && r.revision = expected)
      (rotateCredential record now)
    if affected = 0 then credentialConflictTx record.binding else pure ()

/-- The foreign key of an entered binding. -/
def credentialReferenceTx (hash : String) : Option String → Action Unit
  | none => pure ()
  | some id => do
    let rows : List CredentialRow ← schema.selectFrom .credentials
      fun (r : CredentialRow) => r.hash = hash && r.id = id
    .ensure (rows ≠ []) (.plain "foreign key constraint")

/-- `NULLIF(s, '')`. -/
def nonEmpty (s : String) : Option String := if s = "" then none else some s

/-- The row of a profile. -/
def profileRow (hash id name : String) (input : SaveProfileInput) (createdAt : ℤ) : ProfileRow where
  hash := hash
  id := id
  name := name
  presetID := nonEmpty input.presetID
  definition := input.definition
  inputs := input.inputs
  credentialSource := input.binding.source
  deploymentUpstreamID := nonEmpty input.binding.deploymentUpstreamID
  enteredCredentialID := nonEmpty input.binding.enteredCredentialID
  createdAt := createdAt

/-- `insertProfileTx`. -/
def insertProfileTx (r : ProfileRow) : Action Unit := do
  credentialReferenceTx r.hash r.enteredCredentialID
  insertRow d .profiles r

/-- What the surroundings answer while a profile is saved. -/
structure Saving (A : Type) where
  nonce : ByteArray
  probe : ResolvedProfile A → Except Failure Unit
  newID : Option String
  now : ℤ

/-- The credential that comes with a profile, sealed. -/
def sealedCandidate (hash : String) (input : SaveProfileInput) (nonce : ByteArray) :
    Except Failure (Option CredentialRecord) :=
  match input.credential with
  | none => .ok none
  | some entered =>
    match d.vault with
    | none => .error (.operation "reference_configuration_error"
        "Entered credential encryption is not configured.")
    | some vault =>
      match d.normalizeOrigin entered.origin with
      | none => .error credentialInvalid
      | some origin =>
        let binding : CredentialBinding := ⟨hash, input.binding.enteredCredentialID, origin⟩
        match vault.seals entered.payload binding nonce with
        | none => .error credentialInvalid
        | some encrypted => .ok (some ⟨binding, encrypted, entered.revision + 1⟩)

/-- The revision that a new credential must follow. -/
def expectRevisionTx (hash : String) (input : SaveProfileInput) : Action Unit :=
  match input.credential with
  | none => pure ()
  | some entered => do
    let old ← readCredentialTx hash input.binding.enteredCredentialID
    let revision := (old.map (·.revision)).getD 0
    .ensure (revision = entered.revision) (revisionConflict revision)

/-- The credential that comes with a profile is saved. -/
def saveCandidateTx (input : SaveProfileInput) (candidate : Option CredentialRecord) (now : ℤ) :
    Action Unit :=
  match candidate, input.credential with
  | some record, some entered => saveCredentialTx d record entered.revision now
  | _, _ => pure ()

/-- **`SaveProfile`.** -/
def saveProfile (hash : String) (input : SaveProfileInput) (w : Saving A) : Action ProfileView := do
  .lift (checkScope hash)
  let input ← .lift (d.validateSnapshot input)
  let candidate ← .lift (sealedCandidate d hash input w.nonce)
  let profile ← stored do
    expectRevisionTx hash input
    resolveDraftTx d hash
      { definition := input.definition, inputs := input.inputs, binding := input.binding
        credentialStatus := unknownStatus } candidate
  .lift (w.probe profile)
  match w.newID with
  | none => .lift (.error (.operation "profile_invalid" "Cannot allocate saved profile identity."))
  | some id => do
    let (snapshot, id, name) ← .lift (d.snapshot input w.now id)
    let row := profileRow hash id name snapshot w.now
    stored do
      saveCandidateTx d input candidate w.now
      insertProfileTx d row
    return profileView row profile.credentialStatus

/-- **`DeleteProfile`**: a preset is hidden, a saved profile deleted. -/
def deleteProfile (hash id : String) (now : ℤ) : Action Unit := do
  .lift (checkScope hash)
  stored do
    match d.presets.get? id with
    | some _ => do
      let row : HiddenPresetRow := ⟨hash, id, now⟩
      .ensure (d.check .hiddenPresets row = true) (.plain "check constraint")
      let _ ← schema.insertInto .hiddenPresets row
      pure ()
    | none => do
      .ensure (d.parseUUID id = true) profileNotFound
      let affected ← schema.deleteFrom .profiles
        fun (r : ProfileRow) => r.hash = hash && r.id = id
      .ensure (affected ≠ 0) profileNotFound

/-! ## Bundles -/

def maxBundleBytes : ℕ := 2 * 1024 * 1024

def bundleInvalid : Failure :=
  .validation "profile_invalid" [⟨"bundle",
    "Use a current-format bundle for this access key and encryption key with complete valid bindings."⟩]

/-- The saved profiles among the views, with their inputs. -/
def bundleProfiles (hash : String) : List ProfileView → Action (List BundleProfile)
  | [] => return []
  | view :: rest => do
    if view.saved then
      let draft ← profileDraftTx d hash view.id
      let profiles ← bundleProfiles hash rest
      return ⟨view, draft.inputs, draft.binding⟩ :: profiles
    else bundleProfiles hash rest

/-- **`ExportBundle`.** -/
def exportBundle (hash : String) (newID : Option String) (now : ℤ) : Action String := do
  .lift (checkScope hash)
  match newID with
  | none => .lift (.error (.operation "profile_invalid" "Cannot allocate bundle identity."))
  | some id => do
    let bundle ← stored do
      let views ← listProfilesTx d hash
      let profiles ← bundleProfiles d hash views
      let hidden : List HiddenPresetRow ← schema.selectFrom .hiddenPresets
        fun (r : HiddenPresetRow) => r.hash = hash
      let credentials : List CredentialRow ← schema.selectFrom .credentials
        fun (r : CredentialRow) => r.hash = hash
      return {
        schemaVersion := 4, bundleID := id, createdAt := some now, apiKeyHash := hash
        profiles := profiles
        hiddenPresets := hidden.map (·.presetID)
        credentials := credentials.map fun c =>
          { id := c.id, origin := c.origin, keyID := c.keyID, nonce := d.encodeBase64 c.nonce
            ciphertext := d.encodeBase64 c.ciphertext, revision := c.revision } }
    let encoded := d.encodeBundle bundle
    .ensure (encoded.utf8ByteSize ≤ maxBundleBytes) bundleInvalid
    return encoded

/-- `normalizeCredentialBinding`. -/
def normalizeCredentialBinding (b : CredentialBinding) : Option CredentialBinding :=
  let hash := trimSpace b.apiKeyHash
  let id := trimSpace b.credentialID
  if !validKeyHash hash || id = "" || 128 < id.utf8ByteSize
      || id.toList.any (fun c => c = '\r' || c = '\n' || c.toNat = 0) then none
  else (d.normalizeOrigin b.origin).map fun origin => ⟨hash, id, origin⟩

/-- `bundleCredentialRecord`. -/
def bundleCredentialRecord (hash : String) (c : BundleCredential) :
    Except Failure CredentialRecord :=
  match d.decodeBase64 c.nonce, d.decodeBase64 c.ciphertext,
      normalizeCredentialBinding d ⟨hash, c.id, c.origin⟩ with
  | some nonce, some ciphertext, some binding =>
    if d.encodeBase64 nonce ≠ c.nonce ∨ nonce.size ≠ 12 ∨ d.encodeBase64 ciphertext ≠ c.ciphertext
        ∨ ciphertext.size < 16 ∨ c.keyID ≠ "primary" ∨ c.revision ≤ 0 then .error bundleInvalid
    else .ok ⟨binding, ⟨"primary", nonce, ciphertext⟩, c.revision⟩
  | _, _, _ => .error bundleInvalid

/-- The credentials of a bundle, each readable and named once. -/
def bundleCredentials (hash : String) (seen : Dict String CredentialRecord) :
    List BundleCredential → Except Failure (Dict String CredentialRecord)
  | [] => .ok seen
  | c :: rest => do
    let record ← bundleCredentialRecord d hash c
    require ((seen.get? c.id).isNone = true) bundleInvalid
    let vault ← found d.vault (.operation "reference_configuration_error"
      "Entered credential encryption is not configured.")
    let _ ← found (vault.opens record.encrypted record.binding) bundleInvalid
    bundleCredentials hash (seen.put c.id record) rest

/-- The credential that a bundle supplies for an entered binding. -/
def bundleCandidate (credentials : Dict String CredentialRecord) (binding : ProfileCredentialBinding) :
    Except Failure (Option CredentialRecord) :=
  if binding.source = .entered then
    (found (credentials.get? binding.enteredCredentialID) bundleInvalid).map some
  else .ok none

/-- The profiles of a bundle, with their rows and their connections. -/
def bundleRecords (hash : String) (credentials : Dict String CredentialRecord) (ids : List String) :
    List BundleProfile → Action (List (ProfileRow × ResolvedProfile A))
  | [] => return []
  | entry :: rest => do
    match entry.profile.createdAt with
    | none => .lift (.error bundleInvalid)
    | some createdAt => do
      .ensure (d.parseUUID entry.profile.id = true ∧ entry.profile.id ∉ ids
        ∧ entry.profile.saved = true) bundleInvalid
      let input ← Op.mapError (fun _ => bundleInvalid) (.lift (d.validateSnapshot
        { name := entry.profile.name, presetID := entry.profile.presetID
          definition := entry.profile.definition, inputs := entry.inputs, binding := entry.binding }))
      let candidate ← .lift (bundleCandidate credentials entry.binding)
      let profile ← Op.mapError (fun _ => bundleInvalid) (resolveDraftTx d hash
        { definition := input.definition, inputs := input.inputs, binding := input.binding
          credentialStatus := unknownStatus } candidate)
      let row := profileRow hash entry.profile.id entry.profile.name
        { input with presetID := entry.profile.presetID } createdAt
      let records ← bundleRecords hash credentials (entry.profile.id :: ids) rest
      return (row, profile) :: records

/-- What the surroundings answer while a bundle is replaced: the order in
which the map of credentials is visited, and the probes. -/
structure Replacing (A : Type) where
  visit : List CredentialRecord → List CredentialRecord
  perm : ∀ records, (visit records).Perm records
  probe : ResolvedProfile A → Except Failure Unit
  now : ℤ

/-- The bundle that a text holds, for this scope. -/
def readBundle (hash data : String) : Except Failure ProfileBundle := do
  require (data.utf8ByteSize ≤ maxBundleBytes) bundleInvalid
  let bundle ← found (d.decodeBundle data) bundleInvalid
  require (bundle.schemaVersion = 4 ∧ bundle.apiKeyHash = hash ∧ bundle.createdAt.isSome = true
    ∧ d.parseUUID bundle.bundleID = true) bundleInvalid
  return bundle

/-- **`ReplaceBundle`.** -/
def replaceBundle (hash data : String) (w : Replacing A) : Action Unit := do
  .lift (checkScope hash)
  let bundle ← .lift (readBundle d hash data)
  let credentials ← .lift (bundleCredentials d hash .empty bundle.credentials)
  let records ← bundleRecords d hash credentials [] bundle.profiles
  .ensure (bundle.hiddenPresets.Nodup
    ∧ ∀ id ∈ bundle.hiddenPresets, d.validateProfileName id = true) bundleInvalid
  .each (fun e => .lift (w.probe e.2)) records
  stored do
    let _ ← schema.deleteFrom .profiles fun (r : ProfileRow) => r.hash = hash
    let _ ← schema.deleteFrom .hiddenPresets fun (r : HiddenPresetRow) => r.hash = hash
    let _ ← schema.deleteFrom .credentials fun (r : CredentialRow) => r.hash = hash
    .each (fun record => insertCredentialTx d record w.now)
      (w.visit (credentials.entries.map Prod.snd))
    .each (fun e => insertProfileTx d e.1) records
    .each (fun id => insertRow d .hiddenPresets (⟨hash, id, w.now⟩ : HiddenPresetRow))
      bundle.hiddenPresets

end HardenLlm.Stateful
