import HardenLlm.Stateful.Model.Profiles
/-!
# Resolution of runs

`resolve.go`: the profiles that a run and its recovery policy name are
loaded in one transaction and become the connections of the run, and the
namespace of the run's cached results is derived from them
(`credentialNamespace`).
-/

namespace HardenLlm.Stateful

open Bindings

variable {A : Type} (d : Deployment A)

/-! ## Recovery targets -/

/-- The places of a policy, in the order in which they are visited, with
the identifiers of their connections. -/
def PolicyDocument.leaves (p : PolicyDocument) : List (String × Json) :=
  let leaf (id : String) (data : Option Json) := data.toList.map fun json => (id, json)
  leaf "repair-initial" p.repairInitial ++ leaf "repair-escalation" p.repairEscalation
    ++ leaf "rerun" p.rerunTarget ++ leaf "rerun-repair-initial" p.rerunRepairInitial
    ++ leaf "rerun-repair-escalation" p.rerunRepairEscalation

def targetInvalid : Failure :=
  validationFailure "recoveryTarget" "Recovery target has an unknown field or invalid value."

/-- A place of a policy, with the target it holds. -/
structure Leaf where
  id : String
  data : Json
  target : RecoveryTarget

/-- The targets of a policy. -/
def targets : List (String × Json) → Except Failure (List Leaf)
  | [] => .ok []
  | (id, data) :: rest => do
    let target ← found (d.decodeTarget data) targetInvalid
    return ⟨id, data, target⟩ :: (← targets rest)

/-- The profiles that connections are made from: that of the generation,
and those that targets name. -/
def labels (profileID : String) (leaves : List Leaf) : Dict String String :=
  leaves.foldl (fun m leaf =>
      if leaf.target.source = "profile" then m.put leaf.id leaf.target.profileID else m)
    (Dict.empty.put "generation" profileID)

/-- The profiles in the order in which they are loaded. -/
def orderedIDs (profileID : String) (labels : Dict String String) : List String :=
  profileID :: ((labels.entries.map Prod.snd).dedup.filter (· ≠ profileID)).insertionSort (· ≤ ·)

/-- A preset is at hand, hidden or not; a saved profile is read. -/
def runDraftTx (hash id : String) : Action ProfileDraft :=
  match d.presets.get? id with
  | some p => pure (presetDraft id p)
  | none => profileDraftTx d hash id

/-- One profile of a run. -/
def loadProfile (hash id : String) : Action (ResolvedProfile A) := do
  let draft ← runDraftTx d hash id
  resolveDraftTx d hash draft none

/-- The profiles of a run. -/
def loadProfiles (hash : String) (loaded : Dict String (ResolvedProfile A)) :
    List String → Action (Dict String (ResolvedProfile A))
  | [] => return loaded
  | id :: rest => do
    let profile ← loadProfile d hash id
    loadProfiles hash (loaded.put id profile) rest

/-- What `resolveRecovery` makes of one target: a target for the core, and
its connection. -/
def rewriteTarget (profiles : Dict String (ResolvedProfile A)) (leaf : Leaf) :
    Except Failure (CoreTarget × Option (Connection A)) :=
  if leaf.target.source ≠ "profile" then do
    require (leaf.target.profileID = "") (validationFailure "recoveryTarget.profileId"
      "Only profile targets can name profiles.")
    return (.unchanged leaf.data, none)
  else do
    require (leaf.target.upstream = "" ∧ d.validateProfileName leaf.target.profileID = true)
      (validationFailure "recoveryTarget.profileId"
        "A profile target requires an authorized profile ID.")
    let profile ← found (profiles.get? leaf.target.profileID) (.operation "profile_not_found"
      "Recovery profile was not found for this access key.")
    let definition ← d.parseDefinition profile.definition
    let model := if leaf.target.modelID = "" then definition.modelID else leaf.target.modelID
    return (.model leaf.id model leaf.target.reasoningEffort leaf.target.providerOptions,
      some { profile.connection with id := leaf.id })

/-- The targets of a policy one after the other, with the connections that
they add. -/
def rewriteTargets (profiles : Dict String (ResolvedProfile A))
    (connections : Dict String (Connection A)) :
    List Leaf → Except Failure (List CoreTarget × Dict String (Connection A))
  | [] => .ok ([], connections)
  | leaf :: rest => do
    let (target, connection) ← rewriteTarget d profiles leaf
    let connections := match connection with
      | some c => connections.put leaf.id c
      | none => connections
    let (rewritten, connections) ← rewriteTargets profiles connections rest
    return (target :: rewritten, connections)

/-! ## Cache namespaces -/

section Namespace

open Cachekey (GoValue FieldName marshal)

variable (sha256 : ByteArray → String)

/-- `json.Marshal` of a value that always encodes. -/
def encoded (v : GoValue) : String :=
  match marshal v with
  | .ok document => document.encode
  | .error _ => ""

def stringMap (m : Dict String String) : GoValue :=
  .map none (mapValues GoValue.string m.entries)

/-- The credential of a connection, encoded; empty headers are left
out. -/
def fingerprint (c : Connection A) : String :=
  let headers := if c.headers.entries = [] then []
    else [((⟨"Headers", "headers"⟩ : FieldName), stringMap c.headers)]
  sha256 (encoded (.struct ((⟨"APIKey", "apiKey"⟩, .string c.apiKey) :: headers))).toUTF8

/-- The cache domain that counts. -/
def Connection.domain (c : Connection A) : String := if c.cacheDomain = "" then c.id else c.cacheDomain

/-- What the namespace holds of a connection. -/
def snapshot (revision : ℤ) (c : Connection A) : GoValue :=
  let field (name : String) (v : GoValue) : FieldName × GoValue := (⟨name, name⟩, v)
  .struct [field "Provider" (.string c.provider), field "Protocol" (.string c.protocol),
    field "Origin" (.string c.baseURL), field "CacheDomain" (.string c.domain),
    field "Fingerprint" (.string (fingerprint sha256 c)), field "Revision" (.int revision)]

/-- **`credentialNamespace`.** A connection without a revision has zero. -/
def credentialNamespace (connections : Dict String (Connection A)) (revisions : Dict String ℤ) :
    String :=
  sha256 (encoded (.map none (connections.entries.map fun e =>
    (e.1, snapshot sha256 ((revisions.get? e.1).getD 0) e.2)))).toUTF8

/-- The namespace of a run. -/
def cacheNamespace (connections : Dict String (Connection A)) (revisions : Dict String ℤ)
    (labels : Dict String String) : String :=
  sha256 (encoded (.struct [
    (⟨"Credentials", "Credentials"⟩, .string (credentialNamespace sha256 connections revisions)),
    (⟨"Profiles", "Profiles"⟩, stringMap labels)])).toUTF8

end Namespace

/-! ## Runs -/

/-- **A run that is ready to be executed.** -/
structure ResolvedRun (A : Type) where
  request : Json
  connections : Dict String (Connection A)
  labels : Dict String String
  revisions : Dict String ℤ
  cacheNamespace : String

/-- Names that are neither a preset nor an identifier. -/
def unknownName (id : String) : Bool := (d.presets.get? id).isNone && !d.parseUUID id

/-- The revisions of the credentials behind connections. -/
def credentialRevisions (profiles : Dict String (ResolvedProfile A)) (labels : Dict String String) :
    Dict String ℤ :=
  labels.map fun label => ((profiles.get? label).map (·.credentialRevision)).getD 0

/-- **`resolveRun`.** -/
def resolveRun (sha256 : ByteArray → String) (hash : String) (input : RunInput) :
    Action (ResolvedRun A) := do
  let policy ← .lift (d.decodePolicy input.recoveryPolicy)
  let leaves ← .lift (targets d policy.leaves)
  let labels := labels input.profileID leaves
  .ensure (∀ id ∈ orderedIDs input.profileID labels, unknownName d id = false) profileNotFound
  let profiles ← stored (loadProfiles d hash .empty (orderedIDs input.profileID labels))
  match profiles.get? input.profileID with
  | none => .lift (.error profileNotFound)
  | some generation => do
    let connections := Dict.empty.put "generation" { generation.connection with id := "generation" }
    let (rewritten, connections) ← .lift (rewriteTargets d profiles connections leaves)
    let core ← .lift (d.corePolicy policy rewritten)
    let request ← .lift (d.request input core profiles)
    let revisions := credentialRevisions profiles labels
    return ⟨request, connections, labels, revisions,
      cacheNamespace sha256 connections revisions labels⟩

end HardenLlm.Stateful
