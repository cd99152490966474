import HardenLlm.Stateful.Model.Records
import HardenLlm.Stateful.Namespace
/-!
# Isolation of cached results

Calls of any scopes write and read cached results while everything else in
the database changes, credentials included. A row of the table is what one
call wrote last under its key, and a call that is served from it is in the
same scope, has the same labels and connections and asks for the same
operation.
-/

namespace HardenLlm.Stateful

open List Bindings
open HardenLlm.Client (CacheRecord newRecord)

variable {A : Type}

/-! ## Calls -/

/-- **What a call uses the cache with**: a run of the service has the
namespace that was resolved for it, a client for a key that of the
deployment's connections. -/
inductive Caller (d : Deployment A) (sha256 : ByteArray → String) (hash : String)
  | run (input : RunInput) (r : ResolvedRun A)
      (resolved : ∃ db, ((resolveRun d sha256 hash input).exec db).1 = .ok r)
  | client

namespace Caller

variable {d : Deployment A} {sha256 : ByteArray → String} {hash : String}

def connections : Caller d sha256 hash → Dict String (Connection A)
  | .run _ r _ => r.connections
  | .client => d.connections

def revisions : Caller d sha256 hash → Dict String ℤ
  | .run _ r _ => r.revisions
  | .client => .empty

/-- The profiles of a run; a client has none. -/
def labels : Caller d sha256 hash → Option (Dict String String)
  | .run _ r _ => some r.labels
  | .client => none

def «namespace» : Caller d sha256 hash → String
  | .run _ r _ => r.cacheNamespace
  | .client => credentialNamespace sha256 d.connections .empty

end Caller

/-- **A call with its operation**, whose hash there is, to a service as it
was started at the time. -/
structure Call (A : Type) (sha256 : ByteArray → String) (toUpper : String → String) where
  deployment : Deployment A
  hash : String
  caller : Caller deployment sha256 hash
  operation : Cachekey.Operation
  cacheVersion : String
  operationHash : String
  hashed : Cachekey.hash toUpper sha256 operation cacheVersion = .ok operationHash

variable {d : Deployment A} {sha256 : ByteArray → String} {toUpper : String → String}

/-- The primary key of a cached result. -/
def CacheRow.key (r : CacheRow) : String × (String ×ₗ String) :=
  (r.hash, toLex (r.namespace, r.operationHash))

/-- Where a call finds its row. -/
def Call.key (c : Call A sha256 toUpper) : String × (String ×ₗ String) :=
  (c.hash, toLex (c.caller.namespace, c.operationHash))

/-- **Two calls are the same for the cache.** -/
structure Call.Alike (c c' : Call A sha256 toUpper) : Prop where
  hash : c.hash = c'.hash
  labels : Option.Rel (fun l l' => ∀ id, l.get? id = l'.get? id) c.caller.labels c'.caller.labels
  connections : ∀ id, Option.Rel (fun x x' => x.Alike x'
      ∧ revisionOf c.caller.revisions id = revisionOf c'.caller.revisions id)
    (c.caller.connections.get? id) (c'.caller.connections.get? id)
  operation : ∃ o o', c.operation.document toUpper = .ok o ∧ c'.operation.document toUpper = .ok o'
    ∧ o.Same o'
  cacheVersion : c.cacheVersion = c'.cacheVersion

/-! ## The cache over time -/

/-- The database, and for every key the call that wrote it last. -/
structure CacheState (A : Type) (sha256 : ByteArray → String) (toUpper : String → String) where
  db : Database
  writer : String × (String ×ₗ String) → Option (Call A sha256 toUpper)

/-- **What happens to the cache.** Everything else in the database may
change at any time. -/
inductive CacheEvent (A : Type) (sha256 : ByteArray → String) (toUpper : String → String)
  | write (c : Call A sha256 toUpper) (providerResult : Json) (createdAt now : ℤ)
  | delete (c : Call A sha256 toUpper)
  | others (db : Database)

namespace CacheState

/-- A write that took effect has its call for a writer. -/
def wrote (s : CacheState A sha256 toUpper) (c : Call A sha256 toUpper) :
    Except Failure Unit × Database → CacheState A sha256 toUpper
  | (.ok _, db) => ⟨db, Function.update s.writer c.key (some c)⟩
  | (.error _, db) => ⟨db, s.writer⟩

def apply (s : CacheState A sha256 toUpper) :
    CacheEvent A sha256 toUpper → CacheState A sha256 toUpper
  | .write c providerResult createdAt now =>
    s.wrote c ((cacheSet c.deployment c.hash c.caller.namespace c.operationHash
      (newRecord c.operationHash c.cacheVersion providerResult createdAt) now).exec s.db)
  | .delete c =>
    ⟨((cacheDelete c.hash c.caller.namespace c.operationHash).exec s.db).2, s.writer⟩
  | .others db => ⟨Function.update db .cacheEntries (s.db .cacheEntries), s.writer⟩

/-- A database without cached results, and whatever happens to it. -/
def after (db : Database) (events : List (CacheEvent A sha256 toUpper)) :
    CacheState A sha256 toUpper :=
  events.foldl apply ⟨Function.update db .cacheEntries .empty, fun _ => none⟩

/-- What the adapter of a call is served, before it reads the result. -/
def served (s : CacheState A sha256 toUpper) (c : Call A sha256 toUpper) (now : ℤ) :
    Option CacheRecord :=
  match ((cacheGet c.hash c.caller.namespace c.operationHash now).exec s.db).1 with
  | .ok (some record) => if record.intact c.operationHash c.cacheVersion then some record else none
  | _ => none

/-- **Every row is what one call wrote there.** -/
def Written (s : CacheState A sha256 toUpper) : Prop :=
  ∀ r : CacheRow, r ∈ (s.db .cacheEntries).rows →
    ∃ c, s.writer (r.key) = some c ∧ c.key = r.key
      ∧ r.record.operationHash = c.operationHash ∧ r.record.cacheVersion = c.cacheVersion

end CacheState

/-! ## Statements -/

variable {hash ns key : String} {record : CacheRecord} {now : ℤ} {db db' : Database}

/-- The statements ask for the key column by column. -/
theorem CacheRow.key_eq {r : CacheRow} : r.key = (hash, toLex (ns, key))
    ↔ (r.hash = hash && r.namespace = ns && r.operationHash = key) = true := by
  simp only [Bool.and_eq_true, decide_eq_true_eq]
  refine ⟨fun h => ?_, fun ⟨⟨h, h'⟩, h''⟩ => ?_⟩
  · obtain ⟨h, hid⟩ := Prod.mk.inj h
    obtain ⟨h', h''⟩ := Prod.mk.inj (toLex.injective hid)
    exact ⟨⟨h, h'⟩, h''⟩
  · rw [← h, ← h', ← h'']
    rfl

/-- **What a write leaves**: rows that were there, and its own. -/
theorem of_cacheSet {u : Unit} (h : (cacheSet d hash ns key record now).exec db = (.ok u, db')) :
    (⟨hash, ns, key, record, now + d.cacheTTL⟩ : CacheRow) ∈ (db' .cacheEntries).rows
      ∧ ∀ r : CacheRow, r ∈ (db' .cacheEntries).rows →
        (r.key = (hash, toLex (ns, key)) ∧ r.record = record)
          ∨ (r.key ≠ (hash, toLex (ns, key)) ∧ r ∈ (db .cacheEntries).rows) := by
  simp only [cacheSet, stored, Op.exec_mapError_eq_ok, Op.exec_atomically_eq_ok,
    Op.exec_bind_eq_ok] at h
  obtain ⟨expired, db₁, hexpired, _, db₂, hdelete, _, db₃, hcheck, added, db₄, hinsert, h⟩ := h
  have hreads : (expiredEntries hash now).ReadOnly := .bind (.reads _) fun _ => .lift _
  have hread : db₁ = db := (congrArg Prod.snd hexpired).symm.trans (hreads db)
  have hchecked : db₃ = db₂ := (congrArg Prod.snd hcheck).symm
  rw [hread] at hdelete
  rw [hchecked] at hinsert
  have hkept (r : CacheRow) (hr : r ∈ (db₂ .cacheEntries).rows) : r ∈ (db .cacheEntries).rows :=
    Schema.of_exec_deleteFrom hdelete hr
  rcases Schema.of_exec_insertInto hinsert with ⟨rfl, hrows, hfree⟩ | ⟨rfl, rfl, taken, htaken, hkey⟩
  · cases h
    rw [hrows]
    refine ⟨mem_cons_self, fun r hr => ?_⟩
    rcases mem_cons.1 hr with rfl | hr
    · exact .inl ⟨rfl, rfl⟩
    · exact .inr ⟨hfree r hr, hkept r hr⟩
  · obtain ⟨_, db₅, hupdate, h⟩ := Op.exec_bind_eq_ok.1 h
    cases h
    have hrows (r : CacheRow) := Schema.mem_of_exec_updateIn hupdate (r := r)
    refine ⟨(hrows _).2 ⟨taken, htaken, ?_⟩, fun r hr => ?_⟩
    · have hmine := CacheRow.key_eq.1 hkey
      rw [if_pos hmine]
      simp only [Bool.and_eq_true, decide_eq_true_eq] at hmine
      simp only [overwriteEntry, hmine]
      rfl
    · obtain ⟨r', hr', rfl⟩ := (hrows r).1 hr
      split
      · rename_i hmine
        exact .inl ⟨CacheRow.key_eq.2 hmine, rfl⟩
      · rename_i hother
        exact .inr ⟨fun h => hother (CacheRow.key_eq.1 h), hkept r' hr'⟩

/-- A row that the constraints admit is written. -/
theorem cacheSet_ok
    (hcheck : d.check .cacheEntries (⟨hash, ns, key, record, now + d.cacheTTL⟩ : CacheRow) = true) :
    ∃ db', (cacheSet d hash ns key record now).exec db = (.ok (), db') := by
  simp only [cacheSet, stored, Op.exec_mapError_eq_ok, Op.exec_atomically_eq_ok,
    Op.exec_bind_eq_ok, Op.ensure, if_pos hcheck]
  obtain ⟨expired, hexpired⟩ : ∃ expired, (expiredEntries hash now).exec db = (.ok expired, db) :=
    ⟨_, rfl⟩
  obtain ⟨count, db₂, hdelete⟩ : ∃ count db₂, (schema.deleteFrom .cacheEntries
      fun (r : CacheRow) => r.hash = hash && (r.namespace, r.operationHash) ∈ expired :
        Action ℕ).exec db = (.ok count, db₂) := ⟨_, _, rfl⟩
  obtain ⟨added, db₃, hinsert⟩ : ∃ added db₃, (schema.insertInto .cacheEntries
      (⟨hash, ns, key, record, now + d.cacheTTL⟩ : CacheRow) : Action Bool).exec db₂
        = (.ok added, db₃) := Schema.insertInto_returns _ _ _
  cases added with
  | true => exact ⟨db₃, expired, db, hexpired, count, db₂, hdelete, (), db₂, rfl, true, db₃, hinsert, rfl⟩
  | false =>
    exact ⟨_, expired, db, hexpired, count, db₂, hdelete, (), db₂, rfl, false, db₃, hinsert, rfl⟩

/-- **What was written is read** until it expires. -/
theorem cacheGet_of_cacheSet {u : Unit} {later : ℤ}
    (h : (cacheSet d hash ns key record now).exec db = (.ok u, db'))
    (hlater : later < now + d.cacheTTL) :
    ((cacheGet hash ns key later).exec db').1 = .ok (some record) := by
  obtain ⟨hmem, hrows⟩ := of_cacheSet h
  obtain ⟨selected, hselected⟩ : ∃ selected, ((schema.selectFrom .cacheEntries
      fun (r : CacheRow) => r.hash = hash && r.namespace = ns && r.operationHash = key
        && later < r.expiresAt : Action (List CacheRow)).exec db').1 = .ok selected := ⟨_, rfl⟩
  have hget : ((cacheGet hash ns key later).exec db').1 = .ok (selected.head?.map (·.record)) := by
    cases hselected
    rfl
  have hfresh := (Schema.mem_of_exec_selectFrom hselected).2 ⟨hmem, by simp [hlater]⟩
  cases selected with
  | nil => cases hfresh
  | cons r =>
    obtain ⟨hr, hp⟩ := (Schema.mem_of_exec_selectFrom hselected).1 mem_cons_self
    have hmine := CacheRow.key_eq.2 (Bool.and_eq_true _ _ ▸ hp).1
    rcases hrows r hr with ⟨-, hrecord⟩ | ⟨hother, -⟩
    · rw [hget, List.head?_cons, Option.map_some, hrecord]
    · exact absurd hmine hother

theorem clean_cacheSet : (cacheSet d hash ns key record now).Clean := .mapError .atomically

theorem of_cacheDelete {r : CacheRow}
    (hr : r ∈ (((cacheDelete hash ns key).exec db).2 .cacheEntries).rows) :
    r ∈ (db .cacheEntries).rows := by
  exact (mem_filter.1 hr).1

/-- A row that is served is in the table, under the key that was asked
for. -/
theorem of_cacheGet (h : ((cacheGet hash ns key now).exec db).1 = .ok (some record)) :
    ∃ r : CacheRow, r ∈ (db .cacheEntries).rows
      ∧ r.key = (hash, toLex (ns, key)) ∧ r.record = record := by
  obtain ⟨rows, hrows, h⟩ := (Op.ReadOnly.reads _).of_exec_bind (Op.of_exec_mapError h)
  obtain ⟨r, hhead, hrecord⟩ := Option.map_eq_some_iff.1 (Except.ok.inj h)
  obtain ⟨hmem, hp⟩ := (Schema.mem_of_exec_selectFrom hrows).1 (mem_of_head? hhead)
  simp only [Bool.and_eq_true, decide_eq_true_eq] at hp
  refine ⟨r, hmem, ?_, hrecord⟩
  rw [← hp.1.1.1, ← hp.1.1.2, ← hp.1.2]
  rfl

/-! ## Runs -/

namespace CacheState

/-- A call is served what it wrote, until it expires. -/
theorem served_write (s : CacheState A sha256 toUpper) (c : Call A sha256 toUpper)
    (providerResult : Json) (createdAt : ℤ) {now later : ℤ}
    (hcheck : ∀ r, c.deployment.check .cacheEntries r = true)
    (hlater : later < now + c.deployment.cacheTTL) :
    (s.apply (.write c providerResult createdAt now)).served c later
      = some (newRecord c.operationHash c.cacheVersion providerResult createdAt) := by
  obtain ⟨db, hset⟩ : ∃ db, (cacheSet c.deployment c.hash c.caller.namespace c.operationHash
      (newRecord c.operationHash c.cacheVersion providerResult createdAt) now).exec s.db
        = (.ok (), db) := cacheSet_ok (hcheck _)
  rw [apply, hset, wrote, served, cacheGet_of_cacheSet hset hlater]
  simp [newRecord, CacheRecord.intact]

variable {s : CacheState A sha256 toUpper}

theorem Written.apply (h : s.Written) (event : CacheEvent A sha256 toUpper) :
    (s.apply event).Written := by
  cases event with
  | others =>
    intro r hr
    simp only [CacheState.apply] at hr
    exact h r hr
  | delete =>
    exact fun r hr => h r (of_cacheDelete hr)
  | write c providerResult createdAt now =>
    rcases hset : (cacheSet c.deployment c.hash c.caller.namespace c.operationHash
      (newRecord c.operationHash c.cacheVersion providerResult createdAt) now).exec s.db
      with ⟨e | u, db⟩ <;> rw [CacheState.apply, hset]
    · rw [clean_cacheSet hset]
      exact h
    · intro r hr
      rcases (of_cacheSet hset).2 r hr with ⟨hkey, hrecord⟩ | ⟨hkey, hold⟩
      · refine ⟨c, ?_, hkey.symm, ?_⟩
        · rw [hkey]
          exact Function.update_self c.key (some c) s.writer
        · rw [hrecord]
          exact ⟨rfl, rfl⟩
      · obtain ⟨c', hwriter, hc'⟩ := h r hold
        have hother : (s.wrote c (.ok u, db)).writer r.key = s.writer r.key :=
          Function.update_of_ne hkey _ _
        exact ⟨c', hother.trans hwriter, hc'⟩

theorem written_after (db : Database) (events : List (CacheEvent A sha256 toUpper)) :
    (after db events).Written := by
  have hrun (s : CacheState A sha256 toUpper) (h : s.Written) : (events.foldl apply s).Written := by
    induction events generalizing s with
    | nil => exact h
    | cons event rest ih => exact ih _ (h.apply event)
  refine hrun _ fun r hr => ?_
  cases hr

end CacheState

/-- The namespace of a run is that of what was resolved for it. -/
theorem namespace_of_resolveRun {input : RunInput} {r : ResolvedRun A}
    (h : ((resolveRun d sha256 hash input).exec db).1 = .ok r) :
    r.cacheNamespace = cacheNamespace sha256 r.connections r.revisions r.labels := by
  obtain ⟨policy, -, h⟩ := Op.ReadOnly.of_exec_bind_lift h
  obtain ⟨leaves, -, h⟩ := Op.ReadOnly.of_exec_bind_lift h
  obtain ⟨_, -, h⟩ := Op.ReadOnly.of_exec_bind_lift h
  obtain ⟨profiles, -, h⟩ := Op.of_exec_bind h
  split at h
  · cases h
  · obtain ⟨_, -, h⟩ := Op.ReadOnly.of_exec_bind_lift h
    obtain ⟨_, -, h⟩ := Op.ReadOnly.of_exec_bind_lift h
    obtain ⟨_, -, h⟩ := Op.ReadOnly.of_exec_bind_lift h
    cases h
    rfl

/-- **Callers that share a namespace** have the same labels and
connections. -/
theorem Caller.of_namespace_eq (hsha : Function.Injective sha256) {d' : Deployment A}
    {hash' : String} {x : Caller d sha256 hash} {y : Caller d' sha256 hash'} (h : x.namespace = y.namespace) :
    Option.Rel (fun l l' => ∀ id, l.get? id = l'.get? id) x.labels y.labels
      ∧ ∀ id, Option.Rel (fun c c' => c.Alike c'
          ∧ revisionOf x.revisions id = revisionOf y.revisions id)
        (x.connections.get? id) (y.connections.get? id) := by
  cases x with
  | run input r resolved =>
    obtain ⟨db, hr⟩ := resolved
    simp only [Caller.namespace, namespace_of_resolveRun hr] at h
    cases y with
    | run input' r' resolved' =>
      obtain ⟨db', hr'⟩ := resolved'
      simp only [namespace_of_resolveRun hr'] at h
      obtain ⟨hcredentials, hlabels⟩ := of_cacheNamespace_eq hsha h
      exact ⟨.some hlabels, of_credentialNamespace_eq hsha hcredentials⟩
    | client => exact absurd h (cacheNamespace_ne_credentialNamespace hsha)
  | client =>
    cases y with
    | run input' r' resolved' =>
      obtain ⟨db', hr'⟩ := resolved'
      simp only [namespace_of_resolveRun hr', Caller.namespace] at h
      exact absurd h.symm (cacheNamespace_ne_credentialNamespace hsha)
    | client => exact ⟨.none, of_credentialNamespace_eq hsha h⟩

/-- **Calls that share a row and a version** are the same for the
cache. -/
theorem alike_of_key_eq (hsha : Function.Injective sha256) {c c' : Call A sha256 toUpper}
    (h : c.key = c'.key) (hversion : c.cacheVersion = c'.cacheVersion) : c.Alike c' := by
  obtain ⟨hhash, hid⟩ := Prod.mk.inj h
  obtain ⟨hnamespace, hoperation⟩ := Prod.mk.inj (toLex.injective hid)
  obtain ⟨hlabels, hconnections⟩ := Caller.of_namespace_eq hsha hnamespace
  obtain ⟨bytes, hbytes, hdigest⟩ := map_eq_ok.1 c.hashed
  obtain ⟨bytes', hbytes', hdigest'⟩ := map_eq_ok.1 c'.hashed
  have hsame : bytes = bytes' := hsha (hdigest.trans (hoperation.trans hdigest'.symm))
  obtain ⟨o, o', ho, ho', -, -, hsame, -⟩ :=
    Cachekey.hashInput_eq_iff.1 ⟨bytes, hbytes, hsame ▸ hbytes'⟩
  exact ⟨hhash, hlabels, hconnections, ⟨o, o', ho, ho', hsame⟩, hversion⟩

namespace Sample

/-- A digest without collisions: the bytes themselves. -/
def digest (bytes : ByteArray) : String :=
  String.ofList (bytes.data.toList.map fun b => Char.ofNat b.toNat)

theorem digest_injective : Function.Injective digest := by
  have hbyte : Function.Injective fun b : UInt8 => Char.ofNat b.toNat := by
    intro b b' h
    have hvalid : ∀ n < 256, (Char.ofNat n).toNat = n := by decide +kernel
    have := congrArg Char.toNat h
    simp only [hvalid _ b.toNat_lt, hvalid _ b'.toNat_lt] at this
    exact UInt8.toNat_inj.1 this
  intro bytes bytes' h
  have hlist := map_injective_iff.2 hbyte (String.ofList_injective h)
  exact ByteArray.ext (Array.toList_inj.1 hlist)

def upstream : Connection Unit where
  id := "upstream"
  provider := "provider"
  protocol := "responses"
  baseURL := "https://upstream"
  apiKey := "key"

/-- A deployment with one preset that uses one upstream. -/
def deployment : Deployment Unit where
  presets := Dict.empty.put "preset" ⟨"Preset", .null, .null, ⟨.deployment, "upstream", ""⟩⟩
  connections := Dict.empty.put "upstream" upstream
  vault := none
  historyEnabled := false
  cacheTTL := 10
  check := fun _ _ => true
  parseDefinition := fun _ =>
    .ok ⟨"provider", "responses", "https://upstream", "model", none, none, .null⟩
  validateSnapshot := .ok
  snapshot := fun input _ id => .ok (input, id, input.name)
  validateProfileName := fun _ => true
  parseUUID := fun _ => false
  parseURL := fun _ => some { scheme := "https", host := "upstream", hostname := "upstream" }
  toLower := id
  encodeBase64 := digest
  decodeBase64 := fun _ => none
  encodeBundle := fun _ => ""
  decodeBundle := fun _ => none
  unsafePersistedField := fun _ => false
  decodeSummary := fun _ => none
  encodeSummary := fun _ => .null
  validatedHistoryAccounting := fun _ => .error historyRecordInvalid
  scan := id
  decodePolicy := fun _ => .ok { rest := .null }
  decodeTarget := fun _ => none
  corePolicy := fun _ _ => .ok .null
  request := fun _ _ _ => .ok .null

def database : Database := fun _ => .empty

def input : RunInput := { profileID := "preset", recoveryPolicy := .null, rest := .null }

/-- What is resolved for a run of the preset. -/
def resolved : ResolvedRun Unit :=
  let connections := Dict.empty.put "generation" { upstream with id := "generation" }
  let labels := Dict.empty.put "generation" "preset"
  let revisions := Dict.empty.put "generation" 0
  ⟨.null, connections, labels, revisions, cacheNamespace digest connections revisions labels⟩

theorem resolveRun_resolved :
    ((resolveRun deployment digest "scope" input).exec database).1 = .ok resolved := by
  rfl

def operation : Cachekey.Operation where
  schemaVersion := Cachekey.operationSchemaVersion
  protocol := "openai.responses"
  endpoint := { identity := "https://upstream", method := "POST", path := "/responses" }
  model := "m"
  payload := .map none [("model", .string "m")]
  responseProjection := { provider := "openai", kind := "text", version := "v1" }

/-- The document of the operation. -/
def document : Json :=
  match operation.document id with
  | .ok document => document
  | .error _ => .null

/-- The key of the operation. -/
def operationHash : String :=
  digest (Cachekey.keyDocument document Cachekey.defaultVersion).canonical.encode.toUTF8

theorem hash_operation :
    Cachekey.hash id digest operation Cachekey.defaultVersion = .ok operationHash := by
  have hok : (operation.document id).isOk = true := by decide +kernel
  obtain ⟨encoded, hencoded⟩ := exists_of_isOk hok
  have hdocument : operation.document id = .ok document := by simp only [document, hencoded]
  have hdepth : document.depth < Json.maxNestingDepth := by decide +kernel
  exact map_eq_ok.2 ⟨_, Cachekey.hashInput_ok.2 ⟨document, hdocument, hdepth, rfl⟩, rfl⟩

def call : Call Unit digest id where
  deployment := deployment
  hash := "scope"
  caller := .run input resolved ⟨database, resolveRun_resolved⟩
  operation := operation
  cacheVersion := Cachekey.defaultVersion
  operationHash := operationHash
  hashed := hash_operation

def events : List (CacheEvent Unit digest id) := [.write call .null 0 0]

end Sample

end HardenLlm.Stateful
