import HardenLlm.Stateful.Model.Resolve
import HardenLlm.Stateful.Records
/-!
# Isolation of scopes

Every operation of the service is confined to the scope it is called with:
it returns the same from any two databases that have the same rows there,
and it leaves the rows of every other scope as they are. The connections
of a run have credentials of the deployment or of the scope, each for the
origin that it is used with.
-/

namespace HardenLlm.Stateful

open Op.ReadOnly

open Bindings
open Schema (Within)
open HardenLlm.Client (CacheRecord)
open HardenLlm.Runtime (Amounts)
open HardenLlm.Gateway (TrackingRecord)

variable {A : Type} {d : Deployment A} {hash id : String} {sha256 : ByteArray → String}

/-! ## Runs -/

theorem within_runDraftTx : Within hash (runDraftTx d hash id) := by
  unfold runDraftTx
  split
  · exact .pure _
  · exact within_profileDraftTx

theorem within_loadProfiles {loaded : Dict String (ResolvedProfile A)} {ids : List String} :
    Within hash (loadProfiles d hash loaded ids) := by
  induction ids generalizing loaded with
  | nil => exact .pure _
  | cons id rest ih =>
    exact .bind (.bind within_runDraftTx fun _ => within_resolveDraftTx) fun _ => ih

theorem within_resolveRun {input : RunInput} : Within hash (resolveRun d sha256 hash input) := by
  refine .bind (.lift _) fun _ => .bind (.lift _) fun _ => .bind (.ensure _ _) fun _ => ?_
  refine .bind (.stored within_loadProfiles) fun profiles => ?_
  split
  · exact .lift _
  · refine .bind (.lift _) fun _ => .bind (.lift _) fun _ => ?_
    exact .returns (.lift _)

/-! ## Credentials -/

/-- **A connection may be used by a scope**: its credential is one that the
deployment has for the origin of its address, or one that the scope has
stored for it. -/
def Connection.Authorized (d : Deployment A) (db : Database) (hash : String) (c : Connection A) :
    Prop :=
  ∃ origin, d.originForURL c.baseURL = some origin
    ∧ ((∃ upstream loaded, d.connections.get? upstream = some loaded
          ∧ d.originForURL loaded.baseURL = some origin
          ∧ c.apiKey = loaded.apiKey ∧ c.headers = loaded.headers)
      ∨ ∃ vault payload, ∃ row : CredentialRow, d.vault = some vault ∧ row ∈ (db .credentials).rows
          ∧ row.hash = hash ∧ row.origin = origin
          ∧ vault.opens row.toRecord.encrypted row.toRecord.binding = some payload
          ∧ c.apiKey = payload.apiKey ∧ c.headers = payload.headers)

variable {db : Database}

theorem authorized_of_deployment {origin upstream : String} {c c' : Connection A}
    (hc : d.originForURL c.baseURL = some origin)
    (h : withDeploymentCredential d origin upstream c = .ok c') : c'.Authorized d db hash := by
  unfold withDeploymentCredential at h
  split at h
  · cases h
  · rename_i loaded hloaded
    split at h
    · cases h
    · rename_i horigin
      cases h
      rw [not_or, not_not] at horigin
      exact ⟨origin, hc, .inl ⟨upstream, loaded, hloaded, horigin.2, rfl, rfl⟩⟩

/-- What opens a stored record is a row of the scope. -/
theorem authorized_of_entered {origin : String} {candidate : Option CredentialRecord}
    {c c' : Connection A} {revision : ℤ} (hc : d.originForURL c.baseURL = some origin)
    (hread : ((readCredentialTx hash id).exec db).1 = .ok candidate)
    (h : withEnteredCredential d ⟨hash, id, origin⟩ candidate c = .ok (c', revision)) :
    c'.Authorized d db hash := by
  obtain ⟨rows, hrows, hread⟩ := (reads _).of_exec_bind hread
  have hread : candidate = rows.head?.map (·.toRecord) := (Except.ok.inj hread).symm
  unfold withEnteredCredential at h
  split at h
  · cases h
  · rename_i record
    obtain ⟨row, hhead, rfl⟩ := Option.map_eq_some_iff.1 hread.symm
    have hmem := ((Schema.mem_of_exec_selectFrom hrows).1 (List.mem_of_head? hhead)).1
    split at h
    · cases h
    · rename_i hbinding
      rw [not_not] at hbinding
      obtain ⟨payload, hpayload, h⟩ := bind_eq_ok.1 h
      cases h
      unfold openRecord at hpayload
      split at hpayload
      · rename_i opened hopened
        cases hpayload
        obtain ⟨vault, hvault, hopens⟩ := Option.bind_eq_some_iff.1 hopened
        have hhash : row.hash = hash := congrArg CredentialBinding.apiKeyHash hbinding
        have horigin : row.origin = origin := congrArg CredentialBinding.origin hbinding
        exact ⟨origin, hc, .inr ⟨vault, _, row, hvault, hmem, hhash, horigin, hbinding ▸ hopens,
          rfl, rfl⟩⟩
      · cases hpayload

theorem readOnly_joinedRevision {p : ProfileRow} : (joinedRevision p).ReadOnly :=
  .bind (.reads _) fun _ => .lift _

theorem readOnly_profileDraftTx : (profileDraftTx d hash id).ReadOnly := by
  unfold profileDraftTx
  split
  · exact .bind (.reads _) fun _ => .bind (.lift _) fun _ => .lift _
  · refine .bind (.lift _) fun _ => .bind (.reads _) fun rows => ?_
    split
    · exact .lift _
    · exact .bind readOnly_joinedRevision fun _ => .lift _

theorem readOnly_runDraftTx : (runDraftTx d hash id).ReadOnly := by
  unfold runDraftTx
  split
  · exact .lift _
  · exact readOnly_profileDraftTx

theorem readOnly_resolveDraftTx {draft : ProfileDraft} :
    (resolveDraftTx d hash draft none).ReadOnly := by
  refine .bind (.lift _) fun definition => ?_
  split
  · exact .lift _
  · split
    · exact .bind (.lift _) fun _ => .lift _
    · exact .bind (.bind (.reads _) fun _ => .lift _) fun _ => .bind (.lift _) fun _ => .lift _
    · exact .lift _

/-- **The connection that a draft is executed on may be used.** -/
theorem authorized_of_resolveDraftTx {draft : ProfileDraft} {profile : ResolvedProfile A}
    (h : ((resolveDraftTx d hash draft none).exec db).1 = .ok profile) :
    profile.connection.Authorized d db hash := by
  obtain ⟨definition, -, h⟩ := of_exec_bind_lift h
  split at h
  · cases h
  · rename_i origin horigin
    split at h
    · obtain ⟨c, hc, h⟩ := of_exec_bind_lift h
      cases h
      exact authorized_of_deployment (c := definition.connection) horigin hc
    · obtain ⟨candidate, hread, h⟩ :=
        of_exec_bind (.bind (.reads _) fun _ => .lift _) h
      obtain ⟨⟨c, revision⟩, hc, h⟩ := of_exec_bind_lift h
      cases h
      exact authorized_of_entered (c := definition.connection) horigin hread hc
    · cases h

theorem authorized_of_loadProfiles {loaded profiles : Dict String (ResolvedProfile A)}
    {ids : List String} (h : ((loadProfiles d hash loaded ids).exec db).1 = .ok profiles)
    (hloaded : ∀ id p, loaded.get? id = some p → p.connection.Authorized d db hash) :
    ∀ id p, profiles.get? id = some p → p.connection.Authorized d db hash := by
  induction ids generalizing loaded with
  | nil =>
    cases h
    exact hloaded
  | cons id rest ih =>
    have hread : (loadProfile d hash id).ReadOnly :=
      .bind readOnly_runDraftTx fun _ => readOnly_resolveDraftTx
    obtain ⟨profile, hprofile, h⟩ := hread.of_exec_bind h
    obtain ⟨draft, -, hprofile⟩ := readOnly_runDraftTx.of_exec_bind hprofile
    refine ih h fun id' p hp => ?_
    rw [Dict.get?_put] at hp
    split at hp
    · cases hp
      exact authorized_of_resolveDraftTx hprofile
    · exact hloaded id' p hp

/-- A target of the policy adds the connection of a loaded profile. -/
theorem authorized_of_rewriteTargets {profiles : Dict String (ResolvedProfile A)}
    (hprofiles : ∀ id p, profiles.get? id = some p → p.connection.Authorized d db hash)
    {connections connections' : Dict String (Connection A)} {leaves : List Leaf}
    {rewritten : List CoreTarget}
    (h : rewriteTargets d profiles connections leaves = .ok (rewritten, connections'))
    (hc : ∀ id c, connections.get? id = some c → c.Authorized d db hash) :
    ∀ id c, connections'.get? id = some c → c.Authorized d db hash := by
  induction leaves generalizing connections rewritten with
  | nil =>
    cases h
    exact hc
  | cons leaf rest ih =>
    obtain ⟨⟨target, connection⟩, htarget, h⟩ := bind_eq_ok.1 h
    obtain ⟨⟨rewritten', connections''⟩, hrest, h⟩ := bind_eq_ok.1 h
    cases h
    refine ih hrest fun id c hid => ?_
    cases connection with
    | none => exact hc id c hid
    | some =>
      rw [Dict.get?_put] at hid
      split at hid
      · cases hid
        unfold rewriteTarget at htarget
        split at htarget
        · simp only [bind_eq_ok] at htarget
          obtain ⟨_, _, htarget⟩ := htarget
          cases htarget
        · simp only [bind_eq_ok] at htarget
          obtain ⟨_, _, profile, hprofile, definition, _, htarget⟩ := htarget
          cases htarget
          exact hprofiles _ profile (found_eq_ok.1 hprofile)
      · exact hc id c hid

/-- **Every connection of a run may be used.** -/
theorem authorized_of_resolveRun {input : RunInput} {run : ResolvedRun A}
    (h : ((resolveRun d sha256 hash input).exec db).1 = .ok run) :
    ∀ id c, run.connections.get? id = some c → c.Authorized d db hash := by
  obtain ⟨policy, -, h⟩ := of_exec_bind_lift h
  obtain ⟨leaves, -, h⟩ := of_exec_bind_lift h
  obtain ⟨_, -, h⟩ := of_exec_bind_lift h
  obtain ⟨profiles, hprofiles, h⟩ := Op.of_exec_bind h
  have hload := authorized_of_loadProfiles
    (Op.of_exec_atomically (Op.of_exec_mapError hprofiles)) (by simp [Dict.get?_empty])
  split at h
  · cases h
  · rename_i generation hgeneration
    obtain ⟨⟨rewritten, connections⟩, hrewrite, h⟩ := of_exec_bind_lift h
    obtain ⟨core, -, h⟩ := of_exec_bind_lift h
    obtain ⟨request, -, h⟩ := of_exec_bind_lift h
    cases h
    refine authorized_of_rewriteTargets hload hrewrite fun id c hc => ?_
    rw [Dict.get?_put] at hc
    split at hc
    · cases hc
      exact hload _ generation hgeneration
    · cases hc

/-! ## Operations -/

/-- **An operation of the reference service**, with what its surroundings
answer. -/
inductive Operation (A : Type)
  | listProfiles
  | getProfile (id : String)
  | saveProfile (input : SaveProfileInput) (w : Saving A)
  | deleteProfile (id : String) (now : ℤ)
  | exportBundle (newID : Option String) (now : ℤ)
  | replaceBundle (data : String) (w : Replacing A)
  | getDraft (key : String) (now : ℤ)
  | saveDraft (key : String) (input : SaveDraftInput) (now : ℤ)
  | cacheGet (ns key : String) (now : ℤ)
  | cacheSet (ns key : String) (record : CacheRecord) (now : ℤ)
  | cacheDelete (ns key : String)
  | insertHistory (r : HistoryRecord)
  | getHistory (id : String)
  | listHistory (q : HistoryQuery) (now : ℤ)
  | historyUsage
  | statistics (q : HistoryQuery) (now : ℤ)
  | deleteHistory (artifacts : String → Except Failure Unit) (id : String)
  | clearHistory (artifacts : String → Except Failure Unit) (q : HistoryQuery) (now : ℤ)
  | reserveTracking (r : TrackingRecord) (now : ℤ)
  | updateTracking (r : TrackingRecord) (now : ℤ)
  | lookupTracking (id : String) (now : ℤ)
  | resolveRun (input : RunInput)

/-- What an operation returns. -/
inductive Answer (A : Type)
  | done
  | views (views : List ProfileView)
  | view (view : ProfileView)
  | profile (draft : ProfileDraft)
  | bundle (data : String)
  | draft (draft : Draft)
  | cached (record : Option CacheRecord)
  | record (record : HistoryRecord)
  | page (page : HistoryPage)
  | usage (rows : ℕ) (bytes : ℤ)
  | statistics (s : Statistics A)
  | cleared (result : ClearResult)
  | tracked (record : TrackingRecord)
  | run (run : ResolvedRun A)

/-- An answer without the size of the whole table. -/
def Answer.scoped : Answer A → Answer A
  | .usage rows _ => .usage rows 0
  | answer => answer

section Perform

variable [Amounts A] (d : Deployment A) (sha256 : ByteArray → String)
  (tableBytes : Table (schema.key .history) → ℤ) (hash : String)

/-- What the service does when it is called with a hash. -/
def perform : Operation A → Action (Answer A)
  | .listProfiles => return .views (← listProfiles d hash)
  | .getProfile id => return .profile (← getProfile d hash id)
  | .saveProfile input w => return .view (← saveProfile d hash input w)
  | .deleteProfile id now => do deleteProfile d hash id now; return .done
  | .exportBundle newID now => return .bundle (← exportBundle d hash newID now)
  | .replaceBundle data w => do replaceBundle d hash data w; return .done
  | .getDraft key now => return .draft (← getDraft hash key now)
  | .saveDraft key input now => return .draft (← saveDraft d hash key input now)
  | .cacheGet ns key now => return .cached (← cacheGet hash ns key now)
  | .cacheSet ns key record now => do cacheSet d hash ns key record now; return .done
  | .cacheDelete ns key => do cacheDelete hash ns key; return .done
  | .insertHistory r => do insertHistory d hash r; return .done
  | .getHistory id => return .record (← getHistory d hash id)
  | .listHistory q now => return .page (← listHistory d hash q now)
  | .historyUsage => do
    let (rows, bytes) ← historyUsage d tableBytes hash
    return .usage rows bytes
  | .statistics q now => return .statistics (← statistics d hash q now)
  | .deleteHistory artifacts id => do deleteHistory d artifacts hash id; return .done
  | .clearHistory artifacts q now => return .cleared (← clearHistory d artifacts hash q now)
  | .reserveTracking r now => do reserveTracking d hash r now; return .done
  | .updateTracking r now => do updateTracking d hash r now; return .done
  | .lookupTracking id now => return .tracked (← lookupTracking hash id now)
  | .resolveRun input => return .run (← resolveRun d sha256 hash input)

/-- What is returned, without the size of the whole table. -/
def answered (op : Operation A) (db : Database) : Except Failure (Answer A) :=
  ((perform d sha256 tableBytes hash op).exec db).1.map Answer.scoped

end Perform

variable [Amounts A] {sha256 : ByteArray → String}
  {tableBytes : Table (schema.key .history) → ℤ}

/-- Every operation but the usage figures is confined as it is. -/
theorem within_perform {op : Operation A} (hop : op ≠ .historyUsage) :
    Within hash (perform d sha256 tableBytes hash op) := by
  cases op with
  | listProfiles => exact within_listProfiles.returns
  | getProfile => exact within_getProfile.returns
  | saveProfile => exact within_saveProfile.returns
  | deleteProfile => exact within_deleteProfile.returns
  | exportBundle => exact within_exportBundle.returns
  | replaceBundle => exact within_replaceBundle.returns
  | getDraft => exact within_getDraft.returns
  | saveDraft => exact within_saveDraft.returns
  | cacheGet => exact within_cacheGet.returns
  | cacheSet => exact within_cacheSet.returns
  | cacheDelete => exact within_cacheDelete.returns
  | insertHistory => exact within_insertHistory.returns
  | getHistory => exact within_getHistory.returns
  | listHistory => exact within_listHistory.returns
  | historyUsage => exact absurd rfl hop
  | statistics => exact within_statistics.returns
  | deleteHistory => exact within_deleteHistory.returns
  | clearHistory => exact within_clearHistory.returns
  | reserveTracking => exact within_reserveTracking.returns
  | updateTracking => exact within_updateTracking.returns
  | lookupTracking => exact within_lookupTracking.returns
  | resolveRun => exact within_resolveRun.returns

/-- The usage figures, without the size of the table, are the number of
the scope's rows. -/
theorem answered_historyUsage {db : Database} :
    answered d sha256 tableBytes hash .historyUsage db
      = ((historyCount d hash).exec db).1.map (.usage · 0) := by
  simp only [answered, perform, historyUsage, Op.exec_bind]
  rcases (historyCount d hash).exec db with ⟨e | rows, db'⟩ <;> rfl

theorem readOnly_perform_historyUsage : (perform d sha256 tableBytes hash .historyUsage).ReadOnly :=
  .bind (.bind (.bind (.lift _) fun _ => .bind (.reads _) fun _ => .lift _)
    fun _ => .bind (.reads _) fun _ => .lift _) fun _ => .lift _

/-- **Scopes are isolated.** What an operation answers depends on the rows
of its own scope only, it changes no row of another, and what a run
connects with is authorized. -/
theorem scopes_isolated (d : Deployment A) (sha256 : ByteArray → String)
    (tableBytes : Table (schema.key .history) → ℤ) (hash : String) (op : Operation A)
    (db : Database) :
    (∀ db', Schema.Agree hash db db' →
        answered d sha256 tableBytes hash op db = answered d sha256 tableBytes hash op db'
        ∧ Schema.Agree hash ((perform d sha256 tableBytes hash op).exec db).2
            ((perform d sha256 tableBytes hash op).exec db').2)
      ∧ Schema.Elsewhere hash db ((perform d sha256 tableBytes hash op).exec db).2
      ∧ ∀ input run, ((resolveRun d sha256 hash input).exec db).1 = .ok run →
          ∀ id c, run.connections.get? id = some c → c.Authorized d db hash := by
  refine ⟨fun db' h => ?_, ?_, fun input run hrun => authorized_of_resolveRun hrun⟩
  · by_cases hop : op = .historyUsage
    · subst hop
      rw [readOnly_perform_historyUsage db, readOnly_perform_historyUsage db',
        answered_historyUsage, answered_historyUsage, within_historyCount.result db db' h]
      exact ⟨rfl, h⟩
    · have hwithin : Within hash (perform d sha256 tableBytes hash op) := within_perform hop
      exact ⟨congrArg (Except.map Answer.scoped) (hwithin.result db db' h), hwithin.state db db' h⟩
  · by_cases hop : op = .historyUsage
    · subst hop
      rw [readOnly_perform_historyUsage db]
      exact refl_of (Schema.Elsewhere hash) db
    · exact (within_perform hop).frame db

end HardenLlm.Stateful
