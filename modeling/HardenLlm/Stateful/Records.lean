import HardenLlm.Stateful.Model.Records
import HardenLlm.Stateful.Profiles
/-!
# Drafts, cached results, history and tracked requests of one scope

What the service does with the other tables is confined to the scope it is
called with, the bounded cleanups included, and clearing the history
deletes what it reports.
-/

namespace HardenLlm.Stateful

open Schema (Within)
open HardenLlm.Client (CacheRecord)
open HardenLlm.Runtime (Amounts)
open HardenLlm.Gateway (TrackingRecord)

variable {A : Type} {d : Deployment A} {hash : String}

/-! ## Drafts and cached results -/

variable {now : ℤ} {key : String}

theorem within_getDraft : Within hash (getDraft hash key now) := by
  refine .after fun _ => .after fun _ => .stored ?_
  refine .bind (Within.selectFrom fun _ => of_and_left of_decide_and) fun rows => ?_
  split <;> exact .pure _

theorem within_expiredDrafts : Within hash (expiredDrafts hash now) :=
  .returns (Within.selectFrom fun _ => of_decide_and)

theorem within_upsertDraftTx {input : SaveDraftInput} :
    Within hash (upsertDraftTx d hash key input now) := by
  refine .bind (Within.selectFrom fun _ => of_and_left (of_and_left of_decide_and)) fun current => ?_
  split
  · refine .after fun _ => .bind (Within.insertInto rfl) fun added => ?_
    split
    · exact .pure _
    · refine .bind (Within.updateIn (fun _ => of_and_left of_decide_and) _) fun affected => ?_
      exact .returns (Within.selectFrom fun _ => of_decide_and)
  · exact .pure _

theorem within_draftConflictTx : Within hash (draftConflictTx hash key now) :=
  .bind (Within.selectFrom fun _ => of_and_left of_decide_and) fun _ => .lift _

theorem within_saveDraft {input : SaveDraftInput} :
    Within hash (saveDraft d hash key input now) := by
  refine .after fun _ => .after fun _ => .after fun _ => .stored ?_
  refine .bind within_expiredDrafts fun expired => .bind (Within.deleteFrom fun _ => of_decide_and)
    fun _ => .bind within_upsertDraftTx fun saved => ?_
  split
  · exact .pure _
  · exact within_draftConflictTx

theorem within_cacheGet {ns key : String} : Within hash (cacheGet hash ns key now) := by
  refine .mapError (.returns (Within.selectFrom fun _ => ?_)) _
  exact of_and_left (of_and_left of_decide_and)

theorem within_expiredEntries : Within hash (expiredEntries hash now) :=
  .returns (Within.selectFrom fun _ => of_decide_and)

theorem within_cacheSet {ns key : String} {record : CacheRecord} :
    Within hash (cacheSet d hash ns key record now) := by
  refine .stored (.bind within_expiredEntries fun expired => ?_)
  refine .bind (Within.deleteFrom fun _ => of_decide_and) fun _ => .after fun _ => ?_
  refine .bind (Within.insertInto rfl) fun added => ?_
  split
  · exact .pure _
  · exact .returns (Within.updateIn (fun _ => of_and_left of_decide_and) _)

theorem within_cacheDelete {ns key : String} : Within hash (cacheDelete hash ns key) :=
  .stored (.returns (Within.deleteFrom fun _ => of_and_left of_decide_and))

/-! ## History -/

theorem within_insertHistory {r : HistoryRecord} : Within hash (insertHistory d hash r) :=
  .after fun _ => .after fun _ => .atomically (within_insertRow rfl)

variable {id : String}

theorem within_getHistory : Within hash (getHistory d hash id) := by
  refine .after fun _ => .after fun _ => ?_
  refine .bind (Within.selectFrom fun _ => of_decide_and) fun rows => ?_
  split <;> exact .lift _

/-- The one predicate on windows asks for the scope. -/
theorem scope_of_historyFilter {w : Window} {r : HistoryRow} (h : historyFilter hash w r = true) :
    r.hash = hash := by
  simp only [historyFilter, Bool.and_eq_true, decide_eq_true_eq] at h
  exact h.1.1

variable {q : HistoryQuery} {artifacts : String → Except Failure Unit} {result : ClearResult}

theorem within_listHistory : Within hash (listHistory d hash q now) := by
  refine .after fun _ => .after fun w => ?_
  exact .bind (Within.selectFrom fun _ => scope_of_historyFilter) fun _ => .after fun _ => .pure _

theorem within_historyCount : Within hash (historyCount d hash) :=
  .after fun _ => .returns (Within.selectFrom fun _ => of_decide_eq_true)

theorem within_statistics [Amounts A] : Within hash (statistics d hash q now) := by
  refine .after fun _ => .after fun w => ?_
  exact .bind (Within.selectFrom fun _ => scope_of_historyFilter) fun _ => .lift _

theorem within_deleteHistoryRun : Within hash (deleteHistoryRun artifacts hash id) :=
  .after fun _ => .stored (.returns (Within.deleteFrom fun _ => of_decide_and))

theorem within_deleteHistory : Within hash (deleteHistory d artifacts hash id) :=
  .bind within_getHistory fun _ => within_deleteHistoryRun

theorem within_clearBatch {ids : List String} :
    Within hash (clearBatch artifacts hash result ids) := by
  induction ids generalizing result with
  | nil => exact .pure _
  | cons id rest ih =>
    refine .bind within_deleteHistoryRun.attempt fun outcome => ?_
    split
    · exact ih
    · exact .pure _

theorem within_clearBatches {w : Window} {fuel : ℕ} :
    Within hash (clearBatches artifacts hash w fuel result) := by
  induction fuel generalizing result with
  | zero => exact .pure _
  | succ fuel ih =>
    refine .bind ?_ fun ids => ?_
    · exact .returns (Within.selectFrom fun _ => scope_of_historyFilter)
    split
    · exact .pure _
    · refine .bind within_clearBatch fun result => ?_
      split
      · exact .pure _
      · exact ih

theorem within_clearHistory : Within hash (clearHistory d artifacts hash q now) := by
  refine .after fun _ => .after fun w => ?_
  exact .bind (Within.selectFrom fun _ => scope_of_historyFilter) fun _ => within_clearBatches

/-! ## Clearing is exact -/

section Clearing

open List

variable {w : Window} {db db' db'' : Database} {runs runs' ids : List String} {id x : String}
  {result' result'' : ClearResult}

/-- The database without a run. -/
def withoutRun (hash : String) (db : Database) (id : String) : Database :=
  ((deleteHistoryRun (fun _ => .ok ()) hash id).exec db).2

/-- The runs of a window. -/
def runsOf (hash : String) (w : Window) (db : Database) : List String :=
  ((db .history).rows.filter (historyFilter hash w)).map HistoryRow.runID

theorem mem_runsOf : id ∈ runsOf hash w db ↔
    ∃ r : HistoryRow, (r ∈ (db .history).rows ∧ historyFilter hash w r = true) ∧ r.runID = id :=
  mem_map.trans (exists_congr fun _ => and_congr_left' mem_filter)

/-- A run has one row. -/
theorem nodup_runsOf : (runsOf hash w db).Nodup := by
  have hkeys := Table.nodup_selected (t := db .history) (p := historyFilter hash w)
    fun _ => scope_of_historyFilter
  rwa [map_map] at hkeys

theorem mem_runsOf_withoutRun :
    x ∈ runsOf hash w (withoutRun hash db id) ↔ x ∈ runsOf hash w db ∧ x ≠ id := by
  have hrow {r : HistoryRow} : r ∈ (withoutRun hash db id .history).rows
      ↔ r ∈ (db .history).rows ∧ (r.hash = hash && r.runID = id) = false :=
    Schema.mem_of_exec_deleteFrom (ε := Failure) rfl
  simp only [mem_runsOf, hrow]
  grind [scope_of_historyFilter]

/-- **Some runs of the window were cleared**, one after the other, each
after its artifacts; a run that failed is left. -/
structure Clears (artifacts : String → Except Failure Unit) (hash : String) (w : Window)
    (result : ClearResult) (db : Database) (runs : List String) (result' : ClearResult)
    (db' : Database) : Prop where
  left : (runs ++ runsOf hash w db').Perm (runsOf hash w db)
  state : db' = runs.foldl (withoutRun hash) db
  removed : ∀ id ∈ runs, artifacts id = .ok ()
  deleted : result'.deleted = result.deleted + runs.length
  failed : ∀ id e, result'.failed = some (id, e) → result.failed = none →
    id ∈ runsOf hash w db' ∧ artifacts id = .error e

theorem Clears.trans (h : Clears artifacts hash w result db runs result' db')
    (h' : Clears artifacts hash w result' db' runs' result'' db'') (hok : result'.failed = none) :
    Clears artifacts hash w result db (runs ++ runs') result'' db'' where
  left := by
    rw [append_assoc]
    exact (h'.left.append_left _).trans h.left
  state := by rw [foldl_append, ← h.state, h'.state]
  removed := forall_mem_append.2 ⟨h.removed, h'.removed⟩
  deleted := by rw [h'.deleted, h.deleted, length_append, Nat.add_assoc]
  failed id e hfailed _ := h'.failed id e hfailed hok

variable (artifacts result)

theorem clearBatch_clears (hnew : result.failed = none) (hnodup : ids.Nodup)
    (hids : ids ⊆ runsOf hash w db) :
    ∃ runs result' db', (clearBatch artifacts hash result ids).exec db = (.ok result', db')
      ∧ Clears artifacts hash w result db runs result' db' ∧ result'.complete = result.complete
      ∧ (result'.failed = none → runs = ids) := by
  induction ids generalizing result db with
  | nil =>
    exact ⟨[], result, db, rfl, ⟨.refl _, rfl, nofun, rfl, by simp [hnew]⟩, rfl, fun _ => rfl⟩
  | cons id rest ih =>
    obtain ⟨hid, hrest⟩ := cons_subset.1 hids
    rw [clearBatch, Op.exec_bind, deleteHistoryRun]
    cases hartifacts : artifacts id with
    | error e =>
      refine ⟨[], { result with failed := some (id, e) }, db, rfl, ⟨.refl _, rfl, nofun, rfl, ?_⟩,
        rfl, nofun⟩
      rintro _ _ ⟨⟩ -
      exact ⟨hid, hartifacts⟩
    | ok =>
      have hone : Clears artifacts hash w result db [id]
          { result with deleted := result.deleted + 1 } (withoutRun hash db id) := by
        refine ⟨?_, rfl, by simpa using hartifacts, rfl, by simp [hnew]⟩
        refine (perm_ext_iff_of_nodup (nodup_cons.2 ⟨?_, nodup_runsOf⟩) nodup_runsOf).2 fun x => ?_
        · simp [mem_runsOf_withoutRun]
        · by_cases hx : x = id <;> simp [mem_runsOf_withoutRun, hx, hid]
      obtain ⟨hnotin, hnodup⟩ := nodup_cons.1 hnodup
      obtain ⟨runs, result', db', hexec, hclears, hcomplete, hall⟩ :=
        @ih { result with deleted := result.deleted + 1 } (withoutRun hash db id) hnew hnodup
          fun x hx => mem_runsOf_withoutRun.2 ⟨hrest hx, fun heq => hnotin (heq ▸ hx)⟩
      exact ⟨id :: runs, result', db', hexec, hone.trans hclears hnew, hcomplete,
        fun hok => congrArg _ (hall hok)⟩

/-- A batch is of runs of the window, and empty if there are none. -/
theorem of_nextBatch (h : ((nextBatch hash w).exec db).1 = .ok ids) :
    ids.Nodup ∧ ids ⊆ runsOf hash w db ∧ (ids = [] → runsOf hash w db = []) := by
  obtain ⟨rows, hrows, h⟩ := (Op.ReadOnly.reads _).of_exec_bind h
  obtain ⟨sorted, hsorted, rfl⟩ : ∃ sorted, sorted ~ rows ∧ ids = (sorted.take 100).map (·.runID) :=
    ⟨_, perm_insertionSort _ rows, (Except.ok.inj h).symm⟩
  have hperm : sorted.map (·.runID) ~ runsOf hash w db :=
    (hsorted.trans (Schema.perm_of_exec_selectFrom hrows)).map _
  have hsub := (take_sublist 100 sorted).map HistoryRow.runID
  refine ⟨(hperm.nodup_iff.2 nodup_runsOf).sublist hsub, hsub.subperm.trans hperm.subperm |>.subset,
    fun hnil => ?_⟩
  rw [(take_eq_nil_iff.1 (map_eq_nil_iff.1 hnil)).resolve_left (by decide)] at hperm
  exact hperm.nil_eq.symm

theorem clearBatches_clears {fuel : ℕ} (hnew : result.complete = false ∧ result.failed = none)
    (h : (runsOf hash w db).length < fuel) :
    ∃ runs result' db', (clearBatches artifacts hash w fuel result).exec db = (.ok result', db')
      ∧ Clears artifacts hash w result db runs result' db'
      ∧ (if result'.complete then runsOf hash w db' = [] else result'.failed ≠ none) := by
  -- Every batch but an empty one and a failed one leaves fewer rows than the fuel that is left.
  induction fuel generalizing result db with
  | zero => omega
  | succ fuel ih =>
    obtain ⟨ids, hids⟩ : ∃ ids, (nextBatch hash w).exec db = (.ok ids, db) := ⟨_, rfl⟩
    rw [clearBatches, Op.exec_bind, hids]
    obtain ⟨hnodup, hmem, hnone⟩ := of_nextBatch (congrArg Prod.fst hids)
    by_cases hnil : ids = []
    · rw [hnil]
      refine ⟨[], { result with complete := true }, db, rfl, ⟨.refl _, rfl, nofun, rfl, ?_⟩, hnone hnil⟩
      simp [hnew.2]
    · obtain ⟨runs, result₁, db₁, hexec, hclears, hcomplete, hall⟩ :=
        clearBatch_clears artifacts result hnew.2 hnodup hmem
      simp only [hnil, if_false, Op.exec_bind, hexec]
      cases hfailed : result₁.failed with
      | some =>
        refine ⟨runs, result₁, db₁, rfl, hclears, ?_⟩
        simp [hcomplete, hnew.1, hfailed]
      | none =>
        have hless : (runsOf hash w db₁).length < fuel := by
          have hlength := hclears.left.length_eq
          have hpos := length_pos_iff.2 (hall hfailed ▸ hnil)
          rw [length_append] at hlength
          omega
        obtain ⟨runs', result', db', hexec', hclears', hends⟩ :=
          ih result₁ ⟨hcomplete.trans hnew.1, hfailed⟩ hless
        exact ⟨runs ++ runs', result', db', hexec', hclears.trans hclears' hfailed, hends⟩

end Clearing

/-! ## Tracked requests -/

theorem within_retained : Within hash (retained hash id now) :=
  .returns (Within.selectFrom fun _ => of_and_left of_decide_and)

theorem within_expiredTracking : Within hash (expiredTracking hash now) :=
  .returns (Within.selectFrom fun _ => of_decide_and)

theorem within_reserveTracking {r : TrackingRecord} :
    Within hash (reserveTracking d hash r now) := by
  refine .after fun _ => .mapError (.atomically ?_) _
  refine .bind (Within.deleteFrom fun _ => of_and_left of_decide_and) fun _ => ?_
  refine .bind within_expiredTracking fun expired => ?_
  refine .bind (Within.deleteFrom fun _ => of_decide_and) fun _ => ?_
  exact .after fun _ => .bind (Within.insertInto rfl) fun _ => .ensure _ _

theorem within_updateTracking {r : TrackingRecord} : Within hash (updateTracking d hash r now) := by
  refine .after fun _ => .mapError (.atomically ?_) _
  refine .bind (Within.selectFrom fun _ => ?_) fun rows => .after fun _ => ?_
  · exact of_and_left (of_and_left (of_and_left (of_and_left of_decide_and)))
  refine .bind (Within.updateIn (fun _ => ?_) _) fun affected => ?_
  · exact of_and_left (of_and_left (of_and_left (of_and_left of_decide_and)))
  split
  · exact .pure _
  · refine .bind within_retained fun saved => ?_
    split
    · exact .lift _
    · exact .ensure _ _

theorem within_lookupTracking : Within hash (lookupTracking hash id now) := by
  refine .after fun _ => .bind within_retained fun saved => ?_
  split
  · exact .lift _
  · exact .pure _

end HardenLlm.Stateful
