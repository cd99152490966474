import HardenLlm.Batch.Observe
import HardenLlm.Batch.Probe
import HardenLlm.Batch.Model.Watch
/-!
# Slots and retirements

A permit's slot is removed by a settled and stopped row, and nothing else
touches it. An ordinary permit is put on the list of retirements by the
very act that removes its slot, and it leaves that list in front, with the
batch the ledger has acknowledged.
-/

namespace HardenLlm.Batch

open List PoolState

variable {H : Hashes} {p : Reservation}

/-! ## What an observation does to a slot -/

namespace PoolState

variable {s s' : PoolState} {t : ℤ} {a : Attempt} {slot : PoolPermit}

/-- **The ends of an observation, for the slot it is about.** -/
inductive SlotEnd (s : PoolState) (a : Attempt) (slot : PoolPermit) (s' : PoolState) : Prop
  | kept (old : ∀ o, ¬ a.News slot o) (slot' : PoolPermit) (mem : slot' ∈ s'.outstanding)
      (id : slot'.id = slot.id) (applied : slot'.applied = slot.applied)
      (revision : slot'.revision = slot.revision) (waits : slot'.awaitingStop = slot.awaitingStop)
      (retired : s'.requestRetirements = s.requestRetirements)
  | awaits {o : AttemptObservation} (news : a.News slot o) (unstopped : a.stoppedAt = none)
      (slot' : PoolPermit) (mem : slot' ∈ s'.outstanding) (id : slot'.id = slot.id)
      (applied : slot'.applied = true) (revision : slot'.revision = a.settlementRevision)
      (waits : slot'.awaitingStop = true) (retired : s'.requestRetirements = s.requestRetirements)
  | gone {o : AttemptObservation} (news : a.News slot o) (stopped : a.stoppedAt ≠ none)
      (gone : a.permitID ∉ s'.slots)
      (retired : s'.requestRetirements
        = s.requestRetirements ++ if a.kind = .ordinary then [a.permitID] else [])

/-- A claim changes nothing about a slot but that it is claimed. -/
theorem heard_mem (hn : s.slots.Nodup) (hs : slot ∈ s.outstanding) :
    ∃ slot' ∈ (s.heard t a).outstanding, slot'.id = slot.id ∧ slot'.applied = slot.applied
      ∧ slot'.revision = slot.revision ∧ slot'.awaitingStop = slot.awaitingStop
      ∧ (slot.id ≠ a.permitID → slot' = slot) := by
  obtain hsame | hmod := heard_outstanding s t a
  · rw [hsame]
    exact ⟨slot, hs, rfl, rfl, rfl, rfl, fun _ => rfl⟩
  · rw [hmod]
    by_cases hid : slot.id = a.permitID
    · exact ⟨{ slot with claimed := true }, (mem_modifyFirst hn).2 (.inr ⟨slot, hs, hid, rfl⟩),
        rfl, rfl, rfl, rfl, fun h => absurd hid h⟩
    · exact ⟨slot, (mem_modifyFirst hn).2 (.inl ⟨hs, hid⟩), rfl, rfl, rfl, rfl, fun _ => rfl⟩

/-- Settling a slot removes it, or makes it wait for its stop. -/
theorem slotEnd_settleSlot {slot' : PoolPermit} {o : AttemptObservation} (hn : s'.slots.Nodup)
    (hs : slot' ∈ s'.outstanding) (hsame : slot'.id = slot.id) (hid : slot.id = a.permitID)
    (hnews : a.News slot o) (hr : s'.requestRetirements = s.requestRetirements) :
    s.SlotEnd a slot (s'.settleSlot a) := by
  unfold settleSlot
  split
  · rename_i hstop
    refine .gone hnews hstop ?_ ?_
    · intro hmem
      obtain ⟨p, hp, hpid⟩ := mem_map.1 hmem
      exact ((mem_eraseP_key hn).1 hp).2 hpid
    · dsimp only
      rw [hr]
      split
      · rfl
      · rw [append_nil]
  · rename_i hopen
    refine .awaits hnews (not_not.1 hopen) { slot' with
      applied := true, revision := a.settlementRevision, awaitingStop := true } ?_ hsame rfl rfl rfl
      hr
    exact (mem_modifyFirst hn).2 (.inr ⟨slot', hs, hsame.trans hid, rfl⟩)

/-- **What an observation does to the slot it is about.** -/
theorem observe_slotEnd (hn : s.slots.Nodup) (hf : s.Finds a slot) :
    s.SlotEnd a slot (s.observe H t a) := by
  obtain ⟨hs, hid⟩ := hf.mem
  obtain ⟨slot', hs', hid', happ', hrev', hwait', -⟩ := heard_mem (t := t) (a := a) hn hs
  have hn' : (s.heard t a).slots.Nodup := by rwa [slots, heard_ids]
  have hret := (heard_undisturbed s t a).requestRetirements
  have hobs := observes (H := H) s t a
  generalize s.observe H t a = s'' at hobs ⊢
  cases hobs with
  | missed hu => exact absurd hf (hu slot)
  | heard hf' hold =>
    obtain rfl := hf.unique hf'
    exact .kept hold slot' hs' hid' happ' hrev' hwait' hret
  | stop hf' hnews =>
    obtain rfl := hf.unique hf'
    exact slotEnd_settleSlot hn' hs' hid' hid hnews hret
  | @apply _ o hf' hnews =>
    obtain rfl := hf.unique hf'
    have hlists := sameLists_applyOutcome (H := H) ((s.heard t a).dropIntent a.permitID) t a o.outcome
    refine slotEnd_settleSlot ?_ (hlists.outstanding ▸ hs') hid' hid hnews
      (hlists.requestRetirements.trans hret)
    rw [slots, hlists.outstanding]
    exact hn'

/-- An observation leaves the other slots alone. -/
theorem observe_others (hn : s.slots.Nodup) {p : PoolPermit} (hp : p.id ≠ a.permitID) :
    p ∈ (s.observe H t a).outstanding ↔ p ∈ s.outstanding := by
  have hn' : (s.heard t a).slots.Nodup := by rwa [slots, heard_ids]
  have hheard : p ∈ (s.heard t a).outstanding ↔ p ∈ s.outstanding := by
    obtain hsame | hmod := heard_outstanding s t a
    · rw [hsame]
    · rw [hmod, mem_modifyFirst hn]
      constructor
      · rintro (⟨h, -⟩ | ⟨q, -, hq, rfl⟩)
        · exact h
        · exact absurd hq hp
      · exact fun h => .inl ⟨h, hp⟩
  have hsettle : ∀ {s₁ : PoolState}, s₁.outstanding = (s.heard t a).outstanding →
      (p ∈ (s₁.settleSlot a).outstanding ↔ p ∈ s.outstanding) := by
    intro s₁ ho
    have hn₁ : s₁.slots.Nodup := by
      rw [slots, ho]
      exact hn'
    rw [← hheard, ← ho]
    unfold settleSlot
    split
    · rw [mem_eraseP_key hn₁]
      exact ⟨fun h => h.1, fun h => ⟨h, hp⟩⟩
    · rw [mem_modifyFirst hn₁]
      constructor
      · rintro (⟨h, -⟩ | ⟨q, -, hq, rfl⟩)
        · exact h
        · exact absurd hq hp
      · exact fun h => .inl ⟨h, hp⟩
  have hobs := observes (H := H) s t a
  generalize s.observe H t a = s' at hobs ⊢
  cases hobs with
  | missed => exact Iff.rfl
  | heard => exact hheard
  | stop => exact hsettle rfl
  | apply => exact hsettle (applyOutcome_outstanding ..)

/-- **A permit that leaves is retired** if it is an ordinary one. -/
theorem observe_retires (hn : s.slots.Nodup) :
    ((s.observe H t a).requestRetirements = s.requestRetirements
        ∧ (a.permitID ∈ s.slots → a.permitID ∈ (s.observe H t a).slots))
      ∨ ((a.poolID = s.poolID ∧ a.generation = s.generation)
        ∧ a.permitID ∈ s.slots ∧ a.permitID ∉ (s.observe H t a).slots
        ∧ (s.observe H t a).requestRetirements
          = s.requestRetirements ++ if a.kind = .ordinary then [a.permitID] else []) := by
  by_cases hfinds : ∃ slot, s.Finds a slot
  · obtain ⟨slot, hf⟩ := hfinds
    have hin : a.permitID ∈ s.slots := mem_map.2 ⟨slot, hf.mem⟩
    cases observe_slotEnd (H := H) (t := t) hn hf with
    | kept _ slot' hs' hid' _ _ _ hret | awaits _ _ slot' hs' hid' _ _ _ hret =>
      exact .inl ⟨hret, fun _ => mem_map.2 ⟨slot', hs', hid'.trans hf.mem.2⟩⟩
    | gone _ _ hgone hret => exact .inr ⟨⟨hf.poolID, hf.generation⟩, hin, hgone, hret⟩
  · rw [observe_missed fun slot hf => hfinds ⟨slot, hf⟩]
    exact .inl ⟨rfl, id⟩

theorem acknowledgeStarts_retirements (started : List String) : ∀ s : PoolState,
    (s.acknowledgeStarts started).requestRetirements = s.requestRetirements := by
  induction started with
  | nil => exact fun s => rfl
  | cons id started ih => exact fun s => ih (s.dropIntent id)

/-- A slot whose stop is awaited stops every grant. -/
theorem canGrant_of_awaiting (hs : slot ∈ s.outstanding) (hw : slot.awaitingStop = true) (t : ℤ) :
    s.canGrant t = false := by
  have hunresolved : (s.refreshWindow t).unresolved = true := by
    rw [unresolved, (sameLists_refreshWindow s t).outstanding]
    exact any_eq_true.2 ⟨slot, hs, hw⟩
  simp [canGrant, admits, hunresolved]

end PoolState

/-- **What the other acts do to the slots**: a grant adds one. -/
theorem PoolRun.act_slots (r : PoolRun) (t : ℤ) {act : PoolAct} (hact : ∀ a, act ≠ .observe a)
    (htidy : ∀ k, act = .housekeep k → k.Tidy r.pool) :
    (r.act H t act).pool.requestRetirements = r.pool.requestRetirements
      ∧ (((r.act H t act).pool.outstanding = r.pool.outstanding
          ∧ (r.act H t act).granted = r.granted)
        ∨ ∃ p, (r.act H t act).granted = r.granted ++ [p]
          ∧ (r.act H t act).pool.outstanding = r.pool.outstanding ++ [{ id := p.permitID }]) := by
  -- most acts leave both lists alone
  have hsame : ∀ {s : PoolState}, r.pool.SameLists s →
      s.requestRetirements = r.pool.requestRetirements
        ∧ s.outstanding = r.pool.outstanding := fun h => ⟨h.requestRetirements, h.outstanding⟩
  cases act with
  | grant item =>
    obtain ⟨hret, hout⟩ := hsame (sameLists_refreshWindow r.pool t)
    obtain hno | ⟨p, -, hpool, hgranted⟩ := act_grant_ok (H := H) r t item
    · rw [hno]
      exact ⟨hret, .inl ⟨hout, rfl⟩⟩
    · rw [hpool, hgranted]
      refine ⟨hret, .inr ⟨p, rfl, ?_⟩⟩
      rw [← hout]
      rfl
  | refresh =>
    obtain ⟨hret, hout⟩ := hsame (sameLists_refreshWindow r.pool t)
    exact ⟨hret, .inl ⟨hout, rfl⟩⟩
  | observe a => exact absurd rfl (hact a)
  | acknowledge started =>
    exact ⟨acknowledgeStarts_retirements started r.pool,
      .inl ⟨(alike_acknowledgeStarts started r.pool).outstanding, rfl⟩⟩
  | resume =>
    obtain ⟨hret, hout⟩ := hsame (sameLists_resume (H := H) r.pool t)
    exact ⟨hret, .inl ⟨hout, rfl⟩⟩
  | configure p =>
    obtain ⟨hret, hout⟩ := hsame (sameLists_configure r.pool p)
    exact ⟨hret, .inl ⟨hout, rfl⟩⟩
  | housekeep k => exact ⟨(htidy k rfl).requestRetirements, .inl ⟨rfl, rfl⟩⟩

/-- No act changes which pool it is. -/
theorem PoolRun.act_identity (r : PoolRun) (t : ℤ) (act : PoolAct) :
    (r.act H t act).pool.poolID = r.pool.poolID
      ∧ (r.act H t act).pool.generation = r.pool.generation := by
  obtain hidle | ⟨item, -, ⟨p, hg, -⟩, -⟩ := act_cases (H := H) r t act
  · exact ⟨hidle.keeps.poolID, hidle.keeps.generation⟩
  · have hk : r.pool.Keeps (fun _ => False) (fun _ => False) (r.pool.refreshWindow t) :=
      keeps_refreshWindow _ _
    rw [hg.state]
    exact ⟨hk.poolID, hk.generation⟩

/-- A row that shows a granted permit shows that grant. -/
theorem Minted.shows_eq {r : PoolRun} (hm : Minted H r) (hd : H.Distinct r.granted) {a : Attempt}
    (ha : r.Shows a) (hp : p ∈ r.granted) (hid : a.permitID = p.permitID) :
    a.toReservation = p.stored := by
  obtain ⟨q, hq, hrow⟩ := ha
  have hqid : a.permitID = q.permitID := by rw [hrow, Reservation.stored]
  obtain rfl := inj_on_of_nodup_map (hm.permits_nodup hd) hp hq (hid.symm.trans hqid)
  exact hrow

/-- The latest grant is of a new permit. -/
theorem Minted.fresh {r : PoolRun} (hm : Minted H r) (hd : H.Distinct r.granted)
    {l : List Reservation} {q : Reservation} (hg : r.granted = l ++ [q]) :
    ∀ p ∈ l, p.permitID ≠ q.permitID := by
  have hnodup := hm.permits_nodup hd
  rw [hg, map_append, nodup_append] at hnodup
  intro p hp
  exact hnodup.2.2 _ (mem_map_of_mem hp) _ (mem_singleton.2 rfl)

/-! ## Retirements -/

/-- The workflow's settings as they stand. -/
def PoolState.settings (s : PoolState) : Housekeeping where
  dispatchNeedsReady := s.dispatchNeedsReady
  dispatchBlockedUntil := s.dispatchBlockedUntil
  dispatchBackoff := s.dispatchBackoff
  quiescing := s.quiescing
  persistenceWait := s.persistenceWait
  requestRetirements := s.requestRetirements
  coalesceDispatchFailures := s.coalesceDispatchFailures
  pendingClaimLimit := s.pendingClaimLimit
  recoveryJitterVersion := s.recoveryJitterVersion

/-- What a workflow does to its pool: retirements are settings of its
own. -/
def WorkflowAct.poolAct (w : PoolWorkflow) : WorkflowAct → PoolAct
  | .act a => a
  | .retired => .housekeep { w.pool.settings with
      requestRetirements := w.pool.requestRetirements.drop (w.retiring.getD []).length }
  | .retire | .unretired => .housekeep w.pool.settings

namespace PoolWorkflow

variable {w : PoolWorkflow} {t : ℤ} {act : WorkflowAct}

theorem follow_toPoolRun (w : PoolWorkflow) (t : ℤ) (act : WorkflowAct) :
    (w.follow H t act).toPoolRun = w.toPoolRun.act H t (act.poolAct w) := by
  cases act <;> rfl

/-- The workflow stays the pool's, and keeps its grants. -/
theorem follow_frame (w : PoolWorkflow) (t : ℤ) (act : WorkflowAct) :
    (w.follow H t act).pool.poolID = w.pool.poolID
      ∧ (w.follow H t act).pool.generation = w.pool.generation
      ∧ w.granted ⊆ (w.follow H t act).granted := by
  have hrun := follow_toPoolRun (H := H) w t act
  have hid := PoolRun.act_identity (H := H) w.toPoolRun t (act.poolAct w)
  have hgranted := granted_subset_act (H := H) w.toPoolRun t (act.poolAct w)
  rw [← hrun] at hid hgranted
  exact ⟨hid.1, hid.2, hgranted⟩

/-- **An act that observes nothing**: it may grant a permit, schedule a
retirement or take a retired batch off the list. -/
structure Quiet (H : Hashes) (w : PoolWorkflow) (t : ℤ) (act : WorkflowAct) : Prop where
  delivers : act.delivers = []
  retired : (w.follow H t act).pool.requestRetirements = w.pool.requestRetirements ∨ act = .retired
  retiring : (w.follow H t act).retiring = w.retiring
    ∨ ∀ b, (w.follow H t act).retiring = some b → b <+: w.pool.requestRetirements
  slots : ((w.follow H t act).pool.outstanding = w.pool.outstanding
      ∧ (w.follow H t act).granted = w.granted)
    ∨ ∃ p, (w.follow H t act).granted = w.granted ++ [p]
      ∧ (w.follow H t act).pool.outstanding = w.pool.outstanding ++ [{ id := p.permitID }]

/-- **What the workflow can do**: observe a row, or act quietly. -/
theorem follow_cases (hf : w.Follows act) : (∃ a, act = .act (.observe a)) ∨ Quiet H w t act := by
  cases act with
  | act act =>
    by_cases hobs : ∃ a, act = .observe a
    · obtain ⟨a, rfl⟩ := hobs
      exact .inl ⟨a, rfl⟩
    · have htidy : ∀ k, act = .housekeep k → k.Tidy w.pool := by
        rintro k rfl
        exact hf
      obtain ⟨hret, hslots⟩ := PoolRun.act_slots (H := H) w.toPoolRun t
        (fun a ha => hobs ⟨a, ha⟩) htidy
      refine .inr ⟨?_, .inl hret, .inl rfl, hslots⟩
      cases act with
      | observe a => exact absurd ⟨a, rfl⟩ hobs
      | _ => rfl
  | retire =>
    refine .inr ⟨rfl, .inl rfl, .inr fun b hb => ?_, .inl ⟨rfl, rfl⟩⟩
    obtain rfl := Option.some.inj hb
    exact take_prefix _ _
  | retired => exact .inr ⟨rfl, .inr rfl, .inr fun b hb => (nomatch hb), .inl ⟨rfl, rfl⟩⟩
  | unretired => exact .inr ⟨rfl, .inl rfl, .inr fun b hb => (nomatch hb), .inl ⟨rfl, rfl⟩⟩

/-- No slot is lost quietly. -/
theorem Quiet.mem (h : Quiet H w t act) {slot : PoolPermit} (hs : slot ∈ w.pool.outstanding) :
    slot ∈ (w.follow H t act).pool.outstanding := by
  obtain ⟨hout, -⟩ | ⟨p, -, hout⟩ := h.slots
  · exact hout ▸ hs
  · rw [hout]
    exact mem_append_left _ hs

theorem Quiet.slots_subset (h : Quiet H w t act) : w.pool.slots ⊆ (w.follow H t act).pool.slots := by
  intro id hid
  obtain ⟨slot, hs, rfl⟩ := mem_map.1 hid
  exact mem_map_of_mem (h.mem hs)

/-- **A permit that has left does not come back.** -/
theorem gone_follow (hm' : Minted H (w.follow H t act).toPoolRun)
    (hd : H.Distinct (w.follow H t act).granted) (hf : w.Follows act) (hp : p ∈ w.granted)
    (hgone : p.permitID ∉ w.pool.slots) : p.permitID ∉ (w.follow H t act).pool.slots := by
  intro hmem
  obtain ⟨a, rfl⟩ | hq := follow_cases (H := H) (t := t) hf
  · have hkeeps : w.pool.Keeps (fun id => a.permitID = id) (fun _ => True) (w.pool.observe H t a) :=
      keeps_observe w.pool t a (fun _ => rfl) trivial
    exact hgone (hkeeps.slots.subset hmem)
  · obtain ⟨hsame, -⟩ | ⟨q, hg, hnew⟩ := hq.slots
    · rw [slots, hsame] at hmem
      exact hgone hmem
    · -- a new slot is a new permit's
      rw [slots, hnew, map_append, mem_append] at hmem
      obtain hmem | hmem := hmem
      · exact hgone hmem
      · exact hm'.fresh hd hg p hp (by simpa using hmem)

/-- Where the retired requests come from, and which of them the retirement
under way is about. -/
structure Shelved (w : PoolWorkflow) : Prop where
  granted : ∀ id ∈ w.pool.requestRetirements,
    ∃ p ∈ w.granted, p.permitID = id ∧ p.kind = .ordinary
  gone : ∀ id ∈ w.pool.requestRetirements, id ∉ w.pool.slots
  batch : ∀ b, w.retiring = some b → b <+: w.pool.requestRetirements

/-- The rows of this pool and generation that are observed are of granted
permits. -/
def Legible (w : PoolWorkflow) (act : WorkflowAct) : Prop :=
  ∀ a ∈ act.delivers, a.poolID = w.pool.poolID → a.generation = w.pool.generation →
    w.toPoolRun.Shows a

/-- **A retired batch is what leaves the list.** -/
theorem Shelved.retired (h : w.Shelved) {b : List String} (hb : w.retiring = some b) :
    w.pool.requestRetirements = b ++ (w.follow H t .retired).pool.requestRetirements := by
  obtain ⟨rest, hrest⟩ := h.batch b hb
  have hdrop : (w.follow H t .retired).pool.requestRetirements
      = w.pool.requestRetirements.drop b.length := by
    simp only [follow, hb, Option.getD_some]
  rw [hdrop, ← hrest, drop_left]

variable (h : w.Shelved) (hm : Minted H w.toPoolRun)
include h hm

/-- **One act keeps the shelf in order.** -/
theorem Shelved.follow
    (hm' : Minted H (w.follow H t act).toPoolRun) (hd : H.Distinct (w.follow H t act).granted)
    (hf : w.Follows act) (hshows : w.Legible act) : (w.follow H t act).Shelved := by
  have hold : ∀ id ∈ w.pool.requestRetirements, id ∉ (w.follow H t act).pool.slots := by
    intro id hid
    obtain ⟨p, hp, rfl, -⟩ := h.granted id hid
    exact gone_follow hm' hd hf hp (h.gone _ hid)
  obtain ⟨a, rfl⟩ | hq := follow_cases (H := H) (t := t) hf
  · change ∀ id ∈ w.pool.requestRetirements, id ∉ (w.pool.observe H t a).slots at hold
    obtain ⟨hret, -⟩ | ⟨hown, -, hgone, hret⟩ := observe_retires (H := H) (t := t) (a := a)
      (hm.slots_nodup hd)
    · refine ⟨?_, ?_, ?_⟩ <;> simp only [PoolWorkflow.follow, PoolRun.act, hret]
      · exact h.granted
      · exact hold
      · exact h.batch
    · refine ⟨?_, ?_, ?_⟩ <;> simp only [PoolWorkflow.follow, PoolRun.act, hret, mem_append]
      · rintro id (hid | hid)
        · exact h.granted id hid
        · -- the row shows the grant of its permit
          obtain ⟨p, hp, hrow⟩ := hshows a (mem_singleton.2 rfl) hown.1 hown.2
          split at hid
          · rename_i hkind
            obtain rfl := mem_singleton.1 hid
            refine ⟨p, hp, ?_, ?_⟩
            · rw [hrow, Reservation.stored]
            · rw [← hkind, hrow, Reservation.stored]
          · cases hid
      · rintro id (hid | hid)
        · exact hold id hid
        · split at hid
          · obtain rfl := mem_singleton.1 hid
            exact hgone
          · cases hid
      · exact fun b hb => (h.batch b hb).trans (prefix_append _ _)
  · have hsubset : (w.follow H t act).pool.requestRetirements ⊆ w.pool.requestRetirements := by
      obtain hret | rfl := hq.retired
      · rw [hret]
        exact List.Subset.refl _
      · exact drop_subset _ _
    refine ⟨?_, fun id hid => hold id (hsubset hid), ?_⟩
    · intro id hid
      obtain ⟨p, hp, hpid⟩ := h.granted id (hsubset hid)
      exact ⟨p, (follow_frame w t act).2.2 hp, hpid⟩
    · intro b hb
      obtain hret | rfl := hq.retired
      · rw [hret]
        obtain hsame | hbatch := hq.retiring
        · exact h.batch b (hsame ▸ hb)
        · exact hbatch b hb
      · cases hb

/-- **An ordinary permit is retired exactly when it leaves.** -/
theorem Shelved.enters_iff (hd : H.Distinct w.granted)
    (hf : w.Follows act) (hshows : w.Legible act) (hp : p ∈ w.granted)
    (hkind : p.kind = .ordinary) :
    (p.permitID ∉ w.pool.requestRetirements
        ∧ p.permitID ∈ (w.follow H t act).pool.requestRetirements)
      ↔ (p.permitID ∈ w.pool.slots ∧ p.permitID ∉ (w.follow H t act).pool.slots) := by
  obtain ⟨a, rfl⟩ | hq := follow_cases (H := H) (t := t) hf
  · have hn : w.pool.slots.Nodup := hm.slots_nodup hd
    have hretires := observe_retires (H := H) (t := t) (a := a) hn
    change (_ ∧ p.permitID ∈ (w.pool.observe H t a).requestRetirements)
      ↔ (_ ∧ p.permitID ∉ (w.pool.observe H t a).slots)
    by_cases hid : a.permitID = p.permitID
    · rw [hid] at hretires
      obtain ⟨hret, hstays⟩ | ⟨hown, hin, hout, hret⟩ := hretires
      · rw [hret]
        exact ⟨fun hh => absurd hh.2 hh.1, fun hh => absurd (hstays hh.1) hh.2⟩
      · have hrow := hm.shows_eq hd (hshows a (mem_singleton.2 rfl) hown.1 hown.2) hp hid
        have hak : a.kind = .ordinary := by rw [← hkind, hrow, Reservation.stored]
        rw [hret, if_pos hak]
        refine ⟨fun _ => ⟨hin, hout⟩, fun _ => ⟨fun hmem => h.gone _ hmem hin, ?_⟩⟩
        exact mem_concat_self
    · -- a row of another permit moves neither
      have hslots : p.permitID ∈ w.pool.slots → p.permitID ∈ (w.pool.observe H t a).slots := by
        intro hmem
        obtain ⟨slot, hs, hsid⟩ := mem_map.1 hmem
        have hne : slot.id ≠ a.permitID := fun he => hid (he.symm.trans hsid)
        exact mem_map.2 ⟨slot, (observe_others hn hne).2 hs, hsid⟩
      refine ⟨fun hh => absurd ?_ hh.1, fun hh => absurd (hslots hh.1) hh.2⟩
      obtain ⟨hret, -⟩ | ⟨-, -, -, hret⟩ := hretires
      · exact hret ▸ hh.2
      · have hmem := hh.2
        rw [hret] at hmem
        refine (mem_append.1 hmem).resolve_right fun hmem => hid ?_
        split at hmem
        · exact (mem_singleton.1 hmem).symm
        · cases hmem
  · refine ⟨fun hh => absurd ?_ hh.1, fun hh => absurd (hq.slots_subset hh.1) hh.2⟩
    obtain hret | rfl := hq.retired
    · exact hret ▸ hh.2
    · exact drop_subset _ _ hh.2

/-- **A retired permit leaves the list with its batch only.** -/
theorem Shelved.leaves (hd : H.Distinct w.granted)
    (hf : w.Follows act) {id : String} (hin : id ∈ w.pool.requestRetirements)
    (hout : id ∉ (w.follow H t act).pool.requestRetirements) :
    act = .retired ∧ ∃ b, w.retiring = some b ∧ id ∈ b := by
  obtain ⟨a, rfl⟩ | hq := follow_cases (H := H) (t := t) hf
  · refine absurd ?_ hout
    change id ∈ (w.pool.observe H t a).requestRetirements
    obtain ⟨hret, -⟩ | ⟨-, -, -, hret⟩ := observe_retires (H := H) (t := t) (a := a)
      (hm.slots_nodup hd)
    · exact hret ▸ hin
    · rw [hret]
      exact mem_append_left _ hin
  · obtain hret | rfl := hq.retired
    · exact absurd (hret ▸ hin) hout
    · obtain ⟨b, hb⟩ := Option.ne_none_iff_exists'.1 hf
      refine ⟨rfl, b, hb, ?_⟩
      rw [h.retired (H := H) (t := t) hb] at hin
      exact (mem_append.1 hin).resolve_right hout

end PoolWorkflow

end HardenLlm.Batch
