import HardenLlm.Batch.Joint
import HardenLlm.Batch.Retirement
/-!
# Every outcome is applied once

A permit is out until a settled and stopped row of it is delivered. The
first settled row applies its outcome; a stop that comes later carries a
newer revision, so it still releases the slot; and until it does nothing
is granted. Retired requests leave the pool from the front, in the batches
the ledger has acknowledged.
-/

namespace HardenLlm.Batch

open List PoolState

variable {H : Hashes} {size : AttemptObservation → ℕ}

/-! ## What was read of one permit -/

/-- **Two rows read of one permit are versions of each other.** -/
theorem reads_comparable {s : Joint} (hr : (joint H size).Reach s) :
    ∀ a ∈ s.reads, ∀ b ∈ s.reads, a.permitID = b.permitID → a.Later b ∨ b.Later a := by
  refine hr.invariant (P := fun s => ∀ a ∈ s.reads, ∀ b ∈ s.reads, a.permitID = b.permitID →
    a.Later b ∨ b.Later a) ?_ ?_
  · rintro s ⟨-, -, hreads⟩ a ha
    simp [hreads] at ha
  · intro s s' hr ih hs
    cases hs with
    | act | exec => exact ih
    | @read id c hc =>
      -- what was read before is an earlier version of the present row
      have hpast : ∀ a ∈ s.reads, a.permitID = c.permitID → a.Later c := by
        intro a ha hid
        obtain ⟨b, hb, hlater⟩ := (accounted_of_reach hr).reads a ha
        rw [hid, permitID_of_get? hc] at hb
        obtain rfl := Option.mem_unique hc hb
        exact hlater
      rintro a (_ | ⟨_, ha⟩) b (_ | ⟨_, hb⟩) hid
      · exact .inl (.refl _)
      · exact .inr (hpast b hb hid.symm)
      · exact .inl (hpast a ha hid)
      · exact ih a ha b hb hid

theorem reads_wellFormed {s : Joint} (hr : (joint H size).Reach s) :
    ∀ a ∈ s.reads, a.WellFormed := by
  refine hr.invariant (P := fun s => ∀ a ∈ s.reads, a.WellFormed) ?_ ?_
  · rintro s ⟨-, -, hreads⟩ a ha
    simp [hreads] at ha
  · intro s s' hr ih hs
    cases hs with
    | act | exec => exact ih
    | read hc =>
      rintro a (_ | ⟨_, ha⟩)
      · exact wellFormed_of_reach (joint_ledger.reach hr) hc
      · exact ih a ha

/-- A stop that came after the settlement is newer than it. -/
theorem Attempt.Later.revision_lt {a b : Attempt} (hlater : a.Later b ∨ b.Later a)
    (ha : a.state = .settled) (hopen : a.stoppedAt = none) (hstop : b.stoppedAt ≠ none) :
    a.settlementRevision < b.settlementRevision := by
  obtain h | h := hlater
  · exact h.stopRevised ha hopen hstop
  · exact absurd hopen (h.stopKept hstop)

/-! ## Watching -/

/-- **The workflow is a pool beside its ledger**: retirements are settings
of its own. -/
theorem watches_joint : (watches H size).Simulates (joint H size) Watch.joint := by
  refine ⟨fun s h => h.1, ?_⟩
  intro s s' _ hs
  cases hs with
  | follow t act hlater hfollows hallowed =>
    have hact : s.joint.Allows (act.poolAct s.workflow) := by
      cases act with
      | act => exact hallowed
      | _ => trivial
    refine .inr ?_
    change JointStep H size s.joint ⟨(s.workflow.follow H t act).toPoolRun, s.db, s.reads⟩
    rw [PoolWorkflow.follow_toPoolRun]
    exact .act t (act.poolAct s.workflow) hlater hact
  | read row => exact .inr (.read row)
  | exec op c hoffer hexec => exact .inr (.exec op c hoffer hexec)

namespace Watch

variable {s s' : Watch} {t : ℤ} {act : WorkflowAct} {id : String}

/-- What is remembered of a permit was delivered, and what was delivered
was read. -/
structure Traced (s : Watch) : Prop where
  delivered : ∀ a ∈ s.delivered, a ∈ s.reads ∧ a.poolID = s.workflow.pool.poolID
  applied : ∀ id ∈ s.applied, ∃ a ∈ s.delivered, a.permitID = id
  removed : ∀ id ∈ s.removed, ∃ a ∈ s.delivered, a.permitID = id

/-- **The life of a permit in the pool**: it waits for its settlement, then
for its stop, and then it is gone. -/
inductive Phase (s : Watch) (id : String) : Prop
  | waiting (slot : PoolPermit) (mem : slot ∈ s.workflow.pool.outstanding) (names : slot.id = id)
      (fresh : slot.applied = false) (revision : slot.revision = 0) (unsettled : ¬ s.Settled id)
      (unapplied : s.applied.count id = 0) (unremoved : s.removed.count id = 0)
  | awaiting (slot : PoolPermit) (mem : slot ∈ s.workflow.pool.outstanding) (names : slot.id = id)
      (applied : slot.applied = true) (waits : slot.awaitingStop = true) (seen : Attempt)
      (delivered : seen ∈ s.delivered) (ofPermit : seen.permitID = id)
      (settled : seen.state = .settled) (revision : slot.revision = seen.settlementRevision)
      (unstopped : ¬ s.Stopped id) (once : s.applied.count id = 1)
      (unremoved : s.removed.count id = 0)
  | concluded (gone : id ∉ s.workflow.pool.slots) (stopped : s.Stopped id)
      (once : s.applied.count id = 1) (removed : s.removed.count id = 1)

/-- A slot that was there and is not there counts once. -/
theorem count_removed {slots : List String} (hn : slots.Nodup) (slots' : List String) (id : String) :
    (slots.filter fun id => id ∉ slots').count id = if id ∈ slots ∧ id ∉ slots' then 1 else 0 := by
  have hn' : (slots.filter fun id => id ∉ slots').Nodup := hn.filter _
  split
  · rename_i h
    exact count_eq_one_of_mem hn' (mem_filter.2 ⟨h.1, by simpa using h.2⟩)
  · rename_i h
    refine count_eq_zero.2 fun hmem => h ?_
    obtain ⟨hin, hout⟩ := mem_filter.1 hmem
    exact ⟨hin, by simpa using hout⟩

theorem follow_workflow (H : Hashes) (s : Watch) (t : ℤ) (act : WorkflowAct) :
    (s.follow H t act).workflow = s.workflow.follow H t act := rfl

/-! ### Acts about other permits -/

theorem settled_follow (H : Hashes) (s : Watch) (t : ℤ) (act : WorkflowAct) (id : String) :
    (s.follow H t act).Settled id
      ↔ s.Settled id ∨ ∃ a ∈ act.delivers, a.permitID = id ∧ a.state = .settled := by
  simp only [Settled, follow, mem_append, or_and_right, exists_or]

theorem stopped_follow (H : Hashes) (s : Watch) (t : ℤ) (act : WorkflowAct) (id : String) :
    (s.follow H t act).Stopped id ↔ s.Stopped id
      ∨ ∃ a ∈ act.delivers, a.permitID = id ∧ a.state = .settled ∧ a.stoppedAt ≠ none := by
  simp only [Stopped, follow, mem_append, or_and_right, exists_or]

/-- An act that delivers nothing of a permit and leaves its slot alone
leaves its phase alone. -/
theorem Phase.other (h : s.Phase id) (hn : s.workflow.pool.slots.Nodup)
    (hslot : ∀ slot : PoolPermit, slot.id = id →
      (slot ∈ (s.follow H t act).workflow.pool.outstanding ↔ slot ∈ s.workflow.pool.outstanding))
    (hact : ∀ a ∈ act.delivers, a.permitID ≠ id) : (s.follow H t act).Phase id := by
  have hsettled : (s.follow H t act).Settled id ↔ s.Settled id := by
    rw [settled_follow]
    exact or_iff_left fun ⟨a, ha, hid, _⟩ => hact a ha hid
  have hstopped : (s.follow H t act).Stopped id ↔ s.Stopped id := by
    rw [stopped_follow]
    exact or_iff_left fun ⟨a, ha, hid, _⟩ => hact a ha hid
  have hslots : id ∈ (s.follow H t act).workflow.pool.slots ↔ id ∈ s.workflow.pool.slots := by
    simp only [slots, mem_map]
    constructor
    · rintro ⟨slot, hs, hid⟩
      exact ⟨slot, (hslot slot hid).1 hs, hid⟩
    · rintro ⟨slot, hs, hid⟩
      exact ⟨slot, (hslot slot hid).2 hs, hid⟩
  have happlied : (s.follow H t act).applied.count id = s.applied.count id := by
    have hnone : (act.applies s.workflow.pool).count id = 0 := by
      refine count_eq_zero.2 fun hmem => ?_
      unfold WorkflowAct.applies at hmem
      split at hmem
      · rename_i a
        split at hmem
        · exact hact a (mem_singleton.2 rfl) (mem_singleton.1 hmem).symm
        · cases hmem
      · cases hmem
    simp only [follow, count_append, hnone, Nat.add_zero]
  have hremoved : (s.follow H t act).removed.count id = s.removed.count id := by
    have hnone := count_removed hn (s.follow H t act).workflow.pool.slots id
    rw [if_neg fun h => h.2 (hslots.2 h.1)] at hnone
    calc (s.follow H t act).removed.count id
        = s.removed.count id + (s.workflow.pool.slots.filter fun id =>
            id ∉ (s.follow H t act).workflow.pool.slots).count id := count_append
      _ = s.removed.count id := by rw [hnone, Nat.add_zero]
  cases h with
  | waiting slot hs hid hfresh hrev huns hunapp hunrem =>
    exact .waiting slot ((hslot slot hid).2 hs) hid hfresh hrev (fun h => huns (hsettled.1 h))
      (happlied.trans hunapp) (hremoved.trans hunrem)
  | awaiting slot hs hid happ hwait seen hdel hof hset hrev hunst honce hunrem =>
    exact .awaiting slot ((hslot slot hid).2 hs) hid happ hwait seen (mem_append_left _ hdel)
      hof hset hrev (fun h => hunst (hstopped.1 h)) (happlied.trans honce) (hremoved.trans hunrem)
  | concluded hgone hst honce hrem =>
    exact .concluded (fun h => hgone (hslots.1 h)) (hstopped.2 hst) (happlied.trans honce)
      (hremoved.trans hrem)

/-! ### A row of the permit -/

section Observe

variable {a : Attempt}

theorem applied_observe (s : Watch) (t : ℤ) (a : Attempt) :
    (s.follow H t (.act (.observe a))).applied.count a.permitID
      = s.applied.count a.permitID + if (s.workflow.pool.applies a).isSome then 1 else 0 := by
  simp only [follow, WorkflowAct.applies, count_append]
  split <;> simp

theorem removed_observe (hn : s.workflow.pool.slots.Nodup) :
    (s.follow H t (.act (.observe a))).removed.count a.permitID
      = s.removed.count a.permitID + if a.permitID ∈ s.workflow.pool.slots
          ∧ a.permitID ∉ (s.workflow.pool.observe H t a).slots then 1 else 0 := by
  have h := count_removed hn (s.workflow.pool.observe H t a).slots a.permitID
  rw [← h]
  exact count_append

/-- **A delivered row moves its permit's phase on**, or leaves it. -/
theorem Phase.observe (h : s.Phase a.permitID) (hn : s.workflow.pool.slots.Nodup)
    (hp : a.poolID = s.workflow.pool.poolID) (hg : a.generation = s.workflow.pool.generation)
    (hw : a.WellFormed) (hcmp : ∀ b ∈ s.delivered, b.permitID = a.permitID → b.Later a ∨ a.Later b) :
    (s.follow H t (.act (.observe a))).Phase a.permitID := by
  have hsettled := settled_follow H s t (.act (.observe a)) a.permitID
  have hstopped := stopped_follow H s t (.act (.observe a)) a.permitID
  simp only [WorkflowAct.delivers, mem_singleton, exists_eq_left, true_and] at hsettled hstopped
  have happlied := applied_observe (H := H) s t a
  have hremoved := removed_observe (H := H) (t := t) (a := a) hn
  have hlast : a ∈ (s.follow H t (.act (.observe a))).delivered :=
    mem_concat_self
  -- a slot that is found again was not removed
  have hkept : ∀ {slot' : PoolPermit}, slot' ∈ (s.workflow.pool.observe H t a).outstanding →
      slot'.id = a.permitID →
      (s.follow H t (.act (.observe a))).removed.count a.permitID = s.removed.count a.permitID := by
    intro slot' hs hid
    rw [hremoved, if_neg fun h => h.2 (mem_map.2 ⟨_, hs, hid⟩)]
    rfl
  cases h with
  | waiting slot hs hid hfresh hrev huns hunapp hunrem =>
    have hf := finds_of_mem hn hs hid hp hg
    have hin : a.permitID ∈ s.workflow.pool.slots := mem_map.2 ⟨slot, hs, hid⟩
    have hunst : ¬ s.Stopped a.permitID := fun ⟨b, hb, hbid, hbs, _⟩ => huns ⟨b, hb, hbid, hbs⟩
    cases observe_slotEnd (H := H) (t := t) hn hf with
    | kept hold slot' hs' hid' happ' hrev' =>
      have hopen : a.state ≠ .settled := by
        intro hst
        obtain ⟨hobs, hpos⟩ := hw.settled hst
        obtain ⟨o, ho⟩ := Option.ne_none_iff_exists'.1 hobs
        exact hold o ⟨ho, hst, hpos, by omega⟩
      have hnone := applies_none_of_old hf (.inl hold)
      refine .waiting slot' hs' (hid'.trans hid) (happ'.trans hfresh) (hrev'.trans hrev) ?_ ?_
        ((hkept hs' (hid'.trans hid)).trans hunrem)
      · rw [hsettled]
        exact fun h => h.elim huns hopen
      · rw [happlied, hnone, hunapp]
        rfl
    | awaits hnews hst slot' hs' hid' happ' hrev' hwait' =>
      have happ := applies_of_apply hf hnews hfresh
      refine .awaiting slot' hs' (hid'.trans hid) happ' hwait' a hlast rfl hnews.settled hrev' ?_ ?_
        ((hkept hs' (hid'.trans hid)).trans hunrem)
      · rw [hstopped]
        exact fun h => h.elim hunst fun h => h.2 hst
      · rw [happlied, happ, hunapp]
        rfl
    | gone hnews hst hgone =>
      have happ := applies_of_apply hf hnews hfresh
      refine .concluded hgone (hstopped.2 (.inr ⟨hnews.settled, hst⟩)) ?_ ?_
      · rw [happlied, happ, hunapp]
        rfl
      · rw [hremoved, if_pos ⟨hin, hgone⟩, hunrem]
  | awaiting slot hs hid happ hwait seen hdel hof hset hrev hunst honce hunrem =>
    have hf := finds_of_mem hn hs hid hp hg
    have hin : a.permitID ∈ s.workflow.pool.slots := mem_map.2 ⟨slot, hs, hid⟩
    have hnone : s.workflow.pool.applies a = none := applies_none_of_old hf (.inr happ)
    have hcount : (s.follow H t (.act (.observe a))).applied.count a.permitID = 1 := by
      rw [happlied, hnone, honce]
      rfl
    cases observe_slotEnd (H := H) (t := t) hn hf with
    | kept hold slot' hs' hid' happ' hrev' hwait' =>
      -- a stop would have been news
      have hopen : ¬ (a.state = .settled ∧ a.stoppedAt ≠ none) := by
        rintro ⟨hst, hstop⟩
        have hseen : seen.stoppedAt = none := by
          by_contra h
          exact hunst ⟨seen, hdel, hof, hset, h⟩
        have hlt := Attempt.Later.revision_lt (hcmp seen hdel hof) hset hseen hstop
        obtain ⟨hobs, hpos⟩ := hw.settled hst
        obtain ⟨o, ho⟩ := Option.ne_none_iff_exists'.1 hobs
        exact hold o ⟨ho, hst, hpos, by omega⟩
      refine .awaiting slot' hs' (hid'.trans hid) (happ'.trans happ) (hwait'.trans hwait) seen
        (mem_append_left _ hdel) hof hset (hrev'.trans hrev) ?_ hcount
        ((hkept hs' (hid'.trans hid)).trans hunrem)
      rw [hstopped]
      exact fun h => h.elim hunst hopen
    | awaits hnews hst slot' hs' hid' happ' hrev' hwait' =>
      refine .awaiting slot' hs' (hid'.trans hid) happ' hwait' a hlast rfl hnews.settled hrev' ?_
        hcount ((hkept hs' (hid'.trans hid)).trans hunrem)
      rw [hstopped]
      exact fun h => h.elim hunst fun h => h.2 hst
    | gone hnews hst hgone =>
      refine .concluded hgone (hstopped.2 (.inr ⟨hnews.settled, hst⟩)) hcount ?_
      rw [hremoved, if_pos ⟨hin, hgone⟩, hunrem]
  | concluded hgone hst honce hrem =>
    have hmissed : ∀ slot, ¬ s.workflow.pool.Finds a slot :=
      fun slot hf => hgone (mem_map.2 ⟨slot, hf.mem⟩)
    have hnone := applies_none_of_missed hmissed
    refine .concluded ?_ (hstopped.2 (.inl hst)) ?_ ?_
    · change a.permitID ∉ (s.workflow.pool.observe H t a).slots
      rw [observe_missed hmissed]
      exact hgone
    · rw [happlied, hnone, honce]
      rfl
    · rw [hremoved, if_neg (fun h => hgone h.1), hrem]

end Observe

/-! ### Acts that deliver nothing -/

section Quiet

variable (h : PoolWorkflow.Quiet H s.workflow t act)

include h

theorem removed_quiet : (s.follow H t act).removed = s.removed := by
  have hnone : (s.workflow.pool.slots.filter fun id =>
      id ∉ (s.workflow.follow H t act).pool.slots) = [] := by
    refine filter_eq_nil_iff.2 fun id hid => ?_
    simpa using h.slots_subset hid
  exact (congrArg (s.removed ++ ·) hnone).trans (append_nil _)

theorem delivered_quiet : (s.follow H t act).delivered = s.delivered :=
  (congrArg (s.delivered ++ ·) h.delivers).trans (append_nil _)

theorem applied_quiet : (s.follow H t act).applied = s.applied := by
  have hnone : act.applies s.workflow.pool = [] := by
    have hdel := h.delivers
    unfold WorkflowAct.applies
    split
    · cases hdel
    · rfl
  exact (congrArg (s.applied ++ ·) hnone).trans (append_nil _)

end Quiet

/-! ### Whole runs -/

variable (hr : (watches H size).Reach s)
include hr

theorem watches_minted : Minted H s.workflow.toPoolRun :=
  minted_of_reach (joint_pools.reach (watches_joint.reach hr))

theorem traced_of_reach : s.Traced := by
  refine hr.invariant (P := Traced) ?_ ?_
  · rintro s ⟨-, -, hdel, happ, hrem⟩
    constructor <;> simp [hdel, happ, hrem]
  · intro s s' hr h hs
    cases hs with
    | read =>
      exact ⟨fun a ha => ⟨.tail _ (h.delivered a ha).1, (h.delivered a ha).2⟩, h.applied, h.removed⟩
    | exec => exact { h with }
    | follow t act hlater hfollows hallowed =>
      have hpool : (s.follow H t act).workflow.pool.poolID = s.workflow.pool.poolID :=
        (PoolWorkflow.follow_frame s.workflow t act).1
      obtain ⟨a, rfl⟩ | hq := PoolWorkflow.follow_cases (H := H) (t := t) hfollows
      · refine ⟨?_, ?_, ?_⟩
        · intro b hb
          rw [hpool]
          obtain hb | hb := mem_append.1 hb
          · exact h.delivered b hb
          · obtain rfl := mem_singleton.1 hb
            exact hallowed
        · intro id hid
          obtain hid | hid := mem_append.1 hid
          · obtain ⟨b, hb, hbid⟩ := h.applied id hid
            exact ⟨b, mem_append_left _ hb, hbid⟩
          · simp only [WorkflowAct.applies] at hid
            split at hid
            · exact ⟨a, mem_concat_self, (mem_singleton.1 hid).symm⟩
            · cases hid
        · intro id hid
          obtain hid | hid := mem_append.1 hid
          · obtain ⟨b, hb, hbid⟩ := h.removed id hid
            exact ⟨b, mem_append_left _ hb, hbid⟩
          · -- only the permit of the row can lose its slot
            obtain ⟨hin, hout⟩ := mem_filter.1 hid
            have hkeeps : s.workflow.pool.Keeps (fun id => a.permitID = id) (fun _ => True)
                (s.workflow.pool.observe H t a) :=
              keeps_observe s.workflow.pool t a (fun _ => rfl) trivial
            have hid' := (hkeeps.held id hin).resolve_left (of_decide_eq_true hout)
            exact ⟨a, mem_concat_self, hid'⟩
      · refine ⟨?_, ?_, ?_⟩
        · rw [delivered_quiet hq, hpool]
          exact h.delivered
        · rw [applied_quiet hq, delivered_quiet hq]
          exact h.applied
        · rw [removed_quiet hq, delivered_quiet hq]
          exact h.removed

/-- **Every granted permit is in one of the three phases.** -/
theorem phase_of_reach (hd : H.Distinct s.workflow.granted) :
    ∀ p ∈ s.workflow.granted, s.Phase p.permitID := by
  refine hr.invariant (P := fun s => H.Distinct s.workflow.granted →
    ∀ p ∈ s.workflow.granted, s.Phase p.permitID) ?_ ?_ hd
  · rintro s ⟨⟨⟨_, _, _, -, -, hgranted, -⟩, -⟩, -⟩ - p hp
    have hnone : s.workflow.granted = [] := hgranted
    simp [hnone] at hp
  · intro s s' hr ih hs hd p hp
    cases hs with
    | read | exec =>
      cases ih hd p hp with
      | waiting slot h₁ h₂ h₃ h₄ h₅ h₆ h₇ => exact .waiting slot h₁ h₂ h₃ h₄ h₅ h₆ h₇
      | awaiting slot h₁ h₂ h₃ h₄ seen h₅ h₆ h₇ h₈ h₉ h₁₀ h₁₁ =>
        exact .awaiting slot h₁ h₂ h₃ h₄ seen h₅ h₆ h₇ h₈ h₉ h₁₀ h₁₁
      | concluded h₁ h₂ h₃ h₄ => exact .concluded h₁ h₂ h₃ h₄
    | follow t act hlater hfollows hallowed =>
      have hmint := watches_minted hr
      have htraced := traced_of_reach hr
      have hjoint := watches_joint.reach hr
      obtain ⟨a, rfl⟩ | hq := PoolWorkflow.follow_cases (H := H) (t := t) hfollows
      · have hn := hmint.slots_nodup hd
        have hph := ih hd p hp
        by_cases hid : p.permitID = a.permitID
        · rw [hid] at hph ⊢
          have hshows := (accounted_of_reach hjoint).shows hallowed.1 hallowed.2
          have hrow := hmint.shows_eq hd hshows hp hid.symm
          refine hph.observe hn hallowed.2 ?_ (reads_wellFormed hjoint a hallowed.1) ?_
          · rw [hrow]
            exact hmint.generation p hp
          · intro b hb hbid
            exact reads_comparable hjoint b (htraced.delivered b hb).1 a hallowed.1 hbid
        · refine hph.other hn (fun slot hslot => ?_) fun b hb => ?_
          · exact observe_others hn (hslot ▸ hid)
          · obtain rfl := mem_singleton.1 hb
            exact fun h => hid h.symm
      · have hnone : ∀ a ∈ act.delivers, a.permitID ≠ p.permitID := by simp [hq.delivers]
        rw [follow_workflow] at hd hp
        obtain ⟨hout, hgranted⟩ | ⟨q, hgranted, hout⟩ := hq.slots
        · rw [hgranted] at hd hp
          exact (ih hd p hp).other (hmint.slots_nodup hd) (fun slot _ => by
            rw [follow_workflow, hout]) hnone
        · have hmint' : Minted H (s.follow H t act).workflow.toPoolRun :=
            watches_minted (hr.step (.follow t act hlater hfollows hallowed))
          have hfresh := hmint'.fresh hd hgranted
          rw [hgranted] at hd hp
          have hd' : H.Distinct s.workflow.granted :=
            hd.mono fun r hr' => mem_append_left _ hr'
          obtain hp | hp := mem_append.1 hp
          · refine (ih hd' p hp).other (hmint.slots_nodup hd') (fun slot hslot => ?_) hnone
            rw [follow_workflow, hout, mem_append, mem_singleton]
            refine or_iff_left fun h => hfresh p hp ?_
            rw [← hslot, h]
          · -- a new permit: nothing of it can have been read
            obtain rfl := mem_singleton.1 hp
            have hunread : ∀ a ∈ s.delivered, a.permitID ≠ p.permitID := by
              intro a ha hid
              obtain ⟨hread, hpool⟩ := htraced.delivered a ha
              obtain ⟨r, hr', hrow⟩ := (accounted_of_reach hjoint).shows hread hpool
              refine hfresh r hr' ?_
              rw [← hid, hrow, Reservation.stored]
            refine .waiting { id := p.permitID } ?_ rfl rfl rfl ?_ ?_ ?_
            · rw [follow_workflow, hout]
              exact mem_concat_self
            · rintro ⟨a, ha, hid, -⟩
              rw [delivered_quiet hq] at ha
              exact hunread a ha hid
            · rw [applied_quiet hq]
              refine count_eq_zero.2 fun hmem => ?_
              obtain ⟨a, ha, hid⟩ := htraced.applied _ hmem
              exact hunread a ha hid
            · rw [removed_quiet hq]
              refine count_eq_zero.2 fun hmem => ?_
              obtain ⟨a, ha, hid⟩ := htraced.removed _ hmem
              exact hunread a ha hid

theorem legible_of_allows (ha : s.Allows act) : s.workflow.Legible act := by
  intro a hmem _ _
  unfold WorkflowAct.delivers at hmem
  split at hmem
  · obtain rfl := mem_singleton.1 hmem
    exact (accounted_of_reach (watches_joint.reach hr)).shows ha.1 ha.2
  · cases hmem

theorem shelved_of_reach (hd : H.Distinct s.workflow.granted) : s.workflow.Shelved := by
  refine hr.invariant (P := fun s => H.Distinct s.workflow.granted → s.workflow.Shelved) ?_ ?_ hd
  · rintro s ⟨⟨⟨pool, generation, policy, -, hpool, -, -⟩, -⟩, hretiring, -⟩ -
    have hnew : s.workflow.pool = .new pool generation policy := hpool
    constructor <;> simp [hnew, new, hretiring]
  · intro s s' hr ih hs hd
    cases hs with
    | read | exec => exact ih hd
    | follow t act hlater hfollows hallowed =>
      have hmint := watches_minted hr
      have hmint' := watches_minted (hr.step (.follow t act hlater hfollows hallowed))
      have hd' : H.Distinct s.workflow.granted :=
        hd.mono (PoolWorkflow.follow_frame s.workflow t act).2.2
      exact (ih hd').follow hmint hmint' hd hfollows (legible_of_allows hr hallowed)

end Watch

/-- **Observation exactly once.** However the rows of a permit are
delivered, its outcome is applied once if one of them was settled, and
otherwise not at all; its slot is removed once if one of them was settled
and stopped, and otherwise it is there; between the two nothing is
granted. A row that is applied brings its outcome to the controller, and
any other its claim at most. An ordinary permit is put on the list of retirements by the step
that removes its slot, and it leaves the list only with a batch that the
ledger has acknowledged. -/
theorem observation_exactly_once {s : Watch} (hr : (watches H size).Reach s)
    (hd : H.Distinct s.workflow.granted) {p : Reservation} (hp : p ∈ s.workflow.granted) :
    (s.Settled p.permitID → s.applied.count p.permitID = 1)
      ∧ (¬ s.Settled p.permitID → s.applied.count p.permitID = 0)
      ∧ (s.Stopped p.permitID → s.removed.count p.permitID = 1
        ∧ p.permitID ∉ s.workflow.pool.slots)
      ∧ (¬ s.Stopped p.permitID → s.removed.count p.permitID = 0
        ∧ p.permitID ∈ s.workflow.pool.slots)
      ∧ (s.Settled p.permitID → ¬ s.Stopped p.permitID → ∀ t, s.workflow.pool.canGrant t = false)
      ∧ (∀ t a out, s.workflow.pool.applies a = some out → s.workflow.pool.observe H t a
        = (((s.workflow.pool.heard t a).dropIntent a.permitID).applyOutcome H t a out).settleSlot a)
      ∧ (∀ t a, s.workflow.pool.applies a = none →
        (s.workflow.pool.observe H t a).controller = s.workflow.pool.controller
          ∨ (s.workflow.pool.observe H t a).controller = (s.workflow.pool.heard t a).controller)
      ∧ ∀ s', (watches H size).step s s' →
        (p.kind = .ordinary → ((p.permitID ∉ s.workflow.pool.requestRetirements
            ∧ p.permitID ∈ s'.workflow.pool.requestRetirements)
          ↔ (p.permitID ∈ s.workflow.pool.slots ∧ p.permitID ∉ s'.workflow.pool.slots)))
        ∧ (p.permitID ∈ s.workflow.pool.requestRetirements →
          p.permitID ∉ s'.workflow.pool.requestRetirements →
          ∃ t b, s' = s.follow H t .retired ∧ s.workflow.retiring = some b ∧ p.permitID ∈ b) := by
  have hphase := Watch.phase_of_reach hr hd p hp
  have hstopped : s.Stopped p.permitID → s.Settled p.permitID :=
    fun ⟨a, ha, hid, hst, _⟩ => ⟨a, ha, hid, hst⟩
  have hslot : ∀ {slot : PoolPermit}, slot ∈ s.workflow.pool.outstanding →
      slot.id = p.permitID → p.permitID ∈ s.workflow.pool.slots :=
    fun hs hid => mem_map.2 ⟨_, hs, hid⟩
  refine ⟨?_, ?_, ?_, ?_, ?_, fun t a out => observe_of_applies, fun t a => observe_controller, ?_⟩
  · intro hset
    cases hphase with
    | waiting _ _ _ _ _ huns => exact absurd hset huns
    | awaiting _ _ _ _ _ _ _ _ _ _ _ honce | concluded _ _ honce => exact honce
  · intro huns
    cases hphase with
    | waiting _ _ _ _ _ _ hunapp => exact hunapp
    | awaiting _ _ _ _ _ seen hdel hof hset => exact absurd ⟨seen, hdel, hof, hset⟩ huns
    | concluded _ hst => exact absurd (hstopped hst) huns
  · intro hst
    cases hphase with
    | waiting _ _ _ _ _ huns => exact absurd (hstopped hst) huns
    | awaiting _ _ _ _ _ _ _ _ _ _ hunst => exact absurd hst hunst
    | concluded hgone _ _ hrem => exact ⟨hrem, hgone⟩
  · intro hunst
    cases hphase with
    | waiting _ hs hid _ _ _ _ hunrem | awaiting _ hs hid _ _ _ _ _ _ _ _ _ hunrem =>
      exact ⟨hunrem, hslot hs hid⟩
    | concluded _ hst => exact absurd hst hunst
  · intro hset hunst t
    cases hphase with
    | waiting _ _ _ _ _ huns => exact absurd hset huns
    | awaiting _ hs _ _ hwait => exact canGrant_of_awaiting hs hwait t
    | concluded _ hst => exact absurd hst hunst
  · intro s' hs
    cases hs with
    | read | exec =>
      exact ⟨fun _ => ⟨fun h => absurd h.2 h.1, fun h => absurd h.1 h.2⟩, fun h h' => absurd h h'⟩
    | follow t act hlater hfollows hallowed =>
      have hmint := Watch.watches_minted hr
      have hshelf := Watch.shelved_of_reach hr hd
      refine ⟨fun hkind => ?_, fun hin hout => ?_⟩
      · exact hshelf.enters_iff hmint hd hfollows (Watch.legible_of_allows hr hallowed) hp hkind
      · obtain ⟨rfl, b, hb, hmem⟩ := hshelf.leaves hmint hd hfollows hin hout
        exact ⟨t, b, rfl, hb, hmem⟩

/-! ## A permit that lapses -/

/-- Transactions run as they do in the ledger. -/
theorem watches_of_execAll {s : Watch} {script : List (Op × Clock)} {db' : DB}
    (hoffer : ∀ e ∈ script, s.joint.Offers e.1) (hr : (watches H size).Reach s)
    (h : execAll size script s.db = .ok db') : (watches H size).Reach { s with db := db' } := by
  exact execAll_induction (P := fun d => (watches H size).Reach { s with db := d })
    (fun e he _ _ hd hx => hd.step (.exec e.1 e.2 (hoffer e he) hx)) h hr

namespace Sample

/-- The sample workflow with its first grant. -/
def tended : PoolWorkflow := { fresh.act hashes (1000 * second) (.grant readyItem) with }

/-- The sample item submitted, its grant reserved, and never claimed. -/
def lapsing : List (Op × Clock) := submitted ++
  [(.reserveAttempt firstPermit, clock 1000), (.expireReservation firstPermit.permitID, clock 1006)]

theorem tended_granted : tended.granted = [firstPermit] ∧ tended.pool.poolID = "pool" := by
  decide +kernel

end Sample

open Sample

/-- The sample permit lapses; the pool reads its row, observes it, and lets
go of it. -/
theorem observation_exactly_once_sample :
    ∃ s, (watches hashes Sample.size).Reach s
      ∧ s.applied.count firstPermit.permitID = 1
      ∧ s.removed.count firstPermit.permitID = 1
      ∧ firstPermit.permitID ∉ s.workflow.pool.slots := by
  obtain ⟨hgranted, hpool⟩ := tended_granted
  have hlead : Leads Sample.size lapsing .empty fun db =>
      (db.attempts.get? firstPermit.permitID).any (fun a => a.state = .settled
        ∧ a.stoppedAt ≠ none ∧ a.permitID = firstPermit.permitID ∧ a.poolID = "pool")
        = true := by
    decide +kernel
  obtain ⟨db, hexec, hdb⟩ := hlead
  obtain ⟨a, hrow, ha⟩ := (Option.any_eq_true _ _).1 hdb
  obtain ⟨hset, hstop, hid, hof⟩ := of_decide_eq_true ha
  have hinit : (watches hashes Sample.size).Reach
      ⟨{ fresh with }, .empty, [], [], [], []⟩ :=
    .init ⟨⟨⟨"pool", 2, policy, by decide, rfl, rfl, rfl⟩, rfl, rfl⟩, rfl, rfl, rfl, rfl⟩
  have hgrant := hinit.step (.follow (1000 * second) (.act (.grant readyItem)) (by decide)
    trivial trivial)
  obtain ⟨s, hr, hw, hempty⟩ : ∃ s, (watches hashes Sample.size).Reach s
      ∧ s.workflow = tended ∧ s.db = .empty := ⟨_, hgrant, rfl, rfl⟩
  have hmem : firstPermit ∈ s.workflow.granted := by
    rw [hw, hgranted]
    exact mem_singleton.2 rfl
  have hoffer : ∀ e ∈ lapsing, s.joint.Offers e.1 := by
    intro e he
    simp only [lapsing, submitted, mem_append, mem_cons, not_mem_nil, or_false] at he
    obtain (rfl | rfl | rfl) | rfl | rfl := he
    · trivial
    · trivial
    · trivial
    · exact ⟨by decide, fun _ => hmem⟩
    · trivial
  have hread := (watches_of_execAll hoffer hr (hempty ▸ hexec)).step (.read hrow)
  have hnow : s.workflow.now ≤ 1007 * second := by
    have htime : tended.now = 1000 * second := PoolRun.act_now ..
    rw [hw, htime]
    decide
  have hobserve := hread.step (.follow (1007 * second) (.act (.observe a)) hnow trivial
    ⟨mem_cons_self, by rw [hof, ← hpool, ← hw]; rfl⟩)
  have hd : hashes.Distinct s.workflow.granted := by
    rw [hw, hgranted]
    exact hashes.distinct_singleton _
  obtain ⟨honce, -, hgone, -⟩ := observation_exactly_once hobserve hd hmem
  have hlast : ∀ l : List Attempt, a ∈ l ++ [a] := fun l =>
    mem_concat_self
  exact ⟨_, hobserve, honce ⟨a, hlast _, hid, hset⟩, hgone ⟨a, hlast _, hid, hset, hstop⟩⟩

end HardenLlm.Batch
