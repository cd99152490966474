import HardenLlm.Batch.Model.Joint
import HardenLlm.Batch.Grants
import HardenLlm.Batch.Rows
/-!
# What the pool knows of its rows

Every row of the pool is one of its grants, stored. A row that was read is
an earlier state of the row that is there now, so what it proves still
holds: a permit without a slot was read stopped, and a permit without a
start intent has a row.
-/

namespace HardenLlm.Batch

open List

variable {H : Hashes} {size : AttemptObservation → ℕ} {s s' : Joint} {db db' : DB} {op : Op}
  {c : Clock}

/-! ## Rows and grants -/

/-- A slot of this permit. -/
def PoolState.HasSlot (s : PoolState) (id : String) : Prop := id ∈ s.outstanding.map (·.id)

/-- **The pool's view of its ledger.** -/
structure Accounted (s : Joint) : Prop where
  rows : ∀ id a, s.db.attempts.get? id = some a →
    a.workflowID = PoolState.workflowFor a.kind a.permitID
      ∧ (a.poolID = s.run.pool.poolID → ∃ p ∈ s.run.granted, a.toReservation = p.stored)
  reads : ∀ a ∈ s.reads, ∃ b, s.db.attempts.get? a.permitID = some b ∧ a.Later b
  slots : ∀ p ∈ s.run.granted, s.run.pool.HasSlot p.permitID
    ∨ ∃ a ∈ s.reads, a.permitID = p.permitID ∧ a.stoppedAt ≠ none
  intents : ∀ p ∈ s.run.granted, p ∈ s.run.pool.startIntents
    ∨ ∃ a, s.db.attempts.get? p.permitID = some a

/-- What an allowed action stops was read stopped. -/
theorem Joint.Allows.stops {act : PoolAct} (hact : s.Allows act) {id : String}
    (hs : act.stops id) : ∃ a ∈ s.reads, a.permitID = id ∧ a.stoppedAt ≠ none := by
  cases act with
  | observe a => exact ⟨a, hact.1, hs⟩
  | _ => exact hs.elim

namespace Accounted

variable (h : Accounted s)
include h

/-- A row of the pool that was read is one it granted. -/
theorem shows {a : Attempt} (ha : a ∈ s.reads)
    (hp : a.poolID = s.run.pool.poolID) : s.run.Shows a := by
  obtain ⟨b, hb, hlater⟩ := h.reads a ha
  obtain ⟨p, hp, hrow⟩ := (h.rows _ b hb).2 (by rw [hlater.reservation]; exact hp)
  exact ⟨p, hp, hlater.reservation ▸ hrow⟩

/-- What it begins has a row. -/
theorem begins {act : PoolAct} (hact : s.Allows act) {id : String}
    (hb : act.begins id) : ∃ a, s.db.attempts.get? id = some a := by
  cases act with
  | observe a =>
    obtain ⟨b, hb', -⟩ := h.reads a hact.1
    exact ⟨b, hb ▸ hb'⟩
  | acknowledge => exact Option.isSome_iff_exists.1 (hact id hb)
  | _ => exact hb.elim

theorem act {t : ℤ} {act : PoolAct} (hact : s.Allows act) :
    Accounted { s with run := s.run.act H t act } := by
  obtain hidle | ⟨item, -, ⟨p, hg, hgranted⟩, -⟩ := PoolRun.act_cases (H := H) s.run t act
  · refine ⟨?_, h.reads, ?_, ?_⟩
    · rw [hidle.granted, hidle.keeps.poolID]
      exact h.rows
    · rw [hidle.granted]
      intro p hp
      obtain hslot | hread := h.slots p hp
      · exact (hidle.keeps.held _ hslot).imp_right hact.stops
      · exact .inr hread
    · rw [hidle.granted]
      intro p hp
      obtain hintent | hrow := h.intents p hp
      · exact (hidle.keeps.wanted p hintent).imp_right (h.begins hact)
      · exact .inr hrow
  · have hk : s.run.pool.Keeps (fun _ => False) (fun _ => False) (s.run.pool.refreshWindow t) :=
      PoolState.keeps_refreshWindow _ _
    have hpool : (s.run.act H t act).pool.poolID = s.run.pool.poolID := by
      rw [hg.state]
      exact hk.poolID
    have hslots : (s.run.act H t act).pool.outstanding.map (·.id)
        = (s.run.pool.refreshWindow t).outstanding.map (·.id) ++ [p.permitID] := by
      rw [hg.state]
      simp [PoolState.granted]
    have hintents : (s.run.act H t act).pool.startIntents
        = (s.run.pool.refreshWindow t).startIntents ++ [p] := by
      rw [hg.state]
      rfl
    refine ⟨?_, h.reads, ?_, ?_⟩
    · intro id a ha
      obtain ⟨hw, hrow⟩ := h.rows id a ha
      refine ⟨hw, fun hp => ?_⟩
      obtain ⟨q, hq, hstored⟩ := hrow (hp.trans hpool)
      exact ⟨q, by rw [hgranted]; exact mem_append_left _ hq, hstored⟩
    · intro q hq
      dsimp only [PoolState.HasSlot]
      rw [hslots]
      rw [hgranted, mem_append, mem_singleton] at hq
      obtain hq | rfl := hq
      · refine (h.slots q hq).imp_left fun hslot => mem_append_left _ ?_
        exact (hk.held _ hslot).resolve_right id
      · exact .inl mem_concat_self
    · intro q hq
      dsimp only
      rw [hintents]
      rw [hgranted, mem_append, mem_singleton] at hq
      obtain hq | rfl := hq
      · refine (h.intents q hq).imp_left fun hintent => mem_append_left _ ?_
        exact (hk.wanted _ hintent).resolve_right id
      · exact .inl mem_concat_self

theorem exec (hr : (ledger size).Reach s.db) (hoffer : s.Offers op)
    (hexec : op.exec size c s.db = .ok db') : Accounted { s with db := db' } := by
  have heffect := Op.exec_effect hexec
  refine ⟨?_, ?_, h.slots, ?_⟩
  · intro id a' ha'
    obtain ⟨a, ha, hres, -⟩ | ⟨r, rfl, -, -, hres, -⟩ := heffect.origin ha'
    · have hrow := h.rows id a ha
      rw [hres]
      exact hrow
    · rw [hres]
      refine ⟨hoffer.1, fun hp => ⟨r, hoffer.2 hp, rfl⟩⟩
  · intro a ha
    obtain ⟨b, hb, hlater⟩ := h.reads a ha
    obtain ⟨b', hb', hlater'⟩ := later_of_run hr (.single ⟨op, c, hexec⟩) hb
    exact ⟨b', hb', hlater.trans hlater'⟩
  · intro p hp
    refine (h.intents p hp).imp_right fun ⟨a, ha⟩ => ?_
    obtain ⟨a', ha', -⟩ := heffect.reservation ha
    exact ⟨a', ha'⟩

end Accounted

/-- **The database is the ledger's**, whatever the pool does. -/
theorem joint_ledger : (joint H size).Simulates (ledger size) Joint.db := by
  refine ⟨fun s h => h.2.1, ?_⟩
  rintro s s' - (_ | _ | ⟨op, c, -, hexec⟩)
  · exact .inl rfl
  · exact .inl rfl
  · exact .inr ⟨op, c, hexec⟩

theorem accounted_of_reach (hr : (joint H size).Reach s) : Accounted s := by
  refine hr.invariant (P := Accounted) ?_ ?_
  · rintro s ⟨⟨pool, generation, policy, -, -, hgranted, -⟩, hdb, hreads⟩
    refine ⟨?_, ?_, ?_, ?_⟩
    · intro id a ha
      rw [hdb] at ha
      cases ha
    all_goals simp [hgranted, hreads]
  · intro s s' hr h hs
    cases hs with
    | act t act _ hact => exact h.act hact
    | @read id a ha =>
      refine ⟨h.rows, ?_, ?_, h.intents⟩
      · rintro b (_ | ⟨_, hb⟩)
        · exact ⟨a, by rw [permitID_of_get? ha]; exact ha, .refl a⟩
        · exact h.reads b hb
      · intro p hp
        refine (h.slots p hp).imp_right fun hslot => ?_
        obtain ⟨b, hb, hstop⟩ := hslot
        exact ⟨b, mem_cons_of_mem _ hb, hstop⟩
    | exec op c hoffer hexec => exact h.exec (joint_ledger.reach hr) hoffer hexec

/-- **The pool is a pool's run**, whatever its ledger shows it. -/
theorem joint_pools : (joint H size).Simulates (pools H) Joint.run := by
  refine ⟨fun s h => h.1, ?_⟩
  intro s s' hr hs
  cases hs with
  | act t act hlater hact =>
    refine .inr ⟨t, act, hlater, ?_, rfl⟩
    cases act with
    | observe => exact (accounted_of_reach hr).shows hact.1 hact.2
    | _ => trivial
  | read | exec => exact .inl rfl

end HardenLlm.Batch
