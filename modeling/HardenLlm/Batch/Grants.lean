import Mathlib.Data.List.Infix
import HardenLlm.Batch.Model.PoolRun
/-!
# The permits a pool grants

A pool's whole life as a run: grants, observed rows, acknowledged starts,
signals, at times that never go back. Every slot and every start intent
belongs to a grant, no two grants share a sequence, and with no two names
of the run hashed to one UUID no two slots share a permit. The slots never
outnumber the largest concurrency a grant was made under.
-/

namespace HardenLlm.Batch

open List PoolState

/-! ## Names -/

/-- What a reservation remembers of the item it was granted for. -/
def Reservation.item (r : Reservation) : ReadyItem :=
  { kind := r.kind, requestID := r.requestID, ref := r.ref, budgetMS := r.budgetMS
    deadline := r.deadline, readyAt := 0 }

/-- The name a reservation's permit was hashed from. -/
def Reservation.name (r : Reservation) : String :=
  identity r.poolID r.generation r.sequence r.item

/-- **No two of the names collide.** -/
def Hashes.Distinct (H : Hashes) (rs : List Reservation) : Prop :=
  ∀ r ∈ rs, ∀ r' ∈ rs, H.uuid r.name = H.uuid r'.name → r.name = r'.name

instance (H : Hashes) (rs : List Reservation) : Decidable (H.Distinct rs) :=
  inferInstanceAs (Decidable (∀ r ∈ rs, ∀ r' ∈ rs, _))

theorem Hashes.Distinct.mono {H : Hashes} {rs rs' : List Reservation} (h : H.Distinct rs')
    (hsub : rs ⊆ rs') : H.Distinct rs :=
  fun r hr r' hr' => h r (hsub hr) r' (hsub hr')

theorem Hashes.distinct_singleton (H : Hashes) (p : Reservation) : H.Distinct [p] := by
  intro r hr r' hr' _
  rw [mem_singleton.1 hr, mem_singleton.1 hr']

/-- A decimal text has no separator in it. -/
theorem zero_notMem_repr (n : ℕ) : '\x00' ∉ n.repr.toList := by
  intro h
  rw [Nat.toList_repr] at h
  have hd := Nat.isDigit_of_mem_toDigits (by decide) (by decide) h
  exact absurd hd (by decide)

/-- Up to the first separator, a text is what was written before it. -/
theorem takeWhile_separator {l r : List Char} (h : '\x00' ∉ l) :
    (l ++ '\x00' :: r).takeWhile (· ≠ '\x00') = l := by
  rw [takeWhile_append_of_pos]
  · simp
  · intro c hc
    have : c ≠ '\x00' := fun e => h (e ▸ hc)
    simpa using this

/-- **A decimal number before a separator can be read back.** -/
theorem sequence_of_text {m n : ℕ} {rest rest' : List Char}
    (h : m.repr.toList ++ '\x00' :: rest = n.repr.toList ++ '\x00' :: rest') : m = n := by
  have htext : m.repr.toList = n.repr.toList := by
    rw [← takeWhile_separator (r := rest) (zero_notMem_repr m), h,
      takeWhile_separator (zero_notMem_repr n)]
  rw [Nat.toList_repr, Nat.toList_repr] at htext
  rw [← Nat.ofDigitChars_ten_toDigits (n := m), htext, Nat.ofDigitChars_ten_toDigits]

/-- **A name says which grant it is.** Within one generation of a pool the
sequence can be read back from it. -/
theorem identity_sequence {pool : String} {generation : ℤ} {m n : ℕ} {item item' : ReadyItem}
    (h : identity pool generation m item = identity pool generation n item') : m = n := by
  have hl := congrArg String.toList h
  simp only [identity, String.toList_append, append_assoc] at hl
  replace hl := append_cancel_left (append_cancel_left (append_cancel_left (append_cancel_left hl)))
  exact sequence_of_text hl

/-! ## What a grant does, and what nothing else does -/

variable {H : Hashes} {r : PoolRun} {id : String}

/-- **What everything but a grant keeps**: the slots and intents of `s'`
are among those of `s`, in order, a slot goes only for a stopped permit and
an intent only for a begun one, and no sequence was taken. -/
structure PoolState.Keeps (stopped begun : String → Prop) (s s' : PoolState) : Prop where
  poolID : s'.poolID = s.poolID
  generation : s'.generation = s.generation
  sequence : s'.sequence = s.sequence
  ages : s.episode ≤ s'.episode ∧ s.windowID ≤ s'.windowID ∧ s.policyRevision ≤ s'.policyRevision
  slots : (s'.outstanding.map (·.id)).Sublist (s.outstanding.map (·.id))
  intents : s'.startIntents.Sublist s.startIntents
  held : ∀ id ∈ s.outstanding.map (·.id), id ∈ s'.outstanding.map (·.id) ∨ stopped id
  wanted : ∀ r ∈ s.startIntents, r ∈ s'.startIntents ∨ begun r.permitID

/-- Erasing under one key loses nothing under another. -/
theorem mem_eraseP_or {α κ : Type*} [DecidableEq κ] (f : α → κ) (k : κ) {l : List α} {x : α}
    (h : x ∈ l) : x ∈ l.eraseP (fun y => decide (f y = k)) ∨ f x = k := by
  by_cases hk : f x = k
  · exact .inr hk
  · exact .inl ((mem_eraseP_of_neg (by simpa using hk)).2 h)

namespace PoolState

variable {stopped begun : String → Prop} {s s' s'' : PoolState} {now : ℤ} {a : Attempt}

theorem Keeps.trans (h : s.Keeps stopped begun s') (h' : s'.Keeps stopped begun s'') :
    s.Keeps stopped begun s'' where
  poolID := h'.poolID.trans h.poolID
  generation := h'.generation.trans h.generation
  sequence := h'.sequence.trans h.sequence
  ages := ⟨Int.le_trans h.ages.1 h'.ages.1, Int.le_trans h.ages.2.1 h'.ages.2.1,
    Int.le_trans h.ages.2.2 h'.ages.2.2⟩
  slots := h'.slots.trans h.slots
  intents := h'.intents.trans h.intents
  held id hid := (h.held id hid).elim (h'.held id) .inr
  wanted r hr := (h.wanted r hr).elim (h'.wanted r) .inr

section

variable (hp : s'.poolID = s.poolID) (hg : s'.generation = s.generation)
  (hq : s'.sequence = s.sequence) (ho : s'.outstanding = s.outstanding)
  (hi : s'.startIntents = s.startIntents)
include hp hg hq ho hi

/-- A step that leaves the permits alone, and may begin an episode, a
window or a policy. -/
theorem Keeps.of_eq
    (ha : s.episode ≤ s'.episode ∧ s.windowID ≤ s'.windowID
      ∧ s.policyRevision ≤ s'.policyRevision) : s.Keeps stopped begun s' :=
  ⟨hp, hg, hq, ha, by rw [ho], by rw [hi], fun _ h => .inl (by rw [ho]; exact h),
    fun _ h => .inl (by rw [hi]; exact h)⟩

/-- A step that changes neither the permits nor what counts them. -/
theorem Keeps.same (he : s'.episode = s.episode)
    (hw : s'.windowID = s.windowID) (hr : s'.policyRevision = s.policyRevision) :
    s.Keeps stopped begun s' :=
  .of_eq hp hg hq ho hi ⟨Int.le_of_eq he.symm, Int.le_of_eq hw.symm, Int.le_of_eq hr.symm⟩

end

variable (s now a)

theorem Keeps.refl : s.Keeps stopped begun s := .same rfl rfl rfl rfl rfl rfl rfl rfl

theorem keeps_refreshWindow : s.Keeps stopped begun (s.refreshWindow now) := by
  unfold refreshWindow
  split
  · refine .of_eq rfl rfl rfl rfl rfl ⟨Int.le_refl _, ?_, Int.le_refl _⟩
    dsimp only
    omega
  · exact .refl s

theorem keeps_dropIntent (hb : begun id) : s.Keeps stopped begun (s.dropIntent id) where
  poolID := rfl
  generation := rfl
  sequence := rfl
  ages := ⟨Int.le_refl _, Int.le_refl _, Int.le_refl _⟩
  slots := .refl _
  intents := eraseP_sublist
  held _ h := .inl h
  wanted r hr := by
    obtain h | rfl := mem_eraseP_or (·.permitID) id hr
    · exact .inl h
    · exact .inr hb

theorem keeps_padRecoveryFloor (previous : ℤ) :
    s.Keeps stopped begun (s.padRecoveryFloor H previous) := by
  unfold padRecoveryFloor
  dsimp only
  split_ifs <;> exact .same rfl rfl rfl rfl rfl rfl rfl rfl

theorem keeps_completion (out : Outcome) (probe : Bool) :
    s.Keeps stopped begun (s.completion now a out probe) := by
  refine .of_eq rfl rfl rfl rfl rfl ⟨?_, Int.le_refl _, Int.le_refl _⟩
  unfold completion
  dsimp only
  split <;> omega

theorem keeps_applyOutcome (out : Outcome) :
    s.Keeps stopped begun (s.applyOutcome H now a out) := by
  have hcompletion : ∀ probe, s.Keeps stopped begun (s.applyCompletion H now a out probe) := by
    intro probe
    have hkeeps : s.Keeps stopped begun ((s.completion now a out probe).padRecoveryFloor H
        s.controller.nextEligible) :=
      (keeps_completion s now a out probe).trans (keeps_padRecoveryFloor _ _)
    unfold applyCompletion
    dsimp only
    split
    · exact hkeeps.trans (.same rfl rfl rfl rfl rfl rfl rfl rfl)
    · exact hkeeps
  unfold applyOutcome applyNeverDispatched
  dsimp only
  split_ifs
  all_goals first | exact hcompletion _ | exact .same rfl rfl rfl rfl rfl rfl rfl rfl

theorem keeps_claimSlot (id : String) : s.Keeps stopped begun (s.claimSlot id) := by
  have hids : (s.claimSlot id).outstanding.map (·.id) = s.outstanding.map (·.id) := by
    unfold claimSlot
    dsimp only
    split
    · rw [map_modifyFirst]
      exact fun _ => rfl
    · rfl
  exact ⟨rfl, rfl, rfl, ⟨Int.le_refl _, Int.le_refl _, Int.le_refl _⟩, by rw [hids], .refl _,
    fun _ h => .inl (by rw [hids]; exact h), fun _ h => .inl h⟩

theorem keeps_anchorWindow (now window : ℤ) :
    s.Keeps stopped begun (s.anchorWindow now window) := by
  unfold anchorWindow
  split <;> exact .same rfl rfl rfl rfl rfl rfl rfl rfl

theorem keeps_observeClaim (hb : begun a.permitID) :
    s.Keeps stopped begun (s.observeClaim now a) := by
  have hdrop : s.Keeps stopped begun ((s.claimSlot a.permitID).dropIntent a.permitID) :=
    (keeps_claimSlot s a.permitID).trans (keeps_dropIntent _ hb)
  have hdate : s.Keeps stopped begun
      (((s.claimSlot a.permitID).dropIntent a.permitID).dateProbe now a.permitID) :=
    hdrop.trans (.same rfl rfl rfl rfl rfl rfl rfl rfl)
  exact hdate.trans (keeps_anchorWindow _ _ _)

theorem keeps_settleSlot
    (hs : a.stoppedAt ≠ none → stopped a.permitID) : s.Keeps stopped begun (s.settleSlot a) := by
  have hages : s.episode ≤ s.episode ∧ s.windowID ≤ s.windowID
      ∧ s.policyRevision ≤ s.policyRevision := ⟨Int.le_refl _, Int.le_refl _, Int.le_refl _⟩
  unfold settleSlot
  split
  · rename_i hstop
    refine ⟨rfl, rfl, rfl, hages, eraseP_sublist.map _, .refl _, ?_, fun _ h => .inl h⟩
    intro id hid
    obtain ⟨q, hq, rfl⟩ := mem_map.1 hid
    obtain h | hk := mem_eraseP_or (·.id) a.permitID hq
    · exact .inl (mem_map_of_mem h)
    · exact .inr (hk ▸ hs hstop)
  · -- the slot is rewritten in place, and its permit stays
    have hids : ∀ f : PoolPermit → PoolPermit, (∀ q, (f q).id = q.id) →
        (modifyFirst (fun q => q.id = a.permitID) f s.outstanding).map (·.id)
          = s.outstanding.map (·.id) := fun f hf => map_modifyFirst hf _
    refine ⟨rfl, rfl, rfl, hages, ?_, .refl _, fun _ h => .inl ?_, fun _ h => .inl h⟩
    · rw [hids]
      exact fun _ => rfl
    · rw [hids]
      · exact h
      · exact fun _ => rfl

theorem keeps_observeSettlement (out : Outcome)
    (slot : PoolPermit) (hs : a.stoppedAt ≠ none → stopped a.permitID) (hb : begun a.permitID) :
    s.Keeps stopped begun (s.observeSettlement H now a out slot) := by
  have hdrop : s.Keeps stopped begun (s.dropIntent a.permitID) := keeps_dropIntent s hb
  unfold observeSettlement
  dsimp only
  split
  · exact hdrop.trans (keeps_settleSlot _ _ hs)
  · exact (hdrop.trans (keeps_applyOutcome _ _ _ _)).trans (keeps_settleSlot _ _ hs)

/-- **An observed row** releases its own slot, once stopped, and its own
intent. -/
theorem keeps_observe
    (hs : a.stoppedAt ≠ none → stopped a.permitID) (hb : begun a.permitID) :
    s.Keeps stopped begun (s.observe H now a) := by
  have hclaim : s.Keeps stopped begun (if a.claimedAt ≠ none then s.observeClaim now a else s) := by
    split
    · exact keeps_observeClaim s now a hb
    · exact .refl s
  unfold observe
  split
  · exact .refl s
  · split
    · exact .refl s
    · dsimp only
      split
      · exact hclaim
      · split
        · exact hclaim
        · exact hclaim.trans (keeps_observeSettlement _ _ _ _ _ hs hb)

variable {s now a}

theorem keeps_acknowledgeStarts (started : List String) (hb : ∀ id ∈ started, begun id) :
    ∀ s : PoolState, s.Keeps stopped begun (s.acknowledgeStarts started) := by
  induction started with
  | nil => exact Keeps.refl
  | cons id rest ih =>
    intro s
    have hrest := ih (forall_mem_cons.1 hb).2
    exact (keeps_dropIntent s (hb id mem_cons_self)).trans (hrest _)

theorem keeps_resume (s : PoolState) (now : ℤ) : s.Keeps stopped begun (s.resume H now) := by
  have hcool : s.Keeps stopped begun (s.recool now) := by
    refine .of_eq rfl rfl rfl rfl rfl ⟨?_, Int.le_refl _, Int.le_refl _⟩
    unfold recool
    dsimp only
    omega
  unfold resume
  split
  · exact .same rfl rfl rfl rfl rfl rfl rfl rfl
  · exact hcool.trans (keeps_padRecoveryFloor _ _)

theorem keeps_configure (s : PoolState) (p : Policy) : s.Keeps stopped begun (s.configure p) := by
  unfold configure
  split
  · refine .of_eq rfl rfl rfl rfl rfl ⟨Int.le_refl _, Int.le_refl _, ?_⟩
    dsimp only
    omega
  · exact .refl s

end PoolState

/-- **A grant**: the item it is for, its reservation, and the slot and the
intent it adds. -/
structure PoolState.Grants (H : Hashes) (s : PoolState) (t : ℤ) (item : ReadyItem) (p : Reservation)
    (s' : PoolState) : Prop where
  valid : s.validItem t item
  fresh : s.startIntents.any (sameOwner item) = false
  made : p = s.reservationFor H t item
  idle : s.controller.probing = false
  room : (s.outstanding.length : ℤ) < s.controller.policy.concurrency
  state : s' = s.granted t p

namespace PoolState.Grants

variable {s s' : PoolState} {t : ℤ} {item : ReadyItem} {p : Reservation}

variable (h : s.Grants H t item p s')
include h

theorem poolID : p.poolID = s.poolID := by rw [h.made]; rfl

theorem generation : p.generation = s.generation := by
  rw [h.made]; rfl

theorem sequence : p.sequence = s.sequence + 1 := by rw [h.made]; rfl

theorem probe : p.probe = s.controller.cooling := by rw [h.made]; rfl

theorem named : p.permitID = H.uuid p.name := by
  rw [h.made]
  unfold Reservation.name Reservation.item reservationFor identity
  cases item.kind <;> rfl

end PoolState.Grants

/-- A pool that admits has no probe out and a slot to spare. -/
theorem PoolState.admits_iff {s : PoolState} {now : ℤ} (h : s.admits now = true) :
    s.controller.probing = false
      ∧ (s.outstanding.length : ℤ) < s.controller.policy.concurrency := by
  have hstart : s.controller.canStart now s.outstanding.length = true := by
    unfold admits at h
    split_ifs at h
    exact h
  unfold Controller.canStart at hstart
  split at hstart
  · exact absurd hstart (by simp)
  · rename_i hbusy
    refine ⟨?_, ?_⟩
    · have : ¬ s.controller.probing = true := fun hp => hbusy (.inr (.inr hp))
      simpa using this
    · have : ¬ s.controller.policy.concurrency ≤ s.outstanding.length :=
        fun hc => hbusy (.inr (.inl hc))
      omega

/-- The permits whose slot an action may release. -/
def PoolAct.stops : PoolAct → String → Prop
  | .observe a, id => a.permitID = id ∧ a.stoppedAt ≠ none
  | _, _ => False

/-- The permits whose intent an action may drop. -/
def PoolAct.begins : PoolAct → String → Prop
  | .observe a, id => a.permitID = id
  | .acknowledge started, id => id ∈ started
  | _, _ => False

namespace PoolRun

variable {r r' : PoolRun} {t : ℤ} {act : PoolAct} {item : ReadyItem}

/-- Everything but a grant that succeeds. -/
structure Idles (act : PoolAct) (r r' : PoolRun) : Prop where
  keeps : r.pool.Keeps act.stops act.begins r'.pool
  granted : r'.granted = r.granted
  peak : r'.peak = r.peak

/-- A grant that succeeds, from the window as it stands refreshed. -/
structure Grows (H : Hashes) (r : PoolRun) (t : ℤ) (item : ReadyItem) (r' : PoolRun) : Prop where
  grants : ∃ p, (r.pool.refreshWindow t).Grants H t item p r'.pool ∧ r'.granted = r.granted ++ [p]
  peak : r'.peak = max r.peak r.pool.controller.policy.concurrency

theorem act_now (r : PoolRun) (t : ℤ) (act : PoolAct) : (r.act H t act).now = t := by
  cases act with
  | grant => unfold PoolRun.act; dsimp only; split <;> rfl
  | _ => rfl

/-- A grant that is refused only refreshes the window. -/
theorem act_grant (r : PoolRun) (t : ℤ) (item : ReadyItem) :
    r.act H t (.grant item) = r.act H t .refresh
      ∨ r.Grows H t item (r.act H t (.grant item)) := by
  unfold PoolRun.act grant
  dsimp only
  split_ifs with hadmits hdup
  · exact .inl rfl
  · obtain ⟨hidle, hroom⟩ := admits_iff hadmits.1
    exact .inr ⟨⟨_, ⟨hadmits.2, by simpa using hdup, rfl, hidle, hroom, rfl⟩, rfl⟩, rfl⟩
  · exact .inl rfl

/-- **What one action does to the grants.** -/
theorem act_cases (r : PoolRun) (t : ℤ) (act : PoolAct) :
    r.Idles act (r.act H t act)
      ∨ ∃ item, act = .grant item ∧ r.Grows H t item (r.act H t act) := by
  cases act with
  | grant item =>
    obtain h | h := act_grant (H := H) r t item
    · rw [h]
      exact .inl ⟨keeps_refreshWindow _ _, rfl, rfl⟩
    · exact .inr ⟨item, rfl, h⟩
  | refresh => exact .inl ⟨keeps_refreshWindow _ _, rfl, rfl⟩
  | observe =>
    exact .inl ⟨keeps_observe _ _ _ (fun hs => ⟨rfl, hs⟩) rfl, rfl, rfl⟩
  | acknowledge =>
    exact .inl ⟨keeps_acknowledgeStarts _ (fun _ h => h) _, rfl, rfl⟩
  | resume => exact .inl ⟨keeps_resume _ _, rfl, rfl⟩
  | configure => exact .inl ⟨keeps_configure _ _, rfl, rfl⟩
  | housekeep => exact .inl ⟨.same rfl rfl rfl rfl rfl rfl rfl rfl, rfl, rfl⟩

theorem refreshWindow_policy (s : PoolState) (t : ℤ) :
    (s.refreshWindow t).controller.policy = s.controller.policy := by
  unfold refreshWindow
  split <;> rfl

end PoolRun

/-! ## The grants of a run -/

/-- **Where the slots and intents of a pool come from.** -/
structure Minted (H : Hashes) (r : PoolRun) : Prop where
  named : ∀ p ∈ r.granted, p.permitID = H.uuid p.name
  poolID : ∀ p ∈ r.granted, p.poolID = r.pool.poolID
  generation : ∀ p ∈ r.granted, p.generation = r.pool.generation
  nonneg : 0 ≤ r.pool.sequence
  sequences : ∀ p ∈ r.granted, 1 ≤ p.sequence ∧ p.sequence ≤ r.pool.sequence
  ordered : r.granted.Pairwise fun p q => p.sequence < q.sequence
  slots : (r.pool.outstanding.map (·.id)).Sublist (r.granted.map (·.permitID))
  intents : r.pool.startIntents.Sublist r.granted
  bounded : (r.pool.outstanding.length : ℤ) ≤ r.peak

namespace Minted

variable {r r' : PoolRun} {t : ℤ} {act : PoolAct} {item : ReadyItem}

theorem idle (hm : Minted H r) (h : r.Idles act r') : Minted H r' := by
  have hlen := h.keeps.slots.length_le
  simp only [length_map] at hlen
  have hbound := hm.bounded
  refine ⟨?_, ?_, ?_, ?_, ?_, ?_, ?_, ?_, ?_⟩
  · rw [h.granted]; exact hm.named
  · rw [h.granted, h.keeps.poolID]; exact hm.poolID
  · rw [h.granted, h.keeps.generation]; exact hm.generation
  · rw [h.keeps.sequence]; exact hm.nonneg
  · rw [h.granted, h.keeps.sequence]; exact hm.sequences
  · rw [h.granted]; exact hm.ordered
  · rw [h.granted]; exact h.keeps.slots.trans hm.slots
  · rw [h.granted]; exact h.keeps.intents.trans hm.intents
  · rw [h.peak]; omega

theorem grow (hm : Minted H r) (h : r.Grows H t item r') : Minted H r' := by
  obtain ⟨⟨p, hg, hgranted⟩, hpeak⟩ := h
  have hk : r.pool.Keeps (fun _ => False) (fun _ => False) (r.pool.refreshWindow t) :=
    keeps_refreshWindow _ _
  have hseq : p.sequence = r.pool.sequence + 1 := by rw [hg.sequence, hk.sequence]
  have hmem : ∀ q ∈ r'.granted, q ∈ r.granted ∨ q = p := by
    intro q hq
    rw [hgranted] at hq
    simpa using hq
  have hnonneg := hm.nonneg
  refine ⟨?_, ?_, ?_, ?_, ?_, ?_, ?_, ?_, ?_⟩
  · intro q hq
    obtain hq | rfl := hmem q hq
    · exact hm.named q hq
    · exact hg.named
  · intro q hq
    rw [hg.state]
    obtain hq | rfl := hmem q hq
    · exact (hm.poolID q hq).trans hk.poolID.symm
    · exact hg.poolID
  · intro q hq
    rw [hg.state]
    obtain hq | rfl := hmem q hq
    · exact (hm.generation q hq).trans hk.generation.symm
    · exact hg.generation
  · rw [hg.state]
    change 0 ≤ p.sequence
    omega
  · intro q hq
    rw [hg.state]
    change 1 ≤ q.sequence ∧ q.sequence ≤ p.sequence
    obtain hq | rfl := hmem q hq
    · have := hm.sequences q hq
      omega
    · omega
  · rw [hgranted, pairwise_append]
    refine ⟨hm.ordered, pairwise_singleton _ _, ?_⟩
    intro q hq q' hq'
    obtain rfl := mem_singleton.mp hq'
    have := (hm.sequences q hq).2
    omega
  · rw [hgranted, hg.state]
    simp only [granted, map_append]
    exact (hk.slots.trans hm.slots).append (.refl _)
  · rw [hgranted, hg.state]
    exact (hk.intents.trans hm.intents).append (.refl _)
  · have hroom := hg.room
    rw [PoolRun.refreshWindow_policy] at hroom
    have hlen : r'.pool.outstanding.length = (r.pool.refreshWindow t).outstanding.length + 1 := by
      rw [hg.state]
      simp [granted]
    rw [hlen, hpeak]
    push_cast
    omega

end Minted

theorem minted_of_reach (h : (pools H).Reach r) : Minted H r := by
  refine h.invariant ?_ ?_
  · rintro r ⟨pool, generation, policy, -, hpool, hgranted, hpeak⟩
    constructor <;> simp [hpool, hgranted, hpeak, new]
  · rintro r r' - hm ⟨t, act, -, -, rfl⟩
    obtain h | ⟨item, -, h⟩ := PoolRun.act_cases (H := H) r t act
    · exact hm.idle h
    · exact hm.grow h

/-! ## Grants are reservations the ledger accepts -/

theorem utf8ByteSize_le (s : String) : s.utf8ByteSize ≤ 4 * s.toList.length := by
  obtain ⟨l, rfl⟩ : ∃ l, s = String.ofList l := ⟨s.toList, by simp⟩
  induction l with
  | nil => simp
  | cons c l ih =>
    have hcons : String.ofList (c :: l) = String.singleton c ++ String.ofList l := by simp
    have hchar := c.utf8Size_le_four
    rw [hcons, String.utf8ByteSize_append, String.utf8ByteSize_singleton]
    simp only [String.toList_ofList, String.toList_append, String.toList_singleton, length_append,
      length_singleton] at ih ⊢
    omega

/-- A permit's workflow is its text under one of two headings. -/
theorem workflowFor_toList (kind : Kind) (id : String) :
    ∃ l : List Char, l.length = 20 ∧ (workflowFor kind id).toList = l ++ id.toList := by
  cases kind with
  | job => exact ⟨"hllm-cpa-attempt-v2/".toList, rfl, String.toList_append ..⟩
  | ordinary => exact ⟨"hllm-cpa-request-v2/".toList, rfl, String.toList_append ..⟩

/-- The workflow of a valid permit has a name the ledger accepts. -/
theorem workflowFor_size (kind : Kind) (h : validPermitID id = true) :
    0 < (workflowFor kind id).utf8ByteSize
      ∧ (workflowFor kind id).utf8ByteSize ≤ 256 := by
  have hlen : id.toList.length = 36 := by
    simp only [validPermitID, Bool.and_eq_true, decide_eq_true_eq] at h
    exact h.1.1
  obtain ⟨l, hl, htext⟩ := workflowFor_toList kind id
  have hsize := utf8ByteSize_le (workflowFor kind id)
  have hlength := congrArg List.length htext
  rw [length_append] at hlength
  refine ⟨Nat.pos_of_ne_zero fun hzero => ?_, by omega⟩
  rw [String.utf8ByteSize_eq_zero_iff] at hzero
  rw [hzero, String.toList_empty, length_nil] at hlength
  omega

/-- A workflow runs one permit. -/
theorem workflowFor_inj {k k' : Kind} {id' : String} (h : workflowFor k id = workflowFor k' id') :
    id = id' := by
  obtain ⟨l, hl, htext⟩ := workflowFor_toList k id
  obtain ⟨l', hl', htext'⟩ := workflowFor_toList k' id'
  rw [h, htext'] at htext
  exact (String.toList_inj.1 (append_inj htext (hl'.trans hl.symm)).2).symm

/-- **A grant as `ReserveAttempt` wants it.** -/
structure Reservation.Sound (p : Reservation) : Prop where
  wellFormed : p.wellFormed
  epoch : 0 ≤ p.epoch
  windowID : 0 ≤ p.windowID
  workflow : p.workflowID = workflowFor p.kind p.permitID

/-- The counters a grant copies have begun. -/
structure PoolState.Begun (s : PoolState) : Prop where
  sequence : 0 ≤ s.sequence
  episode : 1 ≤ s.episode
  windowID : 1 ≤ s.windowID
  policyRevision : 1 ≤ s.policyRevision

theorem PoolState.Keeps.begun {stopped begun : String → Prop} {s s' : PoolState}
    (h : s.Keeps stopped begun s') (hb : s.Begun) : s'.Begun := by
  have hs := hb.sequence
  have he := hb.episode
  have hw := hb.windowID
  have hp := hb.policyRevision
  have ha := h.ages
  refine ⟨?_, ?_, ?_, ?_⟩
  · rw [h.sequence]
    exact hs
  all_goals omega

theorem PoolState.Grants.sound {s s' : PoolState} {t : ℤ} {item : ReadyItem} {p : Reservation}
    (h : s.Grants H t item p s') (hb : s.Begun) : p.Sound := by
  obtain ⟨hpool, hgen, -, hscope, howner, hbudget, hbudget', -⟩ := h.valid
  have hid := H.uuid_valid (identity s.poolID s.generation (s.sequence + 1) item)
  obtain ⟨hsize, hsize'⟩ := workflowFor_size item.kind hid
  have hs := hb.sequence
  have he := hb.episode
  have hw := hb.windowID
  rw [h.made]
  have hlimit : milliseconds maximumGenerationBudget = 900000 := by decide
  refine ⟨⟨hid, hpool, hscope, hgen, ?_, hsize, hsize', hbudget, ?_, hb.policyRevision, ?_⟩,
    ?_, ?_, rfl⟩
  · change 1 ≤ s.sequence + 1
    omega
  · rw [← hlimit]
    exact hbudget'
  · unfold reservationFor
    dsimp only
    cases hk : item.kind with
    | job =>
      rw [hk] at howner
      exact ⟨howner.1, howner.2.1, howner.2.2.1, rfl⟩
    | ordinary =>
      rw [hk] at howner
      exact howner
  · change 0 ≤ s.episode
    omega
  · change 0 ≤ s.windowID
    omega

/-- **Every grant of a run is one the ledger accepts.** -/
theorem sound_of_reach (h : (pools H).Reach r) : r.pool.Begun ∧ ∀ p ∈ r.granted, p.Sound := by
  refine h.invariant (P := fun r => r.pool.Begun ∧ ∀ p ∈ r.granted, p.Sound) ?_ ?_
  · rintro r ⟨pool, generation, policy, -, hpool, hgranted, -⟩
    rw [hpool, hgranted]
    exact ⟨by constructor <;> simp [new], by simp⟩
  · rintro r r' - ⟨hb, hsound⟩ ⟨t, act, -, -, rfl⟩
    obtain h | ⟨item, -, ⟨p, hg, hgranted⟩, -⟩ := PoolRun.act_cases (H := H) r t act
    · rw [h.granted]
      exact ⟨h.keeps.begun hb, hsound⟩
    · have hk : r.pool.Keeps (fun _ => False) (fun _ => False) (r.pool.refreshWindow t) :=
        keeps_refreshWindow _ _
      have hb' := hk.begun hb
      have hp := hg.sound hb'
      refine ⟨?_, ?_⟩
      · rw [hg.state]
        refine ⟨?_, hb'.episode, hb'.windowID, hb'.policyRevision⟩
        have := hp.wellFormed.2.2.2.2.1
        change 0 ≤ p.sequence
        omega
      · intro q hq
        rw [hgranted, mem_append, mem_singleton] at hq
        obtain hq | rfl := hq
        · exact hsound q hq
        · exact hp

/-- **Two grants of a run have different names**, whatever they are for. -/
theorem Minted.name_ne (hm : Minted H r) {p q : Reservation} (hp : p ∈ r.granted)
    (hq : q ∈ r.granted) (h : p.sequence ≠ q.sequence) : p.name ≠ q.name := by
  intro hname
  have hp0 := (hm.sequences p hp).1
  have hq0 := (hm.sequences q hq).1
  unfold Reservation.name at hname
  rw [hm.poolID p hp, hm.generation p hp, hm.poolID q hq, hm.generation q hq,
    ← Int.toNat_of_nonneg (by omega : 0 ≤ p.sequence),
    ← Int.toNat_of_nonneg (by omega : 0 ≤ q.sequence)] at hname
  have := identity_sequence hname
  omega

/-- A sequence says which grant it is. -/
theorem Minted.eq_of_sequence (hm : Minted H r) {p q : Reservation} (hp : p ∈ r.granted)
    (hq : q ∈ r.granted) (h : p.sequence = q.sequence) : p = q := by
  have hnodup : (r.granted.map (·.sequence)).Nodup := by
    rw [List.Nodup, pairwise_map]
    exact hm.ordered.imp fun hlt => Int.ne_of_lt hlt
  exact inj_on_of_nodup_map hnodup hp hq h

/-- **No permit is granted twice.** -/
theorem Minted.permits_nodup (hm : Minted H r) (hd : H.Distinct r.granted) :
    (r.granted.map (·.permitID)).Nodup := by
  rw [List.Nodup, pairwise_map]
  refine hm.ordered.imp_of_mem ?_
  intro p q hp hq hlt heq
  rw [hm.named p hp, hm.named q hq] at heq
  exact hm.name_ne hp hq (by omega) (hd p hp q hq heq)

/-- **No two slots hold one permit.** -/
theorem Minted.slots_nodup (hm : Minted H r) (hd : H.Distinct r.granted) :
    (r.pool.outstanding.map (·.id)).Nodup :=
  hm.slots.nodup (hm.permits_nodup hd)

end HardenLlm.Batch
