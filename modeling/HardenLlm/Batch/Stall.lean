import HardenLlm.Batch.Window
import HardenLlm.Batch.Plausible
/-!
# No window stalls

A window that is not anchored never runs out. It cannot block admission
for good either: as long as it is not anchored, each start it counts is a
permit that is out and not yet settled, and the claim or the settlement of
that permit anchors the window or gives the start back. This holds for
pools that begin anew and for those a legacy dispatcher hands over.
-/

namespace HardenLlm.Batch

open List PoolState

variable {H : Hashes}

/-- The permit was granted in the current window. -/
def PoolRun.carries (r : PoolRun) (id : String) : Bool :=
  r.granted.any fun p => p.permitID = id && p.windowID = r.pool.windowID

/-- **A pool's runs over a ledger**, from `NewPoolState` or from a legacy
dispatcher's hand-over. The rows it observes are any the ledger can
show. -/
def windowed (H : Hashes) : System PoolRun where
  init r := r.granted = [] ∧ r.peak = 0
    ∧ ((∃ pool generation policy, policy.Valid ∧ r.pool = .new pool generation policy)
      ∨ ∃ fence d, 0 ≤ fence.sequence ∧ dispatchers.Reach d ∧ r.pool = handOver fence d.controller)
  step r r' := ∃ t act, r.now ≤ t ∧ r.Permits act ∧ (∀ a, act = .observe a → a.Plausible)
    ∧ r' = r.act H t act

/-! ## The legacy dispatcher's window -/

namespace Controller

variable (c : Controller) (now reserved : ℤ)

theorem start_windowStart : (c.start now).windowStart = (c.startWindow now).windowStart := by
  simp only [start]
  generalize c.startWindow now = c₁
  have hepoch : (if c₁.epoch = 0 then { c₁ with epoch := now } else c₁).windowStart
      = c₁.windowStart := by
    split <;> rfl
  generalize (if c₁.epoch = 0 then { c₁ with epoch := now } else c₁) = c₂ at hepoch ⊢
  split
  · exact hepoch
  · exact (startPace_sameWindow ..).windowStart.trans hepoch

/-- A metered start opens the window, unless it is open. -/
theorem startWindow_windowStart (hm : 0 < c.policy.windowRequests) (ht : now ≠ 0) :
    (c.startWindow now).windowStart ≠ 0 := by
  simp only [startWindow, if_pos hm]
  split
  · exact ht
  · rename_i h
    exact fun hz => h (.inl hz)

theorem refundWindow_window : (c.refundWindow reserved).windowStart = c.windowStart
    ∧ (c.refundWindow reserved).windowStarts ≤ c.windowStarts := by
  unfold refundWindow
  split
  · exact ⟨rfl, by dsimp only; omega⟩
  · exact ⟨rfl, Int.le_refl _⟩

end Controller

/-- A dispatcher that never opened a window counts nothing in one. -/
theorem dispatcher_window {d : Dispatcher} (hr : dispatchers.Reach d) :
    0 < d.now ∧ (d.controller.windowStart = 0 → d.controller.windowStarts ≤ 0) := by
  refine hr.invariant (P := fun d => 0 < d.now
    ∧ (d.controller.windowStart = 0 → d.controller.windowStarts ≤ 0)) ?_ ?_
  · rintro d ⟨⟨policy, -, hc⟩, hnow⟩
    refine ⟨hnow, fun _ => ?_⟩
    rw [hc]
    exact Int.le_refl 0
  · rintro d d' - ⟨hnow, ih⟩ hs
    cases hs with
    | @start t =>
      refine ⟨by dsimp only; omega, ?_⟩
      by_cases hm : 0 < d.controller.policy.windowRequests
      · intro hz
        rw [Controller.start_windowStart] at hz
        exact absurd hz (Controller.startWindow_windowStart _ t hm (by omega))
      · have h := Controller.start_sameWindow d.controller t hm
        intro hz
        rw [h.windowStart] at hz
        rw [h.windowStarts]
        exact ih hz
    | @complete t hlater dispatched reserved probe out =>
      refine ⟨by dsimp only; omega, fun hz => ?_⟩
      have hw := Controller.complete_sameWindow d.controller t dispatched reserved
        (Controller.retryDelay out.retryAfterMS) (Controller.admissionKind out) probe
      obtain ⟨hstart, hle⟩ := Controller.refundWindow_window d.controller reserved
      have hz' := hw.windowStart.symm.trans hz
      have hstarts := hw.windowStarts
      dsimp only [Controller.completeOutcome]
      by_cases hk : Controller.admissionKind out = .rejected
      · rw [if_pos hk] at hz' hstarts
        have := ih (hstart.symm.trans hz')
        omega
      · rw [if_neg hk] at hz' hstarts
        have := ih hz'
        omega
    | @resume => exact ⟨by dsimp only; omega, ih⟩
    | @configure p c hv =>
      unfold Controller.configure at hv
      split at hv
      · obtain rfl := Option.some.inj hv
        exact ⟨hnow, ih⟩
      · cases hv
    | versions => exact ⟨hnow, ih⟩

/-! ## Unsettled permits through an observation -/

namespace PoolState

variable {s : PoolState} {t : ℤ} {a : Attempt} {slot : PoolPermit}

/-- The permits that are out and unsettled, as far as `g` selects them. -/
def unsettled (s : PoolState) (g : String → Bool) : ℕ :=
  s.outstanding.countP fun p => !p.applied && g p.id

/-- A claim marks the permit's own slot. -/
theorem heard_slot (hf : s.Finds a slot) (g : String → Bool) :
    (s.heard t a).unsettled g = s.unsettled g
      ∧ ∃ slot', (s.heard t a).outstanding.find? (fun p => p.id = a.permitID) = some slot'
        ∧ slot'.id = slot.id ∧ slot'.applied = slot.applied ∧ slot'.revision = slot.revision := by
  obtain hsame | hmod := heard_outstanding s t a
  · exact ⟨by rw [unsettled, hsame, unsettled], slot, by rw [hsame, hf.found], rfl, rfl, rfl⟩
  · refine ⟨?_, { slot with claimed := true }, ?_, rfl, rfl, rfl⟩
    · have hcount := countP_modifyFirst (f := fun p : PoolPermit => { p with claimed := true })
        (q := fun p => !p.applied && g p.id) hf.found
      rw [unsettled, hmod, unsettled]
      dsimp only at hcount
      omega
    · rw [hmod]
      exact find?_modifyFirst hf.found (by simpa using hf.mem.2)

/-- **An applied outcome settles its permit**, and only that one. -/
theorem unsettled_observe (s : PoolState) (t : ℤ) (a : Attempt) (g : String → Bool) :
    (s.observe H t a).unsettled g
        + (if (s.applies a).isSome ∧ g a.permitID = true then 1 else 0) = s.unsettled g := by
  have hobs := observes (H := H) s t a
  generalize s.observe H t a = s' at hobs ⊢
  -- settling a slot takes it out of the count if it was in it
  have hsettle : ∀ (s₁ : PoolState) {slot' : PoolPermit},
      s₁.outstanding.find? (fun p => p.id = a.permitID) = some slot' →
      (s₁.settleSlot a).unsettled g + (if !slot'.applied && g slot'.id then 1 else 0)
        = s₁.unsettled g := by
    intro s₁ slot' hfind
    unfold settleSlot unsettled
    split
    · exact countP_eraseP hfind
    · have hcount := countP_modifyFirst (f := fun p : PoolPermit =>
        { p with applied := true, revision := a.settlementRevision, awaitingStop := true })
        (q := fun p => !p.applied && g p.id) hfind
      simpa using hcount
  cases hobs with
  | missed hu =>
    have hnone := applies_none_of_missed hu
    simp [hnone]
  | @heard slot hf hold =>
    have hnone := applies_none_of_old hf (.inl hold)
    simp [hnone, (heard_slot hf g).1]
  | @stop slot o hf hn happlied =>
    have hnone := applies_none_of_old hf (.inr happlied)
    obtain ⟨hcount, slot', hfind, -, happ', -⟩ := heard_slot (t := t) hf g
    have h := hsettle ((s.heard t a).dropIntent a.permitID) hfind
    rw [happ', happlied] at h
    simp only [hnone, Option.isSome_none, Bool.false_eq_true, false_and, if_false]
    simp only [Bool.not_true, Bool.false_and, Bool.false_eq_true, if_false] at h
    rw [h]
    exact hcount
  | @apply slot o hf hn hfresh =>
    obtain ⟨hcount, slot', hfind, hid, happ', -⟩ := heard_slot (t := t) hf g
    have hout := applyOutcome_outstanding (H := H) ((s.heard t a).dropIntent a.permitID) t a o.outcome
    have h := hsettle (((s.heard t a).dropIntent a.permitID).applyOutcome H t a o.outcome)
      (by rw [hout]; exact hfind)
    rw [happ', hfresh, hid, hf.mem.2] at h
    rw [applies_of_apply hf hn hfresh]
    have hsame : (((s.heard t a).dropIntent a.permitID).applyOutcome H t a o.outcome).unsettled g
        = s.unsettled g := by
      rw [unsettled, hout]
      exact hcount
    rw [hsame] at h
    simpa using h

/-- The revision of a slot is set with its outcome. -/
theorem revisions_observe (hn : (s.outstanding.map (·.id)).Nodup)
    (h : ∀ p ∈ s.outstanding, p.applied = false → p.revision = 0) :
    ∀ p ∈ (s.observe H t a).outstanding, p.applied = false → p.revision = 0 := by
  have hheard : ∀ p ∈ (s.heard t a).outstanding, p.applied = false → p.revision = 0 := by
    obtain hsame | hmod := heard_outstanding s t a
    · rw [hsame]
      exact h
    · rw [hmod]
      intro p hp happ
      obtain ⟨hp, -⟩ | ⟨q, hq, -, rfl⟩ := (mem_modifyFirst hn).1 hp
      · exact h p hp happ
      · exact h q hq happ
  have hnodup : ((s.heard t a).outstanding.map (·.id)).Nodup := heard_ids s t a ▸ hn
  have hsettle : ∀ {s₁ : PoolState}, s₁.outstanding = (s.heard t a).outstanding →
      ∀ p ∈ (s₁.settleSlot a).outstanding, p.applied = false → p.revision = 0 := by
    intro s₁ ho
    unfold settleSlot
    split
    · intro p hp
      dsimp only at hp
      rw [ho] at hp
      exact hheard p (mem_of_mem_eraseP hp)
    · intro p hp happ
      dsimp only at hp
      rw [ho] at hp
      obtain ⟨hp, -⟩ | ⟨q, -, -, rfl⟩ := (mem_modifyFirst hnodup).1 hp
      · exact hheard p hp happ
      · cases happ
  have hobs := observes (H := H) s t a
  generalize s.observe H t a = s' at hobs ⊢
  cases hobs with
  | missed => exact h
  | heard => exact hheard
  | stop => exact hsettle rfl
  | apply => exact hsettle (applyOutcome_outstanding ..)

end PoolState

/-! ## The invariant -/

/-- **An open window's starts are permits that are out.** -/
structure Afloat (r : PoolRun) : Prop where
  starts : r.pool.windowAnchored = false →
    r.pool.controller.windowStarts ≤ r.pool.unsettled r.carries
  revisions : ∀ p ∈ r.pool.outstanding, p.applied = false → p.revision = 0

theorem windowed_minted {r : PoolRun} (hr : (windowed H).Reach r) : Minted H r := by
  refine hr.invariant ?_ ?_
  · rintro r ⟨hgranted, hpeak, ⟨pool, generation, policy, -, hpool⟩ | ⟨fence, d, hseq, -, hpool⟩⟩
    · constructor <;> simp [hpool, hgranted, hpeak, new]
    · constructor <;> simp [hpool, hgranted, hpeak, handOver, new, hseq]
  · rintro r r' - hm ⟨t, act, -, -, -, rfl⟩
    obtain h | ⟨item, -, h⟩ := PoolRun.act_cases (H := H) r t act
    · exact hm.idle h
    · exact hm.grow h

namespace Afloat

variable {r : PoolRun} {t : ℤ} {pool : PoolState}

/-- An act that leaves the window and the slots alone. -/
theorem frame (h : Afloat r) (hc : r.pool.Credits pool 0)
    (ho : pool.outstanding = r.pool.outstanding) (now : ℤ) :
    Afloat { r with pool := pool, now := now } := by
  refine ⟨fun ha => ?_, ?_⟩
  · have hstarts := h.starts (hc.anchored ▸ ha)
    have hsame : unsettled pool (PoolRun.carries { r with pool := pool, now := now })
        = r.pool.unsettled r.carries := by
      have hcarries : PoolRun.carries { r with pool := pool, now := now } = r.carries := by
        funext id
        simp only [PoolRun.carries, hc.windowID]
      rw [hcarries, unsettled, ho, unsettled]
    dsimp only
    rw [hsame, hc.windowStarts]
    omega
  · rw [ho]
    exact h.revisions

theorem refresh (h : Afloat r) (t : ℤ) : Afloat (r.act H t .refresh) := by
  rcases refreshWindow_cases r.pool t with hsame | ⟨-, -, hstarts⟩
  · have hc : r.pool.Credits (r.pool.refreshWindow t) 0 := by
      rw [hsame]
      exact .of_sameWindow rfl rfl (.refl _)
    exact h.frame hc (by rw [hsame]) t
  · refine ⟨fun _ => ?_, ?_⟩
    · rw [PoolRun.act, hstarts]
      omega
    · rw [PoolRun.act, (alike_refreshWindow r.pool t).outstanding]
      exact h.revisions

/-- A grant adds a permit to the window it counts in. -/
theorem grant (h : Afloat r) (t : ℤ) (item : ReadyItem) : Afloat (r.act H t (.grant item)) := by
  rcases PoolRun.act_grant_ok (H := H) r t item with hsame | ⟨p, hok, hpool, hgranted⟩
  · rw [hsame]
    exact h.refresh t
  · have hf : Afloat (r.act H t .refresh) := h.refresh t
    have hgrants := (grant_admits hok).2
    have hpw : p.windowID = (r.pool.refreshWindow t).windowID := by rw [hgrants.made]; rfl
    obtain ⟨-, -, hstarts⟩ := grantController_window (r.pool.refreshWindow t) t
    refine ⟨?_, ?_⟩
    · intro ha
      rw [hpool] at ha
      have hwas : (r.pool.refreshWindow t).controller.windowStarts
          ≤ (r.pool.refreshWindow t).unsettled (r.act H t .refresh).carries := hf.starts ha
      have hnew : (r.pool.refreshWindow t).unsettled (r.act H t .refresh).carries + 1
          ≤ (r.act H t (.grant item)).pool.unsettled (r.act H t (.grant item)).carries := by
        have hold : (r.pool.refreshWindow t).unsettled (r.act H t .refresh).carries
            ≤ (r.pool.refreshWindow t).unsettled (r.act H t (.grant item)).carries := by
          refine countP_mono_left fun q _ hq => ?_
          simp only [Bool.and_eq_true, PoolRun.carries, hgranted, hpool, any_append,
            Bool.or_eq_true] at hq ⊢
          exact ⟨hq.1, .inl hq.2⟩
        have hself : (r.act H t (.grant item)).carries p.permitID = true := by
          simp [PoolRun.carries, hgranted, hpool, hpw, granted]
        have hadd : (r.act H t (.grant item)).pool.unsettled (r.act H t (.grant item)).carries
            = (r.pool.refreshWindow t).unsettled (r.act H t (.grant item)).carries + 1 := by
          rw [unsettled, hpool]
          simp [granted, unsettled, hself]
        omega
      rw [hpool] at hnew ⊢
      simp only [granted, hstarts] at hnew ⊢
      split <;> omega
    · rw [hpool]
      intro q hq happ
      obtain hq | hq := mem_append.1 hq
      · exact hf.revisions q hq happ
      · obtain rfl := mem_singleton.1 hq
        rfl

/-- **An observation settles no more starts than it gives back**, unless it
anchors the window. -/
theorem observe (h : Afloat r) (hm : Minted H r) (hd : H.Distinct r.granted) {a : Attempt}
    (hshows : r.Shows a) (ha : a.Plausible) (t : ℤ) : Afloat (r.act H t (.observe a)) := by
  have hn := hm.slots_nodup hd
  refine ⟨fun hopen => ?_, revisions_observe hn h.revisions⟩
  have hw := observe_window (H := H) r.pool t a
  have hopen : (r.pool.observe H t a).windowAnchored = false := hopen
  have hwas : r.pool.windowAnchored = false := by
    obtain ⟨hsame, -⟩ | ⟨hanc, -⟩ := hw.anchor
    · exact hsame ▸ hopen
    · rw [hopen] at hanc
      cases hanc
  have hstarts := h.starts hwas
  have hcarries : (r.act H t (.observe a)).carries = r.carries := by
    funext id
    simp only [PoolRun.carries, PoolRun.act, hw.windowID]
  have hcount := unsettled_observe (H := H) r.pool t a r.carries
  have hrefund := refund_le r.pool a
  rw [hcarries]
  simp only [PoolRun.act, hw.windowStarts]
  by_cases hsettles : (r.pool.applies a).isSome = true ∧ r.carries a.permitID = true
  · rw [if_pos hsettles] at hcount
    -- the permit is of this window, and its claim would have anchored it
    obtain ⟨out, happ⟩ := Option.isSome_iff_exists.1 hsettles.1
    obtain ⟨slot, o, hf, hnews, -, rfl⟩ := applies_iff.1 happ
    obtain ⟨p, hp, hrow⟩ := hshows
    have hid : a.permitID = p.permitID := by rw [hrow, Reservation.stored]
    have hpw : a.windowID = p.windowID := by rw [hrow, Reservation.stored]
    have hwindow : a.windowID = r.pool.windowID := by
      obtain ⟨q, hq, hqid⟩ := any_eq_true.1 hsettles.2
      simp only [Bool.and_eq_true, decide_eq_true_eq] at hqid
      have hpq : p = q :=
        inj_on_of_nodup_map (hm.permits_nodup hd) hp hq (hid.symm.trans hqid.1.symm)
      rw [hpw, hpq]
      exact hqid.2
    have hclaim : a.claimedAt = none := by
      by_contra hc
      rw [hw.claimed slot hf hc hwindow] at hopen
      cases hopen
    have hnever := ha.unclaimed hclaim o hnews.observation
    by_cases hpos : 0 < r.pool.controller.windowStarts
    · have hone : r.pool.refund a = 1 := by
        simp only [refund, happ, Option.map_some, Option.getD_some, credit]
        exact if_pos ⟨hwindow, hpos, .inl hnever⟩
      omega
    · omega
  · rw [if_neg hsettles] at hcount
    omega

end Afloat

theorem afloat_of_reach {r : PoolRun} (hr : (windowed H).Reach r) :
    H.Distinct r.granted → Afloat r := by
  refine hr.invariant (P := fun r => H.Distinct r.granted → Afloat r) ?_ ?_
  · rintro r ⟨hgranted, -, ⟨pool, generation, policy, -, hpool⟩ | ⟨fence, d, -, hdr, hpool⟩⟩ -
    · refine ⟨fun _ => ?_, ?_⟩
      · rw [hpool]
        simp [new, Controller.new]
      · simp [hpool, new]
    · refine ⟨fun hanc => ?_, ?_⟩
      · rw [hpool] at hanc ⊢
        have hz : d.controller.windowStart = 0 := by simpa [handOver] using hanc
        have := (dispatcher_window hdr).2 hz
        dsimp only [handOver]
        omega
      · simp [hpool, handOver, new]
  · rintro r r' hr ih ⟨t, act, -, hpermit, hrow, rfl⟩ hd
    have hd' : H.Distinct r.granted := hd.mono (granted_subset_act r t act)
    have h := ih hd'
    cases act with
    | grant item => exact h.grant t item
    | refresh => exact h.refresh t
    | observe a => exact h.observe (windowed_minted hr) hd' hpermit (hrow a rfl) t
    | acknowledge started =>
      exact h.frame (acknowledgeStarts_window started r.pool)
        (alike_acknowledgeStarts started r.pool).outstanding t
    | resume =>
      exact h.frame (resume_window r.pool t) (resume_outstanding ..) t
    | configure p =>
      obtain ⟨hid, hanc, hstart, hstarts, -⟩ := configure_window r.pool p
      have hout := (alike_configure r.pool p).outstanding
      refine ⟨fun hopen => ?_, ?_⟩
      · have hwas := h.starts (hanc ▸ hopen)
        have hcarries : (r.act H t (.configure p)).carries = r.carries := by
          funext id
          simp only [PoolRun.carries, PoolRun.act, hid]
        rw [hcarries]
        simp only [PoolRun.act, hstarts, unsettled, hout]
        exact hwas
      · simp only [PoolRun.act, hout]
        exact h.revisions
    | housekeep k =>
      have hc : r.pool.Credits (r.pool.housekeep k) 0 := .of_sameWindow rfl rfl ⟨rfl, rfl, rfl⟩
      exact h.frame hc rfl t

/-- **No window stalls.** While the window is not anchored, it counts at
most as many starts as there are permits out that were granted in it. So
if it is full, one of these is unsettled, and any row that shows its claim
or its settlement anchors the window or gives the start back. -/
theorem window_never_stalls {r : PoolRun} (hr : (windowed H).Reach r) (hd : H.Distinct r.granted)
    (hopen : r.pool.windowAnchored = false) :
    r.pool.controller.windowStarts ≤ (r.pool.outstanding.countP fun p => r.carries p.id : ℕ)
      ∧ (0 < r.pool.controller.policy.windowRequests →
        r.pool.controller.policy.windowRequests ≤ r.pool.controller.windowStarts →
        ∃ p ∈ r.pool.outstanding, p.applied = false ∧ ∃ q ∈ r.granted, q.permitID = p.id
          ∧ q.windowID = r.pool.windowID
          ∧ ∀ t a, a.toReservation = q.stored → a.Plausible →
            (a.claimedAt ≠ none ∨ a.state = .settled) →
            (r.pool.observe H t a).windowAnchored = true
              ∨ (r.pool.observe H t a).controller.windowStarts
                = r.pool.controller.windowStarts - 1) := by
  have hm := windowed_minted hr
  have h := afloat_of_reach hr hd
  have hstarts := h.starts hopen
  refine ⟨?_, fun hbudget hfull => ?_⟩
  · have hle : r.pool.unsettled r.carries ≤ r.pool.outstanding.countP fun p => r.carries p.id := by
      refine countP_mono_left fun p _ hp => ?_
      simp only [Bool.and_eq_true] at hp
      exact hp.2
    omega
  · have hpos : 0 < r.pool.unsettled r.carries := by omega
    obtain ⟨p, hp, hsel⟩ := countP_pos_iff.1 hpos
    simp only [Bool.and_eq_true, Bool.not_eq_true'] at hsel
    obtain ⟨q, hq, hqsel⟩ := any_eq_true.1 hsel.2
    simp only [Bool.and_eq_true, decide_eq_true_eq] at hqsel
    refine ⟨p, hp, hsel.1, q, hq, hqsel.1, hqsel.2, fun t a hrow ha hseen => ?_⟩
    have hid : a.permitID = q.permitID := by rw [hrow, Reservation.stored]
    have hw := observe_window (H := H) r.pool t a
    have hwindow : a.windowID = r.pool.windowID := by
      rw [hrow, Reservation.stored]
      exact hqsel.2
    have hpool : a.poolID = r.pool.poolID := by
      rw [hrow, Reservation.stored]
      exact hm.poolID q hq
    have hgen : a.generation = r.pool.generation := by
      rw [hrow, Reservation.stored]
      exact hm.generation q hq
    have hf := finds_of_mem (hm.slots_nodup hd) hp (hqsel.1.symm.trans hid.symm) hpool hgen
    by_cases hclaim : a.claimedAt = none
    · -- settled without a claim, so never dispatched
      have hsettled := hseen.resolve_left fun hne => hne hclaim
      obtain ⟨hobs, hrev⟩ := ha.wellFormed.settled hsettled
      obtain ⟨o, ho⟩ := Option.ne_none_iff_exists'.1 hobs
      have hnews : a.News p o := ⟨ho, hsettled, hrev, by rw [h.revisions p hp hsel.1]; omega⟩
      have happ := applies_of_apply hf hnews hsel.1
      have hone : r.pool.refund a = 1 := by
        simp only [refund, happ, Option.map_some, Option.getD_some, credit]
        exact if_pos ⟨hwindow, by omega, .inl (ha.unclaimed hclaim o ho)⟩
      exact .inr (by rw [hw.windowStarts, hone])
    · exact .inl (hw.claimed p hf hclaim hwindow)

/-- **A pool beside its ledger and workers makes such a run.** -/
theorem workers_windowed {size : AttemptObservation → ℕ} :
    (workers H size).Simulates (windowed H) Workers.run := by
  refine ⟨?_, ?_⟩
  · rintro s ⟨-, ⟨⟨pool, generation, policy, hv, hpool, hgranted, hpeak⟩, -⟩, -⟩
    exact ⟨hgranted, hpeak, .inl ⟨pool, generation, policy, hv, hpool⟩⟩
  · intro s s' hr hs
    cases hs with
    | act t act hlater hact =>
      refine .inr ⟨t, act, hlater, ?_, ?_, rfl⟩
      · cases act with
        | observe => exact (accounted_of_reach (workers_joint.reach hr)).shows hact.1 hact.2
        | _ => trivial
      · rintro a rfl
        exact plausible_of_read hr hact.1
    | _ => exact .inl rfl

/-! ## A full window -/

namespace Sample

/-- The sample policy with one request a minute. -/
def tightPolicy : Policy := { policy with windowRequests := 1, windowDuration := 60 * second }

/-- The window's only start is out. -/
def fullWindow : PoolRun :=
  ({ pool := .new "pool" 2 tightPolicy, now := 1000 * second } : PoolRun).act hashes (1000 * second)
    (.grant readyItem)

theorem fullWindow_eq : fullWindow.granted = [firstPermit]
    ∧ fullWindow.pool.windowAnchored = false ∧ fullWindow.pool.controller.windowStarts = 1
    ∧ fullWindow.pool.controller.policy = tightPolicy
    ∧ fullWindow.pool.outstanding = [{ id := firstPermit.permitID }] := by
  decide +kernel

theorem fullWindow_reach : (windowed hashes).Reach fullWindow := by
  have hinit : (windowed hashes).Reach { pool := .new "pool" 2 tightPolicy, now := 1000 * second } :=
    .init ⟨rfl, rfl, .inl ⟨"pool", 2, tightPolicy, by decide, rfl⟩⟩
  exact hinit.step ⟨1000 * second, .grant readyItem, by decide, trivial, fun a h => (nomatch h), rfl⟩

end Sample

open Sample

/-- The permit of a full window is the one that can open it. -/
theorem window_never_stalls_sample :
    (windowed hashes).Reach fullWindow
      ∧ hashes.Distinct fullWindow.granted
      ∧ fullWindow.pool.windowAnchored = false
      ∧ ∀ t a, a.toReservation = firstPermit.stored → a.Plausible →
        (a.claimedAt ≠ none ∨ a.state = .settled) →
        (fullWindow.pool.observe hashes t a).windowAnchored = true
          ∨ (fullWindow.pool.observe hashes t a).controller.windowStarts = 1 - 1 := by
  obtain ⟨hgranted, hopen, hstarts, hpolicy, -⟩ := fullWindow_eq
  have hd : hashes.Distinct fullWindow.granted := by
    rw [hgranted]
    exact hashes.distinct_singleton _
  obtain ⟨-, hfull⟩ := window_never_stalls fullWindow_reach hd hopen
  obtain ⟨p, -, -, q, hq, -, -, h⟩ :=
    hfull (by rw [hpolicy]; decide) (by rw [hpolicy, hstarts]; decide)
  rw [hgranted] at hq
  obtain rfl := mem_singleton.1 hq
  rw [hstarts] at h
  exact ⟨fullWindow_reach, hd, hopen, h⟩

end HardenLlm.Batch
