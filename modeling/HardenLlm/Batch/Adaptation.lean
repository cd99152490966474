import HardenLlm.Batch.Probe
/-!
# How the controller adapts

A controller in use: what starts ends at most once, and ends as the probe
exactly if its start set `Probing`. The numbers keep to their bounds, and
a cooldown halves the rate when it begins and then leaves it alone.
-/

namespace HardenLlm.Batch

/-! ## A controller in use -/

/-- **A controller in use**, with the starts that have not ended, each by
whether it is the probe, and the time it was told last. -/
structure Use where
  controller : Controller
  started : List Bool
  now : ℤ

/-- What happens to it, `Configure` aside. -/
inductive Use.Moves (s : Use) : Use → Prop
  | start {t : ℤ} (active : ℤ) (later : s.now ≤ t) (may : s.controller.canStart t active = true) :
      Moves s ⟨s.controller.start t, (s.controller.start t).probing :: s.started, t⟩
  | complete {t : ℤ} {probe : Bool} (dispatched reserved : ℤ) (out : Outcome) (later : s.now ≤ t)
      (underway : probe ∈ s.started) :
      Moves s ⟨s.controller.completeOutcome t dispatched reserved probe out,
        s.started.erase probe, t⟩

/-- **The runs of a controller** from a valid policy on. -/
def adaptation : System Use where
  init s := ∃ p : Policy, p.Valid ∧ s.controller = .new p ∧ s.started = []
  step s s' := s.Moves s' ∨ ∃ p t c, s.now ≤ t ∧ s.controller.configure p = some c
    ∧ s' = ⟨c, s.started, t⟩

namespace Controller

variable {c c₁ c' : Controller} {t now dispatched reserved delay : ℤ} {probe : Bool}

/-- **What the numbers keep to.** -/
structure Bounded (c : Controller) : Prop where
  valid : c.policy.Valid
  rate : 1 ≤ c.rate ∧ c.rate ≤ c.policy.maximumRate
  burstLeft : 0 ≤ c.burstLeft
  windowStarts : 0 ≤ c.windowStarts
  probeDelay : 2 * second ≤ c.probeDelay ∧ c.probeDelay ≤ 60 * second
  probing : c.probing = true → c.cooling = true

theorem two_seconds : 2 * second ≤ 2 * second ∧ 2 * second ≤ 60 * second := by decide

/-- **What a move makes of the numbers.** -/
structure Adapts (c c' : Controller) : Prop where
  bounded : c'.Bounded
  enters : c.cooling = false → c'.cooling = true → c'.rate = max 1 (c.rate.tdiv 2)
  stays : c.cooling = true → c'.rate = c.rate

theorem Bounded.adapts (h : c'.Bounded) (hcooling : c'.cooling = c.cooling)
    (hrate : c.cooling = true → c'.rate = c.rate) : c.Adapts c' where
  bounded := h
  enters hc hc' := absurd (hcooling ▸ hc') (by simp [hc])
  stays := hrate

/-! ## Throttles -/

/-- What a throttle does; whether the probe is over is left open. -/
structure Throttles (c c' : Controller) : Prop where
  policy : c'.policy = c.policy
  rate : c'.rate = if c.cooling then c.rate else max 1 (c.rate.tdiv 2)
  burstLeft : c'.burstLeft = c.burstLeft
  windowStarts : c'.windowStarts = c.windowStarts
  probeDelay : c'.probeDelay = c.probeDelay ∨ c'.probeDelay = min (60 * second) (c.probeDelay * 2)
  cooling : c'.cooling = true

theorem throttle_throttles (c : Controller) (now delay : ℤ) :
    c.Throttles (c.throttle now delay) := by
  unfold throttle
  constructor <;> dsimp only <;> split_ifs <;> simp

theorem Throttles.adapts (h : c.Throttles c') (hb : c.Bounded) : c.Adapts c' := by
  have hsecond : 0 < second := by decide
  have hrate := hb.rate
  have hdelay := hb.probeDelay
  have hhalf : c.rate.tdiv 2 = c.rate / 2 := Int.tdiv_eq_ediv_of_nonneg (by omega)
  refine ⟨⟨h.policy ▸ hb.valid, ?_, h.burstLeft ▸ hb.burstLeft, h.windowStarts ▸ hb.windowStarts,
    ?_, fun _ => h.cooling⟩, fun hc _ => ?_, fun hc => ?_⟩
  · rw [h.rate, h.policy, hhalf]
    split_ifs <;> omega
  · have := h.probeDelay
    omega
  · rw [h.rate, if_neg (by simp [hc])]
  · rw [h.rate, if_pos hc]

section

variable (hb : c.Bounded)
include hb

theorem completeThrottle_adapts (now dispatched : ℤ) (probe : Bool) (delay : ℤ) :
    c.Adapts (c.completeThrottle now dispatched probe delay) := by
  unfold completeThrottle
  split_ifs
  · exact hb.adapts rfl fun _ => rfl
  · exact (throttle_throttles ..).adapts hb
  · have h := throttle_throttles { c with probing := false } now delay
    exact Throttles.adapts { h with } hb

/-! ## What else happens -/

/-- A success counts outside a cooldown, or ends it. -/
theorem success_adapts (h : c.cooling = false ∨ c.probing = true) (now : ℤ) :
    c.Adapts (c.success now) := by
  have hburst := hb.valid.2.2.1
  have hrate := hb.rate
  unfold success recover
  split
  · -- the probe's success is the first of a new hundred
    rw [countSuccess, if_neg (show ¬ (100 : ℤ) ≤ 0 + 1 by decide)]
    refine ⟨⟨hb.valid, hrate, ?_, hb.windowStarts, two_seconds, nofun⟩, nofun, fun _ => rfl⟩
    dsimp only
    split <;> omega
  · have hwarm : c.cooling = false := h.resolve_right ‹_›
    unfold countSuccess
    split
    · refine Bounded.adapts { hb with rate := ?_ } rfl (by simp [hwarm])
      dsimp only
      omega
    · exact Bounded.adapts { hb with } rfl fun _ => rfl

theorem completeKind_adapts (hprobe : probe = true → c.probing = true)
    (kind : OutcomeKind) : c.Adapts (c.completeKind now dispatched reserved probe kind delay) := by
  have hsame : c.Adapts c := hb.adapts rfl fun _ => rfl
  have hthrottle := completeThrottle_adapts hb now dispatched probe delay
  unfold completeKind
  split_ifs
  · -- the start that is given back is all that a refused request adds
    unfold refundWindow
    split_ifs
    · have hrefund : Bounded { c with windowStarts := c.windowStarts - 1 } :=
        { hb with windowStarts := by dsimp only; omega }
      have h := completeThrottle_adapts hrefund now dispatched probe delay
      exact { h with }
    · exact hthrottle
  · exact hthrottle
  · exact hthrottle
  · exact hsame
  · have h := success_adapts hb (.inr (hprobe ‹_›)) now
    exact ⟨{ h.bounded with }, h.enters, h.stays⟩
  · exact success_adapts hb (by simp_all) now
  · exact hsame
  · exact Bounded.adapts { hb with } rfl fun _ => rfl
  · exact hsame

/-- **What a request that ends makes of the rate.** -/
theorem complete_adapts (hprobe : probe = true → c.probing = true)
    (kind : OutcomeKind) : c.Adapts (c.complete now dispatched reserved probe kind delay) := by
  have h : c.Adapts (c.completeKind now dispatched reserved probe kind delay) :=
    completeKind_adapts hb hprobe kind
  unfold complete
  dsimp only
  split_ifs with hagain
  · -- a probe that is still out is cooling, so its throttle leaves the rate alone
    have hcooling := h.bounded.probing hagain.2.1
    have hthrottle := (throttle_throttles _ now 0).adapts h.bounded
    have hrate := hthrottle.stays hcooling
    exact ⟨hthrottle.bounded, fun hc _ => hrate.trans (h.enters hc hcooling),
      fun hc => hrate.trans (h.stays hc)⟩
  · exact h

theorem Bounded.startWindow (t : ℤ) : (c.startWindow t).Bounded := by
  have hburst := hb.valid.2.2.1
  have hleft := hb.burstLeft
  have hstarts := hb.windowStarts
  unfold Controller.startWindow
  dsimp only
  split_ifs
  · exact { hb with burstLeft := by dsimp only; omega, windowStarts := by dsimp only; omega }
  · exact { hb with windowStarts := by dsimp only; omega }
  · exact { hb with windowStarts := by dsimp only; omega }
  · exact hb

theorem Bounded.start (t : ℤ) : (c.start t).Bounded := by
  unfold Controller.start
  dsimp only
  have hdated : Bounded (if (c.startWindow t).epoch = 0 then { c.startWindow t with epoch := t }
      else c.startWindow t) := by
    have hwindow := hb.startWindow t
    split
    · exact { hwindow with }
    · exact hwindow
  generalize (if (c.startWindow t).epoch = 0 then _ else _) = d at hdated ⊢
  split_ifs with hcooling
  · exact { hdated with probing := fun _ => hcooling }
  · have hleft := hdated.burstLeft
    unfold startPace
    dsimp only
    split_ifs
    · exact { hdated with burstLeft := by dsimp only; omega }
    · exact { hdated with }
    · exact { hdated with }

/-- A start leaves the rate alone. -/
theorem start_adapts (t : ℤ) : c.Adapts (c.start t) := by
  have hsame : (c.start t).rate = c.rate ∧ (c.start t).cooling = c.cooling := by
    unfold start startWindow startPace
    dsimp only
    split_ifs <;> exact ⟨rfl, rfl⟩
  exact (hb.start t).adapts hsame.2 fun _ => hsame.1

end

theorem not_probing_of_canStart {active : ℤ} (h : c.canStart t active = true) :
    ¬ c.probing = true := by
  intro hp
  simp [canStart, hp] at h

theorem Bounded.configure {p : Policy} (hb : c.Bounded) (h : c.configure p = some c') :
    c'.Bounded ∧ c'.probing = c.probing := by
  unfold Controller.configure at h
  split at h
  · rename_i hvalid
    cases h
    exact ⟨{ hb with valid := hvalid, rate := ⟨hvalid.2.2.2.2.1, hvalid.2.2.2.2.2.1⟩ }, rfl⟩
  · cases h

end Controller

/-! ## Runs -/

open Controller

/-- The controller keeps to its bounds, and the one probe that has not
ended, if there is one, is what it waits for. -/
structure Use.Sound (s : Use) : Prop where
  bounded : s.controller.Bounded
  waits : true ∈ s.started → s.controller.probing = true
  single : s.started.count true ≤ 1

namespace Use

variable {s s' : Use}

/-- **One move**, `Configure` aside. -/
theorem Sound.moves (h : s.Sound) (hs : s.Moves s') :
    s'.Sound ∧ s.controller.Adapts s'.controller := by
  cases hs with
  | @start t active later may =>
    have hadapts := start_adapts h.bounded t
    have hnone : true ∉ s.started := fun hin => not_probing_of_canStart may (h.waits hin)
    refine ⟨⟨hadapts.bounded, fun hin => ?_, ?_⟩, hadapts⟩
    · exact ((List.mem_cons.1 hin).resolve_right hnone).symm
    · rw [List.count_cons, List.count_eq_zero_of_not_mem hnone]
      split <;> omega
  | @complete t probe dispatched reserved out later underway =>
    have hadapts : s.controller.Adapts
        (s.controller.completeOutcome t dispatched reserved probe out) :=
      complete_adapts h.bounded (fun hp => h.waits (hp ▸ underway)) _
    have hsingle := h.single
    refine ⟨⟨hadapts.bounded, fun hin => ?_, ?_⟩, hadapts⟩
    · cases probe with
      | true =>
        -- there was one probe, and it has ended
        have hleft := List.count_pos_iff.2 hin
        rw [List.count_erase_self] at hleft
        omega
      | false =>
        exact (complete_other _ _ _ _ _ _ h.bounded.probing).probing.trans
          (h.waits (List.mem_of_mem_erase hin))
    · exact Nat.le_trans (List.erase_sublist.count_le true) hsingle

theorem sound_of_reach (h : adaptation.Reach s) : s.Sound := by
  refine h.invariant ?_ ?_
  · rintro ⟨c, started, now⟩ ⟨p, hvalid, rfl, rfl⟩
    have hburst : 1 ≤ p.burst := hvalid.2.2.1
    exact ⟨⟨hvalid, ⟨hvalid.2.2.2.2.1, hvalid.2.2.2.2.2.1⟩, Int.le_trans (by decide) hburst,
      Int.le_refl 0, two_seconds, nofun⟩, nofun, by simp⟩
  · rintro s s' - hs (hmoves | ⟨p, t, c, -, hconfigure, rfl⟩)
    · exact (hs.moves hmoves).1
    · obtain ⟨hbounded, hprobing⟩ := hs.bounded.configure hconfigure
      exact ⟨hbounded, fun hin => hprobing.trans (hs.waits hin), hs.single⟩

/-- A move of a controller that cools. -/
def Cools (s s' : Use) : Prop := s.controller.cooling = true ∧ s.Moves s'

end Use

/-- **The controller adapts.** Whatever starts, ends and is configured,
its numbers keep to their bounds; what begins a cooldown halves the rate,
and for as long as the cooldown lasts no start and no outcome changes
it. -/
theorem controller_adapts {s : Use} (h : adaptation.Reach s) :
    s.controller.Bounded
      ∧ (∀ s', s.Moves s' → s.controller.cooling = false → s'.controller.cooling = true →
        s'.controller.rate = max 1 (s.controller.rate.tdiv 2))
      ∧ ∀ s', Relation.ReflTransGen Use.Cools s s' → s'.controller.rate = s.controller.rate := by
  have hsound := Use.sound_of_reach h
  refine ⟨hsound.bounded, fun s' hs => (hsound.moves hs).2.enters, fun s' hrun => ?_⟩
  have hend : s'.Sound ∧ s'.controller.rate = s.controller.rate := by
    induction hrun with
    | refl => exact ⟨hsound, rfl⟩
    | tail _ hs ih =>
      obtain ⟨hnext, hadapts⟩ := ih.1.moves hs.2
      exact ⟨hnext, (hadapts.stays hs.1).trans ih.2⟩
  exact hend.2

/-- A hundred a second, until the first request is refused. -/
theorem controller_adapts_refused :
    let c := (Controller.new ⟨10, 2, 100, 200, 61 * second, 0, 0, 0⟩).start second
    adaptation.Reach ⟨c, [false], second⟩ ∧ c.rate = 100
      ∧ (c.completeOutcome second second second false { kind := .rejected }).rate = 50 := by
  intro c
  have hinit : adaptation.Reach ⟨.new ⟨10, 2, 100, 200, 61 * second, 0, 0, 0⟩, [], 0⟩ :=
    .init ⟨_, by decide, rfl, rfl⟩
  have hstart : adaptation.Reach ⟨c, [false], second⟩ :=
    hinit.step (.inl (.start 0 (by decide) (by decide)))
  exact ⟨hstart, rfl, (controller_adapts hstart).2.1 _
    (.complete second second { kind := .rejected } (Int.le_refl _) List.mem_cons_self) rfl rfl⟩

end HardenLlm.Batch
