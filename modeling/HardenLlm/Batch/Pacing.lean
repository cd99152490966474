import HardenLlm.Batch.Model.Controller
/-!
# The launch pace

While the rate stays, nothing cools and no window refills the burst, a
controller that accumulates its pace lets only so many requests start in
an interval: what is left of the burst, one burst of credit carried over
from before, and one request per pacing interval. `NextStart` holds the
credit: every paced start moves it on by an interval, and none leaves it
further behind the clock than a burst is worth.
-/

namespace HardenLlm.Batch

namespace Controller

/-- `time.Second / Rate`. -/
def interval (c : Controller) : ℤ := second.tdiv c.rate

/-- **What happens between starts**: a request ends, without cooling and
with no probe out, or a policy with the same burst is configured. -/
inductive Handles (c : Controller) : Controller → Prop
  | complete (now dispatched reserved : ℤ) (probe : Bool) (kind : OutcomeKind) (delay : ℤ)
      (idle : c.probing = false)
      (warm : (c.complete now dispatched reserved probe kind delay).cooling = false) :
      Handles c (c.complete now dispatched reserved probe kind delay)
  | configure {c' : Controller} (p : Policy) (valid : c.configure p = some c')
      (burst : p.burst = c.policy.burst) : Handles c c'

/-- **A stretch** at one rate, without cooling or a refill, and the times
of its starts: none is before the last, and `CanStart` allows each. -/
inductive Stretch : Controller → List ℤ → Prop
  | done (c : Controller) : Stretch c []
  | start {c : Controller} {t : ℤ} {ts : List ℤ} (active : ℤ) (may : c.canStart t active = true)
      (warm : c.cooling = false) (unfilled : (c.startWindow t).burstLeft = c.burstLeft)
      (later : ∀ u ∈ ts, t ≤ u) (rest : Stretch (c.start t) ts) : Stretch c (t :: ts)
  | other {c c' : Controller} {ts : List ℤ} (handles : c.Handles c') (rate : c'.rate = c.rate)
      (rest : Stretch c' ts) : Stretch c ts

variable {c c' : Controller} {t : ℤ} {ts : List ℤ}

/-- The pace is as it was. -/
structure SamePace (c c' : Controller) : Prop where
  burst : c'.policy.burst = c.policy.burst
  left : c'.burstLeft = c.burstLeft
  next : c'.nextStart = c.nextStart
  accumulates : c'.accumulatePace = c.accumulatePace

theorem SamePace.refl (c : Controller) : c.SamePace c := ⟨rfl, rfl, rfl, rfl⟩

/-- A throttle cools, or comes too late to. -/
theorem SamePace.completeThrottle (h : c.SamePace c') (now dispatched : ℤ) (probe : Bool)
    (delay : ℤ) : (c'.completeThrottle now dispatched probe delay).cooling = true
      ∨ c.SamePace (c'.completeThrottle now dispatched probe delay) := by
  unfold Controller.completeThrottle
  split_ifs
  · exact .inr h
  · exact .inl rfl
  · exact .inl rfl

theorem success_samePace (idle : c.probing = false) (now : ℤ) : c.SamePace (c.success now) := by
  rw [success, recover, if_neg (by simp [idle]), countSuccess]
  split_ifs <;> exact ⟨rfl, rfl, rfl, rfl⟩

theorem completeKind_samePace (idle : c.probing = false) (now dispatched reserved : ℤ)
    (probe : Bool) (kind : OutcomeKind) (delay : ℤ) :
    (c.completeKind now dispatched reserved probe kind delay).cooling = true
      ∨ c.SamePace (c.completeKind now dispatched reserved probe kind delay) := by
  have hrefund : c.SamePace (c.refundWindow reserved) := by
    unfold refundWindow
    split_ifs <;> exact ⟨rfl, rfl, rfl, rfl⟩
  have hsuccess := success_samePace idle now
  unfold completeKind
  split_ifs
  · exact hrefund.completeThrottle now dispatched probe delay
  · exact (SamePace.refl c).completeThrottle now dispatched probe delay
  · exact (SamePace.refl c).completeThrottle now dispatched probe delay
  · exact .inr (.refl c)
  · exact .inr { hsuccess with }
  · exact .inr hsuccess
  · exact .inr (.refl c)
  · exact .inr ⟨rfl, rfl, rfl, rfl⟩
  · exact .inr (.refl c)

theorem Handles.samePace (h : c.Handles c') : c.SamePace c' := by
  cases h with
  | complete now dispatched reserved probe kind delay idle warm =>
    unfold Controller.complete at warm ⊢
    dsimp only at warm ⊢
    split_ifs at warm ⊢
    · cases warm
    · exact (completeKind_samePace idle now dispatched reserved probe kind delay).resolve_left
        (by simp [warm])
  | configure p valid burst =>
    unfold Controller.configure at valid
    split_ifs at valid
    cases valid
    exact ⟨burst, rfl, rfl, rfl⟩

/-- A warm start is a paced one, past the window and the epoch. -/
theorem start_eq (warm : c.cooling = false)
    (unfilled : (c.startWindow t).burstLeft = c.burstLeft) :
    ∃ d, c.start t = d.startPace t ∧ c.SamePace d ∧ d.rate = c.rate := by
  have hwindow : c.SamePace (c.startWindow t) ∧ (c.startWindow t).rate = c.rate
      ∧ (c.startWindow t).cooling = false := by
    refine ⟨⟨?_, unfilled, ?_, ?_⟩, ?_, ?_⟩ <;> unfold startWindow <;> split_ifs <;>
      first | rfl | exact warm
  obtain ⟨hsame, hrate, hwarm⟩ := hwindow
  unfold Controller.start
  dsimp only
  by_cases hepoch : (c.startWindow t).epoch = 0
  · rw [if_pos hepoch, if_neg (by simp [hwarm])]
    exact ⟨_, rfl, { hsame with }, hrate⟩
  · rw [if_neg hepoch, if_neg (by simp [hwarm])]
    exact ⟨_, rfl, hsame, hrate⟩

/-- **What a start does to the pace**: it spends the burst, or moves the
next start on from where it was or from a burst's worth ago. -/
theorem start_pace {active : ℤ} (may : c.canStart t active = true) (warm : c.cooling = false)
    (unfilled : (c.startWindow t).burstLeft = c.burstLeft) (hacc : c.accumulatePace = true) :
    (c.start t).interval = c.interval ∧ (c.start t).accumulatePace = true
      ∧ (0 < c.burstLeft ∧ (c.start t).burstLeft = c.burstLeft - 1
          ∧ (c.start t).nextStart = t + c.interval
        ∨ c.burstLeft ≤ 0 ∧ c.nextStart ≤ t ∧ (c.start t).burstLeft = c.burstLeft
          ∧ (c.start t).nextStart
            = max c.nextStart (t - (c.policy.burst - 1) * c.interval) + c.interval) := by
  have hready : 0 < c.burstLeft ∨ c.nextStart ≤ t := by
    unfold canStart at may
    rw [if_neg (c := c.cooling = true) (by simp [warm])] at may
    split_ifs at may
    simpa using may
  obtain ⟨d, heq, hsame, hrate⟩ := start_eq warm unfilled
  rw [heq]
  unfold startPace interval
  dsimp only
  rw [hsame.left, hsame.accumulates, hsame.next, hsame.burst, hrate, if_pos hacc]
  by_cases hleft : 0 < c.burstLeft
  · rw [if_pos hleft]
    exact ⟨rfl, hacc, .inl ⟨hleft, rfl, rfl⟩⟩
  · rw [if_neg hleft]
    exact ⟨rfl, hacc, .inr ⟨by omega, hready.resolve_left hleft, rfl, rfl⟩⟩

/-- **The rest of a stretch**, once its burst is spent less than `k`
intervals past the next start, or may still be spent from `first` on. -/
theorem Stretch.length_le {stop : ℤ} (h : Stretch c ts) (hacc : c.accumulatePace = true)
    (hpos : 0 < c.interval) {first k : ℤ} (hb : 0 ≤ c.burstLeft) (hk : 0 ≤ k)
    (hts : ∀ u ∈ ts, first ≤ u ∧ u ≤ stop)
    (hspent : c.burstLeft = 0 → stop < c.nextStart + k * c.interval)
    (hunspent : stop < first + (k + 1) * c.interval ∨ c.burstLeft = 0) :
    (ts.length : ℤ) ≤ c.burstLeft + k := by
  induction h generalizing first k with
  | done c => exact Int.add_nonneg hb hk
  | @start c t ts active may warm unfilled later rest ih =>
    obtain ⟨hi, hacc', hstart⟩ := start_pace may warm unfilled hacc
    obtain ⟨hfirst, hstop⟩ := hts t List.mem_cons_self
    have hrest : ∀ u ∈ ts, t ≤ u ∧ u ≤ stop :=
      fun u hu => ⟨later u hu, (hts u (List.mem_cons_of_mem _ hu)).2⟩
    rw [hi] at ih
    rw [List.length_cons]
    push_cast
    rcases hstart with ⟨hleft, hleft', hnext⟩ | ⟨hleft, hready, hleft', hnext⟩
    · -- the next start is an interval after this one
      have hend : stop < t + c.interval + k * c.interval := by
        rw [Int.add_mul] at hunspent
        omega
      have := ih hacc' hpos (by omega) hk hrest (fun _ => hnext ▸ hend)
        (.inl (by rw [Int.add_mul]; omega))
      omega
    · -- the next start moves on by an interval
      obtain hzero : c.burstLeft = 0 := by omega
      have hend := hspent hzero
      have hk' : k ≠ 0 := by
        rintro rfl
        omega
      have hshift : (k - 1) * c.interval = k * c.interval - c.interval := by
        rw [Int.sub_mul, Int.one_mul]
      have := ih hacc' hpos (by omega) (k := k - 1) (by omega) hrest (fun _ => by rw [hnext]; omega)
        (.inr (by omega))
      omega
  | @other c c' ts handles rate rest ih =>
    have hsame := handles.samePace
    have hi : c'.interval = c.interval := by rw [interval, interval, rate]
    rw [hsame.accumulates, hsame.left, hsame.next, hi] at ih
    exact ih hacc hpos hb hk hts hspent hunspent

/-- **The launch pace.** In any interval of length `d` of a stretch no
more requests start than are left of the burst, a burst of credit, and
one per pacing interval. -/
theorem starts_paced {c : Controller} {ts : List ℤ} {d beginning : ℤ} (h : Stretch c ts)
    (hacc : c.accumulatePace = true) (hpolicy : c.policy.Valid) (hpos : 0 < c.interval)
    (hb : 0 ≤ c.burstLeft) (hd : 0 ≤ d) (hts : ∀ t ∈ ts, beginning ≤ t ∧ t ≤ beginning + d) :
    (ts.length : ℤ) ≤ c.burstLeft + c.policy.burst + d / c.interval := by
  have hburst := hpolicy.2.2.1
  clear hpolicy
  have hquot := Int.ediv_nonneg hd (Int.le_of_lt hpos)
  induction h with
  | done c => exact Int.add_nonneg (by omega) hquot
  | @start c t ts active may warm unfilled later rest ih =>
    obtain ⟨hi, hacc', hstart⟩ := start_pace may warm unfilled hacc
    obtain ⟨hbegin, hstop⟩ := hts t List.mem_cons_self
    have hrest : ∀ u ∈ ts, t ≤ u ∧ u ≤ beginning + d :=
      fun u hu => ⟨later u hu, (hts u (List.mem_cons_of_mem _ hu)).2⟩
    -- the intervals that fit between this start and the end
    have hfit := Int.lt_ediv_add_one_mul_self (beginning + d - t) hpos
    have hfew : (beginning + d - t) / c.interval ≤ d / c.interval := Int.ediv_le_ediv hpos (by omega)
    have hnonneg : 0 ≤ (beginning + d - t) / c.interval := Int.ediv_nonneg (by omega) (Int.le_of_lt hpos)
    generalize (beginning + d - t) / c.interval = k at hfit hfew hnonneg
    rw [Int.add_mul, Int.one_mul] at hfit
    rw [List.length_cons]
    push_cast
    rcases hstart with ⟨hleft, hleft', hnext⟩ | ⟨hleft, -, hleft', hnext⟩
    · have := rest.length_le hacc' (hi ▸ hpos) (by omega) hnonneg hrest
        (fun _ => by rw [hi, hnext]; omega) (.inl (by rw [hi, Int.add_mul]; omega))
      omega
    · have := rest.length_le (k := k + (c.policy.burst - 1)) hacc' (hi ▸ hpos) (by omega) (by omega)
        hrest (fun _ => by rw [hi, hnext, Int.add_mul]; omega) (.inr (by omega))
      omega
  | @other c c' ts handles rate rest ih =>
    have hsame := handles.samePace
    have hi : c'.interval = c.interval := by rw [interval, interval, rate]
    rw [hsame.accumulates, hsame.left, hsame.burst, hi] at ih
    exact ih hacc hpos hb hts hburst hquot

/-- A burst of two at a hundred a second: both start at once, and the next
one ten milliseconds later. -/
theorem starts_paced_burst : let c := Controller.new ⟨10, 2, 100, 200, 61 * second, 0, 0, 0⟩
    ([5 * second, 5 * second, 5 * second + 10000000].length : ℤ)
      ≤ c.burstLeft + c.policy.burst + 10000000 / c.interval :=
  starts_paced (.start 0 (by decide) rfl rfl (by decide) (.start 1 (by decide) rfl rfl (by decide)
    (.start 2 (by decide) rfl rfl (by simp) (.done _)))) rfl (by decide) (by decide) (by decide)
    (by decide) (show ∀ t ∈ [5 * second, 5 * second, 5 * second + 10000000],
      5 * second ≤ t ∧ t ≤ 5 * second + 10000000 by decide)

end Controller

end HardenLlm.Batch
