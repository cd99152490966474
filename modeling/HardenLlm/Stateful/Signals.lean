import HardenLlm.Stateful.Model.Signals
/-!
# Isolation of concurrent admissions

A follower of a flight gets the leader's error, and the leader's signal
fails when the leader's context ends: one caller's disconnect fails the
admission of another. Where no context of a leader ends while others wait
for it, and none joins a leader whose context has ended, a call whose own
context is live fails only with a signal that failed by itself.
-/

namespace HardenLlm.Stateful

open Function

open AdmissionPoolSignals (Entry)
open HardenLlm.Runtime (ContextError)

variable {pool : String} {s s' : Wakes} {a : WakeAction} {call flight : ℕ}
  {err : Option WakeError} {now : ℤ}

/-! ## What the critical sections decide -/

/-- **What a call is told**: it joins the flight there is, is fenced for
another pool than the flight's, or opens its own when there is none. -/
def Fits (signals : AdmissionPoolSignals) (call : ℕ) (pool : String) : Entry → Prop
  | .recent => True
  | .joins flight => signals.flight = some flight
  | .fenced => ∃ f, signals.flight = some f ∧ signals.pool ≠ pool
  | .leads signals' =>
    signals.flight = none ∧ signals' = { signals with flight := some call, pool := pool }

theorem enter_fits {signals : AdmissionPoolSignals} {e : Entry}
    (h : signals.enter call pool now = e) : Fits signals call pool e := by
  rw [← h]
  unfold AdmissionPoolSignals.enter
  split
  · trivial
  · cases hf : signals.flight with
    | none => exact ⟨hf, rfl⟩
    | some f => by_cases hpool : signals.pool = pool <;> simp [hpool, hf, Fits]

/-! ## Errors -/

/-- **The signal failed by itself**, if there is an error at all. -/
def Genuine (err : Option WakeError) : Prop :=
  ∀ e, err = some e → ∃ message, e = .signal message

theorem genuine_none : Genuine none := by
  intro e h
  cases h

/-- What the signal answers a call whose context is live. -/
theorem Wakes.Answers.genuine (h : s.Answers call err) (hlive : s.ended call = none) :
    Genuine err := by
  intro e he
  obtain rfl | ⟨message, rfl⟩ | ⟨e', hended, -⟩ := h
  · cases he
  · cases he
    exact ⟨message, rfl⟩
  · rw [hlive] at hended
    cases hended

/-- A live context has no error. -/
theorem Wakes.contextErr_of_live (h : s.ended call = none) : s.contextErr call = none := by
  unfold Wakes.contextErr
  rw [h]
  rfl

/-! ## Isolation -/

/-- **Every call that failed with its own context live failed because of
the signal itself.** -/
def Wakes.Isolated (s : Wakes) : Prop :=
  ∀ call err, s.phase call = .returned err none → Genuine err

/-- **The condition**: the context of a call does not end while its signal
is under way and another call waits for it, and no call comes in while the
context of the flight's leader has ended. -/
def Wakes.Spares (s : Wakes) : WakeAction → Prop
  | .ends call _ => s.phase call = .signalling → ∀ other, s.phase other ≠ .waiting call
  | .enter _ _ => ∀ leader, s.signals.flight = some leader → s.ended leader = none
  | _ => True

/-- The call holds the flight. -/
def WakePhase.Leading (p : WakePhase) : Prop := p = .signalling ∨ ∃ err, p = .settling err

/-- Whatever comes of a flight, it is not the end of its leader's context. -/
structure Wakes.Sound (s : Wakes) (flight : ℕ) : Prop where
  begun : s.phase flight ≠ .idle
  live : s.phase flight = .signalling → s.ended flight = none
  answered : ∀ err, s.phase flight = .settling err → Genuine err
  done : (s.flights flight).done = true → Genuine (s.flights flight).err

/-- **What a run that meets the condition keeps.** -/
structure Wakes.Sheltered (pool : String) (s : Wakes) : Prop where
  pooled : ∀ f, s.signals.flight = some f → s.signals.pool = pool
  opened : ∀ f, s.signals.flight = some f → (s.flights f).done = false
  leading : ∀ call, (s.phase call).Leading ↔ s.signals.flight = some call
  answers : ∀ call err, s.phase call = .settling err → s.Answers call err
  followed : ∀ call f, s.phase call = .waiting f → s.Sound f
  isolated : s.Isolated

theorem sheltered_initial : Wakes.initial.Sheltered pool where
  pooled f h := by cases h
  opened f h := by cases h
  leading call := by
    constructor
    · rintro (h | ⟨err, h⟩) <;> cases h
    · intro h
      cases h
  answers call err h := by cases h
  followed call f h := by cases h
  isolated call err h := by cases h

/-! ### Steps -/

/-- Answers do not depend on phases. -/
theorem Wakes.Answers.congr (h : s.Answers call err) (hended : s'.ended call = s.ended call) :
    s'.Answers call err := by
  unfold Wakes.Answers
  rw [hended]
  exact h

/-- A flight that is not the moving call's stays sound. -/
theorem Wakes.Sound.frame (h : s.Sound flight) (hphase : s'.phase flight = s.phase flight)
    (hended : s'.ended flight = s.ended flight) (hflight : s'.flights flight = s.flights flight) :
    s'.Sound flight where
  begun := hphase ▸ h.begun
  live := fun hp => hended ▸ h.live (hphase ▸ hp)
  answered := fun err hp => h.answered err (hphase ▸ hp)
  done := by
    rw [hflight]
    exact h.done

/-- A call that leads neither before nor after its move. -/
theorem Wakes.Sheltered.leading_update (h : s.Sheltered pool) {p : WakePhase}
    (hp : p.Leading ↔ (s.phase call).Leading) (c : ℕ) :
    (Function.update s.phase call p c).Leading ↔ s.signals.flight = some c := by
  rcases eq_or_ne c call with rfl | hc
  · rw [update_self, hp]
    exact h.leading c
  · rw [update_of_ne hc]
    exact h.leading c

/-- **One call moves.** What its move has to meet for the rest to stay. -/
theorem Wakes.Sheltered.advance {p : WakePhase} (h : s.Sheltered pool)
    (hphase : s'.phase = Function.update s.phase call p) (hended : s'.ended = s.ended)
    (hflights : ∀ f, f ≠ call → s'.flights f = s.flights f)
    (hpooled : ∀ f, s'.signals.flight = some f → s'.signals.pool = pool)
    (hopened : ∀ f, s'.signals.flight = some f → (s'.flights f).done = false)
    (hleading : ∀ c, (Function.update s.phase call p c).Leading ↔ s'.signals.flight = some c)
    (hanswers : ∀ err, p = .settling err → s.Answers call err)
    (hjoins : ∀ f, p = .waiting f → s.Sound f)
    (hfollowed : s.Sound call → s'.Sound call)
    (hisolated : ∀ err, p = .returned err none → Genuine err) : s'.Sheltered pool := by
  have hself : s'.phase call = p := by rw [hphase, update_self]
  have hother : ∀ c, c ≠ call → s'.phase c = s.phase c := by
    intro c hc
    rw [hphase, update_of_ne hc]
  have hsound : ∀ f, s.Sound f → s'.Sound f := by
    intro f hf
    rcases eq_or_ne f call with rfl | hne
    · exact hfollowed hf
    · exact hf.frame (hother f hne) (congrFun hended f) (hflights f hne)
  refine ⟨hpooled, hopened, ?_, ?_, ?_, ?_⟩
  · intro c
    rw [hphase]
    exact hleading c
  · intro c err hc
    have hs : s.Answers c err := by
      rcases eq_or_ne c call with rfl | hne
      · exact hanswers err (hself ▸ hc)
      · exact h.answers c err (hother c hne ▸ hc)
    exact hs.congr (congrFun hended c)
  · intro c f hc
    rcases eq_or_ne c call with rfl | hne
    · exact hsound f (hjoins f (hself ▸ hc))
    · exact hsound f (h.followed c f (hother c hne ▸ hc))
  · intro c err hc
    rcases eq_or_ne c call with rfl | hne
    · exact hisolated err (hself ▸ hc)
    · exact h.isolated c err (hother c hne ▸ hc)

/-- A call that is not the leader returns, with an error of the signal if
its context is live. -/
theorem Wakes.Sheltered.returns (h : s.Sheltered pool) (hidle : ¬ (s.phase call).Leading)
    (hsound : s.ended call = none → Genuine err) : (s.returns call err).Sheltered pool := by
  have hp : ¬ (WakePhase.returned err (s.ended call)).Leading := by simp [WakePhase.Leading]
  refine h.advance rfl rfl (fun _ _ => rfl) h.pooled h.opened
    (h.leading_update (iff_of_false hp hidle)) (fun err hp => by cases hp)
    (fun f hp => by cases hp) ?_ ?_
  · intro hs
    refine ⟨?_, ?_, ?_, hs.done⟩
    all_goals simp [Wakes.returns, Wakes.moves]
  · intro e hp
    injection hp with he hended
    exact he ▸ hsound hended

theorem not_leading_idle (h : s.phase call = .idle) : ¬ (s.phase call).Leading := by
  simp [h, WakePhase.Leading]

theorem not_leading_waiting (h : s.phase call = .waiting flight) : ¬ (s.phase call).Leading := by
  simp [h, WakePhase.Leading]

section

variable (h : s.Sheltered pool)
include h

/-- The flight there is is sound for whoever joins it while its leader's
context is live. -/
theorem Wakes.Sheltered.sound_flight
    (hflight : s.signals.flight = some flight) (hlive : s.ended flight = none) :
    s.Sound flight where
  begun := fun hidle => not_leading_idle hidle ((h.leading flight).2 hflight)
  live := fun _ => hlive
  answered := fun err hp => (h.answers flight err hp).genuine hlive
  done := fun hdone => by
    rw [h.opened flight hflight] at hdone
    cases hdone

/-- A call joins a flight whose leader's context is live. -/
theorem Wakes.Sheltered.joins (hidle : s.phase call = .idle)
    (hflight : s.signals.flight = some flight) (hlive : s.ended flight = none) :
    (s.moves call (.waiting flight)).Sheltered pool := by
  have hp : ¬ (WakePhase.waiting flight).Leading := by simp [WakePhase.Leading]
  refine h.advance rfl rfl (fun _ _ => rfl) h.pooled h.opened
    (h.leading_update (iff_of_false hp (not_leading_idle hidle))) (fun err hp => by cases hp) ?_
    (fun hs => absurd hidle hs.begun) (fun err hp => by cases hp)
  intro f hf
  cases hf
  exact h.sound_flight hflight hlive

/-- A call opens a flight when there is none. -/
theorem Wakes.Sheltered.leads (hidle : s.phase call = .idle)
    (hnone : s.signals.flight = none) :
    ({ s with
      signals := { s.signals with flight := some call, pool := pool }
      flights := Function.update s.flights call ⟨false, none⟩ }.moves call
        .signalling).Sheltered pool := by
  refine h.advance rfl rfl (fun f hf => update_of_ne hf _ _) (fun f _ => rfl) ?_ ?_
    (fun err hp => by cases hp) (fun f hp => by cases hp)
    (fun hs => absurd hidle hs.begun) (fun err hp => by cases hp)
  · intro f hf
    cases hf
    simp [Wakes.moves]
  · -- Nobody led before, so the call is the only one.
    intro c
    rcases eq_or_ne c call with rfl | hc
    · rw [update_self]
      exact iff_of_true (.inl rfl) rfl
    · rw [update_of_ne hc]
      refine iff_of_false ?_ ?_
      · rw [h.leading c, hnone]
        exact fun hn => by cases hn
      · intro hn
        cases hn
        exact hc rfl

/-- The signal of a leader answers. -/
theorem Wakes.Sheltered.signalled (hphase : s.phase call = .signalling)
    (ha : s.Answers call err) : (s.moves call (.settling err)).Sheltered pool := by
  refine h.advance rfl rfl (fun _ _ => rfl) h.pooled h.opened
    (h.leading_update (iff_of_true (.inr ⟨err, rfl⟩) (.inl hphase))) ?_
    (fun f hp => by cases hp) ?_ (fun err hp => by cases hp)
  · intro e he
    cases he
    exact ha
  · intro hs
    refine ⟨?_, ?_, ?_, hs.done⟩
    · simp [Wakes.moves]
    · simp [Wakes.moves]
    · intro e he
      simp only [Wakes.moves, update_self] at he
      cases he
      exact ha.genuine (hs.live hphase)

/-- A leader closes its flight and returns. -/
theorem Wakes.Sheltered.settles (hphase : s.phase call = .settling err) :
    ({ s with
      signals := s.signals.settle err now
      flights := Function.update s.flights call ⟨true, err⟩ }.returns call err).Sheltered pool := by
  have hanswers := h.answers call err hphase
  refine h.advance rfl rfl (fun f hf => update_of_ne hf _ _) (fun f hf => by cases hf)
    (fun f hf => by cases hf) ?_ (fun err hp => by cases hp) (fun f hp => by cases hp) ?_ ?_
  · -- The call was the only leader, so there is none now.
    intro c
    refine iff_of_false ?_ (fun hf => by cases hf)
    rcases eq_or_ne c call with rfl | hc
    · simp [WakePhase.Leading]
    · rw [update_of_ne hc, h.leading c, (h.leading call).1 (.inr ⟨err, hphase⟩)]
      intro hn
      cases hn
      exact hc rfl
  · intro hs
    refine ⟨?_, ?_, ?_, ?_⟩
    · simp [Wakes.returns, Wakes.moves]
    · simp [Wakes.returns, Wakes.moves]
    · simp [Wakes.returns, Wakes.moves]
    · intro _
      simp only [Wakes.returns, Wakes.moves, update_self]
      exact hs.answered err hphase
  · intro e hp
    injection hp with he hended
    exact he ▸ hanswers.genuine hended

/-- The context of a call ends while nobody waits for its signal. -/
theorem Wakes.Sheltered.ends (e : ContextError)
    (hlive : s.ended call = none)
    (halone : s.phase call = .signalling → ∀ other, s.phase other ≠ .waiting call) :
    { s with ended := Function.update s.ended call (some e) }.Sheltered pool where
  pooled := h.pooled
  opened := h.opened
  leading := h.leading
  answers := by
    intro c err hc
    obtain hnone | hsignal | ⟨e', hended, herr⟩ := h.answers c err hc
    · exact .inl hnone
    · exact .inr (.inl hsignal)
    · have hne : c ≠ call := by
        rintro rfl
        rw [hlive] at hended
        cases hended
      exact .inr (.inr ⟨e', (update_of_ne hne _ _).trans hended, herr⟩)
  followed := by
    intro c f hc
    obtain ⟨hbegun, hlive, hanswered, hdone⟩ := h.followed c f hc
    refine ⟨hbegun, ?_, hanswered, hdone⟩
    intro hf
    rcases eq_or_ne f call with rfl | hne
    · exact absurd hc (halone hf c)
    · simpa [update_of_ne hne] using hlive hf
  isolated := h.isolated

/-- **A step that meets the condition.** -/
theorem Wakes.Sheltered.step (hspares : s.Spares a)
    (hstep : WakeStep pool s a s') : s'.Sheltered pool := by
  cases hstep with
  | ends e live => exact h.ends e live hspares
  | recent idle =>
    refine h.returns (not_leading_idle idle) ?_
    intro hlive
    rw [Wakes.contextErr_of_live hlive]
    exact genuine_none
  | join idle entry =>
    exact h.joins idle (enter_fits entry) (hspares _ (enter_fits entry))
  | fence idle entry =>
    obtain ⟨f, hf, hne⟩ := enter_fits entry
    exact absurd (h.pooled f hf) hne
  | lead idle entry =>
    obtain ⟨hnone, rfl⟩ := enter_fits entry
    exact h.leads idle hnone
  | cancel waiting ended =>
    exact h.returns (not_leading_waiting waiting) (fun hlive => absurd hlive ended)
  | receive waiting done =>
    exact h.returns (not_leading_waiting waiting) (fun _ => (h.followed _ _ waiting).done done)
  | signalled signalling answers => exact h.signalled signalling answers
  | settle settling => exact h.settles settling

end

/-- **Wake isolation.** In every run whose steps meet the condition, a call
that returned while its context was live returned an error only of a signal
that failed by itself. -/
theorem wake_isolated (h : (wakes pool Wakes.Spares).Reach s) : s.Isolated := by
  have hs : s.Sheltered pool := by
    refine h.invariant ?_ ?_
    · rintro _ rfl
      exact sheltered_initial
    · rintro s₁ s₂ - ih ⟨a, hspares, hstep⟩
      exact ih.step hspares hstep
  exact hs.isolated

/-- A follower of a signal that failed by itself. -/
theorem wake_isolated_follower : ∃ s, (wakes "pool" Wakes.Spares).Reach s ∧
    s.phase 1 = .returned (some (.signal "unavailable")) none ∧ s.Isolated := by
  have hlead := System.Reach.step (S := wakes "pool" Wakes.Spares) (.init rfl)
    ⟨.enter 0 0, (by intro _ hf; cases hf), .lead rfl rfl⟩
  have hjoin := hlead.step ⟨.enter 1 0, (by intro _ hf; cases hf; rfl), .join rfl rfl⟩
  have hfail := hjoin.step
    ⟨.signalled 0 (some (.signal "unavailable")), trivial, .signalled rfl (.inr (.inl ⟨_, rfl⟩))⟩
  have hsettle := hfail.step ⟨.settle 0 1, trivial, .settle rfl⟩
  have hreceive := hsettle.step ⟨.receive 1, trivial, .receive rfl rfl⟩
  exact ⟨_, hreceive, rfl, wake_isolated hreceive⟩

/-- **A disconnect fails another's admission**: the leader's caller goes
away while the signal is under way, and the follower, whose caller is
still there, is told that the context was canceled. -/
theorem leader_cancels_follower : ¬ ∀ s, (wakes "pool" fun _ _ => True).Reach s → s.Isolated := by
  intro hall
  have hlead := System.Reach.step (S := wakes "pool" fun _ _ => True) (.init rfl)
    ⟨.enter 0 0, trivial, .lead rfl rfl⟩
  have hjoin := hlead.step ⟨.enter 1 0, trivial, .join rfl rfl⟩
  have hgone := hjoin.step ⟨.ends 0 .canceled, trivial, .ends .canceled rfl⟩
  have hfail := hgone.step
    ⟨.signalled 0 (some (.context 0 .canceled)), trivial, .signalled rfl (.inr (.inr ⟨_, rfl, rfl⟩))⟩
  have hsettle := hfail.step ⟨.settle 0 1, trivial, .settle rfl⟩
  have hreceive := hsettle.step ⟨.receive 1, trivial, .receive rfl rfl⟩
  obtain ⟨message, hm⟩ := hall _ hreceive 1 _ rfl _ rfl
  cases hm

end HardenLlm.Stateful
