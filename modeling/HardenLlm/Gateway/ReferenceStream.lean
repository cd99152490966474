import Mathlib.Tactic.Common
import HardenLlm.Gateway.Model.ReferenceStream
/-!
# The answer to a reference run

At its first `select` the handler may find both the signal of an admitted
run and the outcome of its failure, and take the outcome: an admitted run
is then answered with a rejection. Where that never happens, an admitted
run is answered with a stream: progress, its terminal event once, and its
recording.
-/

namespace HardenLlm.Gateway

namespace ReferenceStream

variable {ρ η ε π : Type} {first : State ρ η ε π → Prop} {s s' : State ρ η ε π}
  {c c' : Channels ρ η ε π} {o o' r : Outcome ρ η ε}

/-! ## Outcomes and events -/

/-- The same but for the recording. -/
structure Outcome.Alike (o o' : Outcome ρ η ε) : Prop where
  identity : o.identity = o'.identity
  output : o.output = o'.output
  err : o.err = o'.err

theorem Outcome.Alike.refl (o : Outcome ρ η ε) : o.Alike o := ⟨rfl, rfl, rfl⟩

/-- **The terminal event of an outcome.** -/
structure Event.Terminal (e : Event ρ η ε π) (o : Outcome ρ η ε) : Prop where
  kind : e.kind = if o.err.isSome then .failed else .completed
  identity : e.identity = o.identity
  data : e.data = .terminal o.output o.err

theorem Event.Terminal.alike {e : Event ρ η ε π} (h : e.Terminal o) (ho : o.Alike o') :
    e.Terminal o' :=
  ⟨ho.err ▸ h.kind, ho.identity ▸ h.identity, ho.output ▸ ho.err ▸ h.data⟩

/-- **The recording of an outcome.** -/
structure Event.Recording (e : Event ρ η ε π) (o : Outcome ρ η ε) : Prop where
  kind : e.kind = .recorded
  identity : e.identity = o.identity
  data : e.data = .recording o.history

/-! ## The run -/

/-- What the run hands over or returns, but for the recording. -/
def Channels.Tells (c : Channels ρ η ε π) (o : Outcome ρ η ε) : Prop :=
  c.runner = .recording o ∨ ∃ r, c.result = some r ∧ o.Alike r

/-- **What holds of the run and its channels.** -/
structure Channels.Sound (c : Channels ρ η ε π) : Prop where
  signalled : c.ready = true → c.admitted = true
  preparing : c.runner = .preparing → c.admitted = false
  calling : c.runner = .calling → c.admitted = true
  unadmitted : c.admitted = false → ∀ o, c.runner = .finishing o ∨ c.runner = .recording o
    ∨ c.result = some o → o.err.isSome
  returned : c.result.isSome ↔ c.runner = .returned
  outcomes : ∀ o, c.outcomes = some o → c.result = some o
  terminal : ∀ o, c.terminal = some o → c.Tells o

theorem sound_init : ({} : Channels ρ η ε π).Sound where
  signalled h := by cases h
  preparing _ := rfl
  calling h := by cases h
  unadmitted _ o h := by rcases h with h | h | h <;> cases h
  returned := by simp
  outcomes o h := by cases h
  terminal o h := by cases h

theorem Channels.Sound.result_eq_none (h : c.Sound) (hrunner : c.runner ≠ .returned) :
    c.result = none := by
  rw [← Option.not_isSome_iff_eq_none, h.returned]
  exact hrunner

/-- A run that has returned makes no step. -/
theorem RunStep.not_returned (hstep : RunStep c c') (hc : c.Sound) : c.result = none := by
  refine hc.result_eq_none fun hreturned => ?_
  cases hstep with
  | refuse _ phase | unresolved _ phase | signal phase | report _ phase | conclude _ phase
  | unidentified _ phase | complete phase | record _ phase =>
    rw [hreturned] at phase; cases phase

/-- **What the run tells stays.** -/
theorem Channels.Tells.step (hc : c.Sound) (hstep : RunStep c c') (h : c.Tells o) : c'.Tells o := by
  rcases h with h | ⟨r, hr, halike⟩
  · cases hstep with
    | record history phase =>
      obtain rfl := Runner.recording.inj (phase.symm.trans h)
      exact .inr ⟨_, rfl, ⟨rfl, rfl, rfl⟩⟩
    | refuse _ phase | unresolved _ phase | signal phase | report _ phase | conclude _ phase
    | unidentified _ phase | complete phase => rw [h] at phase; cases phase
  · rw [hstep.not_returned hc] at hr
    cases hr

/-- A run that has told nothing has no terminal. -/
theorem Channels.Sound.terminal_eq_none (h : c.Sound) (hreturned : c.runner ≠ .returned)
    (hrecording : ∀ o, c.runner ≠ .recording o) : c.terminal = none := by
  by_contra hsome
  obtain ⟨o, ho⟩ := Option.ne_none_iff_exists'.1 hsome
  rcases h.terminal o ho with htold | ⟨r, hr, -⟩
  · exact hrecording o htold
  · rw [h.result_eq_none hreturned] at hr
    cases hr

/-- The run returns what its terminal told, if there was one. -/
theorem Channels.Sound.returns (h : c.Sound) (hterminal : ∀ o', c.terminal = some o' → o'.Alike o)
    (herr : c.admitted = false → o.err.isSome) : (c.returns o).Sound where
  signalled := h.signalled
  preparing hp := by cases hp
  calling hp := by cases hp
  unadmitted hadmitted o' hp := by
    rcases hp with hp | hp | hp
    · cases hp
    · cases hp
    · obtain rfl := Option.some.inj hp
      exact herr hadmitted
  returned := by simp [Channels.returns]
  outcomes o' ho' := ho'
  terminal o' ho' := .inr ⟨o, rfl, hterminal o' ho'⟩

/-- The run has a result, of an admitted call or of a failure before. -/
theorem Channels.Sound.finishes (h : c.Sound) (hreturned : c.runner ≠ .returned)
    (hrecording : ∀ o, c.runner ≠ .recording o) (herr : c.admitted = false → o.err.isSome) :
    { c with runner := .finishing o }.Sound where
  signalled := h.signalled
  preparing hp := by cases hp
  calling hp := by cases hp
  unadmitted hadmitted o' hp := by
    rcases hp with hp | hp | hp
    · obtain rfl := Runner.finishing.inj hp
      exact herr hadmitted
    · cases hp
    · exact h.unadmitted hadmitted o' (.inr (.inr hp))
  returned := by simp [h.result_eq_none hreturned]
  outcomes := h.outcomes
  terminal o' ho' := by
    rw [h.terminal_eq_none hreturned hrecording] at ho'
    cases ho'

theorem Channels.Sound.step (h : c.Sound) (hstep : RunStep c c') : c'.Sound := by
  cases hstep with
  | refuse o phase err | unidentified o phase err =>
    have hnone := h.terminal_eq_none (by simp [phase]) (by simp [phase])
    exact h.returns (fun o' ho' => by rw [hnone] at ho'; cases ho') fun _ => err
  | unresolved o phase err => exact h.finishes (by simp [phase]) (by simp [phase]) fun _ => err
  | signal phase =>
    have hreturned : c.runner ≠ .returned := by simp [phase]
    refine ⟨fun _ => rfl, fun hp => ?_, fun _ => rfl, fun hp => ?_, ?_, h.outcomes, fun o ho => ?_⟩
    · cases hp
    · cases hp
    · simp [h.result_eq_none hreturned]
    · rw [h.terminal_eq_none hreturned (by simp [phase])] at ho
      cases ho
  | report =>
    exact { h with }
  | conclude o phase =>
    refine h.finishes (by simp [phase]) (by simp [phase]) fun hadmitted => ?_
    rw [h.calling phase] at hadmitted
    cases hadmitted
  | @complete o phase =>
    have hreturned : c.runner ≠ .returned := by simp [phase]
    refine ⟨h.signalled, fun hp => ?_, fun hp => ?_, fun hadmitted o' hp => ?_, ?_, h.outcomes,
      fun o' ho' => ?_⟩
    · cases hp
    · cases hp
    · rcases hp with hp | hp | hp
      · cases hp
      · obtain rfl := Runner.recording.inj hp
        exact h.unadmitted hadmitted o (.inl phase)
      · exact h.unadmitted hadmitted o' (.inr (.inr hp))
    · simp [h.result_eq_none hreturned]
    · obtain rfl := Option.some.inj ho'
      exact .inl rfl
  | @record o history phase =>
    refine h.returns (fun o' ho' => ?_) fun hadmitted => h.unadmitted hadmitted o (.inr (.inl phase))
    rcases h.terminal o' ho' with htold | ⟨r, hr, -⟩
    · obtain rfl := Runner.recording.inj (phase.symm.trans htold)
      exact ⟨rfl, rfl, rfl⟩
    · rw [h.result_eq_none (by simp [phase])] at hr
      cases hr

/-- The handler receives; nothing else of the run changes. -/
structure Channels.Received (c c' : Channels ρ η ε π) : Prop where
  runner : c'.runner = c.runner
  admitted : c'.admitted = c.admitted
  result : c'.result = c.result
  ready : c'.ready = true → c.ready = true
  outcomes : ∀ o, c'.outcomes = some o → c.outcomes = some o
  terminal : ∀ o, c'.terminal = some o → c.terminal = some o

theorem Channels.received_progress (c : Channels ρ η ε π) (rest : List (ProgressEvent π)) :
    c.Received { c with progress := rest } :=
  ⟨rfl, rfl, rfl, fun h => h, fun _ ho => ho, fun _ ho => ho⟩

theorem Channels.received_outcome (c : Channels ρ η ε π) : c.Received { c with outcomes := none } :=
  ⟨rfl, rfl, rfl, fun h => h, fun _ ho => (by cases ho), fun _ ho => ho⟩

theorem Channels.Received.tells (h : c.Received c') (ho : c.Tells o) : c'.Tells o := by
  rw [Channels.Tells, h.runner, h.result]
  exact ho

theorem Channels.Sound.received (h : c.Sound) (hc : c.Received c') : c'.Sound where
  signalled hr := by rw [hc.admitted]; exact h.signalled (hc.ready hr)
  preparing hp := by rw [hc.admitted]; exact h.preparing (hc.runner ▸ hp)
  calling hp := by rw [hc.admitted]; exact h.calling (hc.runner ▸ hp)
  unadmitted ha o ho := h.unadmitted (hc.admitted ▸ ha) o (by rwa [hc.runner, hc.result] at ho)
  returned := by rw [hc.runner, hc.result]; exact h.returned
  outcomes o ho := by rw [hc.result]; exact h.outcomes o (hc.outcomes o ho)
  terminal o ho := hc.tells (h.terminal o (hc.terminal o ho))

/-! ## The handler -/

/-- The stream so far: progress, and the terminal once it is written. -/
def State.Logged (s : State ρ η ε π) : Prop :=
  if s.terminalWritten then
    ∃ ps t o, s.log = ps ++ [t] ∧ (∀ e ∈ ps, e.kind = .progress) ∧ t.Terminal o ∧ s.run.Tells o
  else ∀ e ∈ s.log, e.kind = .progress

/-- An admitted run is being answered with a stream. -/
structure State.Open (s : State ρ η ε π) : Prop where
  admitted : s.run.admitted = true
  opened : s.opened = true
  rejected : s.rejected = none
  logged : s.Logged

/-- **The whole answer to an admitted run**: progress, its terminal event,
its recording. -/
def State.Complete (s : State ρ η ε π) : Prop :=
  s.opened = true ∧ s.rejected = none ∧ ∃ ps t h r, s.run.result = some r
    ∧ s.log = ps ++ [t, h] ∧ (∀ e ∈ ps, e.kind = .progress) ∧ t.Terminal r ∧ h.Recording r

/-- **What holds of the handler**, by where it is. -/
def State.Serving (s : State ρ η ε π) : Handler ρ η ε → Prop
  | .admitting => s.log = [] ∧ s.terminalWritten = false ∧ s.rejected = none
    ∧ (s.run.admitted = true → s.run.ready = true) ∧ s.run.outcomes = s.run.result
  | .streaming => s.Open ∧ s.run.outcomes = s.run.result
  | .draining o last => s.Open ∧ s.run.Tells o
    ∧ if last then s.run.result = some o else s.run.outcomes = s.run.result
  | .closing o => s.Open ∧ s.run.result = some o ∧ s.terminalWritten = true
  | .done => (s.run.admitted = false ∧ s.run.result.isSome)
    ∨ (s.rejected = none ∧ (s.gone = true ∨ s.broken = true)) ∨ s.Complete

/-- A stream stays one as long as nothing is written. -/
theorem State.Open.moves (h : s.Open) (hadmitted : s'.run.admitted = true)
    (htells : ∀ o, s.run.Tells o → s'.run.Tells o) (hopened : s'.opened = s.opened)
    (hrejected : s'.rejected = s.rejected) (hwritten : s'.terminalWritten = s.terminalWritten)
    (hlog : s'.log = s.log) : s'.Open where
  admitted := hadmitted
  opened := hopened.trans h.opened
  rejected := hrejected.trans h.rejected
  logged := by
    have hlogged := h.logged
    unfold State.Logged at hlogged ⊢
    rw [hwritten, hlog]
    split at hlogged
    · rename_i hwritten
      obtain ⟨ps, t, o, hlog, hps, ht, ho⟩ := hlogged
      rw [if_pos hwritten]
      exact ⟨ps, t, o, hlog, hps, ht, htells o ho⟩
    · rename_i hwritten
      rw [if_neg hwritten]
      exact hlogged

/-! ### Steps of the run -/

theorem RunStep.admitted (hstep : RunStep c c') (h : c.admitted = true) : c'.admitted = true := by
  cases hstep <;> first | exact h | rfl

theorem RunStep.waiting (hstep : RunStep c c') (h : c.admitted = true → c.ready = true) :
    c'.admitted = true → c'.ready = true := by
  cases hstep with
  | signal => exact fun _ => rfl
  | _ => exact h

theorem RunStep.pending (hstep : RunStep c c') (h : c.outcomes = c.result) :
    c'.outcomes = c'.result := by
  cases hstep <;> first | exact h | rfl

theorem State.Serving.run {p : Handler ρ η ε} (h : s.Serving p) (hc : s.run.Sound)
    (hstep : RunStep s.run c) : { s with run := c }.Serving p := by
  have hnone := hstep.not_returned hc
  have hopen : s.Open → { s with run := c }.Open := fun hopen =>
    hopen.moves (hstep.admitted hopen.admitted) (fun _ ho => ho.step hc hstep) rfl rfl rfl rfl
  cases p with
  | admitting =>
    obtain ⟨hlog, hwritten, hrejected, hwaiting, hpending⟩ := h
    exact ⟨hlog, hwritten, hrejected, hstep.waiting hwaiting, hstep.pending hpending⟩
  | streaming => exact ⟨hopen h.1, hstep.pending h.2⟩
  | draining o last =>
    obtain ⟨hs, htells, hlast⟩ := h
    refine ⟨hopen hs, htells.step hc hstep, ?_⟩
    cases last with
    | true => simp [hnone] at hlast
    | false => exact hstep.pending hlast
  | closing =>
    obtain ⟨-, hresult, -⟩ := h
    rw [hnone] at hresult
    cases hresult
  | done =>
    rcases h with ⟨-, hresult⟩ | h | ⟨-, -, ps, t, e, r, hr, -⟩
    · simp [hnone] at hresult
    · exact .inr (.inl h)
    · rw [hnone] at hr
      cases hr

/-! ### Steps of the handler -/

/-- What the handler keeps with every step. -/
structure State.Kept (s : State ρ η ε π) : Prop where
  sound : s.run.Sound
  serving : s.Serving s.handler

variable {next : Handler ρ η ε} {ok : Bool}

/-- An event goes out, or the answer ends. -/
theorem State.write_kept {kind : Kind} {identity : Identity} {data : Data ρ η ε π}
    (hsound : s.run.Sound) (hrejected : s.rejected = none) (hnext : ({ s with
      sequence := s.sequence + 1
      log := s.log ++ [⟨s.sequence + 1, kind, identity, data⟩]
      handler := next } : State ρ η ε π).Serving next) :
    (s.write kind identity data ok next).Kept := by
  cases ok with
  | true => exact ⟨hsound, hnext⟩
  | false => exact ⟨hsound, .inr (.inl ⟨hrejected, .inr rfl⟩)⟩

/-- A progress event keeps the stream open. -/
theorem State.writeProgress_kept {e : ProgressEvent π} (hsound : s.run.Sound) (hopen : s.Open)
    (hnext : ∀ s' : State ρ η ε π, s'.Open → s'.run = s.run → s'.Serving next) :
    (s.writeProgress e ok next).Kept := by
  unfold State.writeProgress
  split
  · exact ⟨hsound, hnext _ (hopen.moves hopen.admitted (fun _ ho => ho) rfl rfl rfl rfl) rfl⟩
  · rename_i hwritten
    refine State.write_kept hsound hopen.rejected (hnext _ ⟨hopen.admitted, hopen.opened,
      hopen.rejected, ?_⟩ rfl)
    have hlogged := hopen.logged
    unfold State.Logged at hlogged ⊢
    rw [if_neg hwritten] at hlogged ⊢
    intro e' he'
    rcases List.mem_append.1 he' with he' | he'
    · exact hlogged e' he'
    · rw [List.mem_singleton.1 he']

/-- The terminal is written once. -/
theorem State.writeTerminal_kept (hsound : s.run.Sound) (hopen : s.Open) (htells : s.run.Tells o)
    (hnext : ∀ s' : State ρ η ε π, s'.Open → s'.terminalWritten = true → s'.run = s.run →
      s'.Serving next) : (s.writeTerminal o ok next).Kept := by
  unfold State.writeTerminal
  split
  · rename_i hwritten
    exact ⟨hsound, hnext _ (hopen.moves hopen.admitted (fun _ ho => ho) rfl rfl rfl rfl) hwritten rfl⟩
  · rename_i hwritten
    refine State.write_kept hsound hopen.rejected (hnext _ ⟨hopen.admitted, hopen.opened,
      hopen.rejected, ?_⟩ rfl rfl)
    have hlogged := hopen.logged
    unfold State.Logged at hlogged ⊢
    rw [if_neg hwritten] at hlogged
    rw [if_pos rfl]
    exact ⟨s.log, _, o, rfl, hlogged, ⟨rfl, rfl, rfl⟩, htells⟩

/-- The headers go out. -/
theorem State.openStream_kept (hsound : s.run.Sound) (hrejected : s.rejected = none)
    (hnext : ({ s with opened := true, handler := next } : State ρ η ε π).Serving next) :
    (s.openStream ok next).Kept := by
  cases ok with
  | true => exact ⟨hsound, hnext⟩
  | false => exact ⟨hsound, .inr (.inl ⟨hrejected, .inr rfl⟩)⟩

/-- **The condition**: at the first `select`, the signal and the outcome of
a failure are not both there. -/
def State.Settled (s : State ρ η ε π) : Prop :=
  ¬ (s.run.ready = true ∧ ∃ o, s.run.outcomes = some o ∧ o.err.isSome)

theorem State.Serving.gone {p : Handler ρ η ε} (h : s.Serving p) :
    { s with gone := true }.Serving p := by
  have hopen : s.Open → { s with gone := true }.Open := fun hopen =>
    hopen.moves hopen.admitted (fun _ ho => ho) rfl rfl rfl rfl
  cases p with
  | admitting => exact h
  | streaming | draining | closing => exact ⟨hopen h.1, h.2⟩
  | done =>
    rcases h with h | ⟨hrejected, -⟩ | h
    · exact .inl h
    · exact .inr (.inl ⟨hrejected, .inl rfl⟩)
    · exact .inr (.inr h)

/-- **Every step that meets the condition.** -/
theorem State.Kept.step (h : s.Kept) (hstep : Step State.Settled s s') : s'.Kept := by
  have hs := h.serving
  cases hstep with
  | run step => exact ⟨h.sound.step step, hs.run h.sound step⟩
  | disconnect => exact ⟨h.sound, hs.gone⟩
  | proceed ok cond phase received =>
    rw [phase] at hs
    obtain ⟨hlog, hwritten, hrejected, -, hpending⟩ := hs
    have hadmitted := h.sound.signalled received
    have hreceived : s.run.Received { s.run with ready := false } :=
      ⟨rfl, rfl, rfl, fun h => (by cases h), fun _ ho => ho, fun _ ho => ho⟩
    refine State.openStream_kept (h.sound.received hreceived) hrejected
      ⟨⟨hadmitted, rfl, hrejected, ?_⟩, hpending⟩
    simp [State.Logged, hwritten, hlog]
  | @reject o cond phase received err =>
    rw [phase] at hs
    obtain ⟨-, -, -, hwaiting, hpending⟩ := hs
    refine ⟨h.sound.received s.run.received_outcome, .inl ⟨?_, ?_⟩⟩
    · -- an admitted run would have its signal there as well
      by_contra hadmitted
      exact cond ⟨hwaiting (by simpa using hadmitted), o, received, err⟩
    · simp [h.sound.outcomes o received]
  | @pend o ok cond phase received err =>
    rw [phase] at hs
    obtain ⟨hlog, hwritten, hrejected, -, -⟩ := hs
    have hresult := h.sound.outcomes o received
    -- a run that was not admitted fails
    have hadmitted : s.run.admitted = true := by
      by_contra hadmitted
      have := h.sound.unadmitted (by simpa using hadmitted) o (.inr (.inr hresult))
      simp [err] at this
    refine State.openStream_kept (h.sound.received s.run.received_outcome) hrejected
      ⟨⟨hadmitted, rfl, hrejected, ?_⟩, .inr ⟨o, hresult, .refl o⟩, hresult⟩
    simp [State.Logged, hwritten, hlog]
  | leave phase gone =>
    refine ⟨h.sound, .inr (.inl ⟨?_, .inl gone⟩)⟩
    rcases phase with phase | phase <;> rw [phase] at hs
    · exact hs.2.2.1
    · exact hs.1.rejected
  | @event e rest ok phase =>
    rw [phase] at hs
    obtain ⟨hopen, hpending⟩ := hs
    refine State.writeProgress_kept (h.sound.received (s.run.received_progress rest))
      (hopen.moves hopen.admitted (fun _ ho => ho) rfl rfl rfl rfl) fun s' hs' hrun => ⟨hs', ?_⟩
    rw [hrun]
    exact hpending
  | @terminal o phase received =>
    rw [phase] at hs
    obtain ⟨hopen, hpending⟩ := hs
    have hreceived : s.run.Received { s.run with terminal := none } :=
      ⟨rfl, rfl, rfl, fun h => h, fun _ ho => ho, fun _ ho => (by cases ho)⟩
    refine ⟨h.sound.received hreceived, ?_, h.sound.terminal o received, hpending⟩
    exact hopen.moves hopen.admitted (fun _ ho => ho) rfl rfl rfl rfl
  | @outcome o phase received =>
    rw [phase] at hs
    obtain ⟨hopen, -⟩ := hs
    have hresult := h.sound.outcomes o received
    refine ⟨h.sound.received s.run.received_outcome, ?_, .inr ⟨o, hresult, .refl o⟩, hresult⟩
    exact hopen.moves hopen.admitted (fun _ ho => ho) rfl rfl rfl rfl
  | @drain o last e rest ok phase =>
    rw [phase] at hs
    obtain ⟨hopen, htells, hlast⟩ := hs
    refine State.writeProgress_kept (h.sound.received (s.run.received_progress rest))
      (hopen.moves hopen.admitted (fun _ ho => ho) rfl rfl rfl rfl) fun s' hs' hrun => ⟨hs', ?_⟩
    rw [hrun]
    exact ⟨htells, hlast⟩
  | @drained o last ok phase =>
    rw [phase] at hs
    obtain ⟨hopen, htells, hlast⟩ := hs
    refine State.writeTerminal_kept h.sound hopen htells fun s' hs' hwritten hrun => ?_
    cases last with
    | true => exact ⟨hs', hrun ▸ hlast, hwritten⟩
    | false => exact ⟨hs', hrun ▸ hlast⟩
  | @close o ok phase =>
    rw [phase] at hs
    obtain ⟨hopen, hresult, hwritten⟩ := hs
    refine State.write_kept h.sound hopen.rejected
      (.inr (.inr ⟨hopen.opened, hopen.rejected, ?_⟩))
    have hlogged := hopen.logged
    unfold State.Logged at hlogged
    rw [if_pos hwritten] at hlogged
    obtain ⟨ps, t, o', hlog, hps, ht, htells⟩ := hlogged
    -- the run has returned, so what it told is its outcome
    have halike : o'.Alike o := by
      rcases htells with hrecording | ⟨r, hr, halike⟩
      · have := h.sound.returned.1 (by simp [hresult])
        rw [hrecording] at this
        cases this
      · obtain rfl := Option.mem_unique hr hresult
        exact halike
    exact ⟨ps, t, ⟨s.sequence + 1, .recorded, o.identity, .recording o.history⟩, o, hresult,
      by simp [hlog], hps, ht.alike halike, ⟨rfl, rfl, rfl⟩⟩

/-! ## The handler finishes -/

/-- The handler can come to its end with no write failing. -/
def State.Finishes (s : State ρ η ε π) : Prop :=
  ∃ s', (system fun s : State ρ η ε π => s.Settled).Run s s' ∧ s'.handler = .done ∧ s'.broken = s.broken
    ∧ s'.gone = s.gone

theorem State.Finishes.of_step (hstep : Step State.Settled s s') (h : s'.Finishes)
    (hbroken : s'.broken = s.broken) (hgone : s'.gone = s.gone) : s.Finishes := by
  obtain ⟨t, hrun, hdone, hb, hg⟩ := h
  exact ⟨t, (System.Run.single hstep).trans hrun, hdone, hb.trans hbroken, hg.trans hgone⟩

/-- A write that succeeds moves the handler and nothing of the run. -/
theorem State.writeProgress_true (s : State ρ η ε π) (e : ProgressEvent π) (next : Handler ρ η ε) :
    (s.writeProgress e true next).handler = next ∧ (s.writeProgress e true next).run = s.run
      ∧ (s.writeProgress e true next).broken = s.broken
      ∧ (s.writeProgress e true next).gone = s.gone := by
  unfold State.writeProgress
  split <;> exact ⟨rfl, rfl, rfl, rfl⟩

theorem State.writeTerminal_true (s : State ρ η ε π) (o : Outcome ρ η ε) (next : Handler ρ η ε) :
    (s.writeTerminal o true next).handler = next ∧ (s.writeTerminal o true next).run = s.run
      ∧ (s.writeTerminal o true next).broken = s.broken
      ∧ (s.writeTerminal o true next).gone = s.gone := by
  unfold State.writeTerminal
  split <;> exact ⟨rfl, rfl, rfl, rfl⟩

theorem finishes_closing (h : s.handler = .closing o) : s.Finishes :=
  ⟨_, System.Run.single (.close true h), rfl, rfl, rfl⟩

/-- Progress is drained, then the terminal goes out. -/
theorem finishes_draining {last : Bool} (h : s.handler = .draining o last)
    (hnext : ∀ t : State ρ η ε π, t.handler = (if last then .closing o else .streaming) →
      t.run.outcomes = s.run.outcomes → t.Finishes) : s.Finishes := by
  induction hp : s.run.progress generalizing s with
  | nil =>
    obtain ⟨hhandler, hrun, hbroken, hgone⟩ :=
      s.writeTerminal_true o (if last then .closing o else .streaming)
    exact .of_step (.drained true h hp) (hnext _ hhandler (congrArg Channels.outcomes hrun))
      hbroken hgone
  | cons e rest ih =>
    obtain ⟨hhandler, hrun, hbroken, hgone⟩ :=
      ({ s with run.progress := rest } : State ρ η ε π).writeProgress_true e (.draining o last)
    refine .of_step (.drain true h hp) (ih hhandler (fun t ht hout => ?_) ?_) hbroken hgone
    · exact hnext t ht (hout.trans (by rw [hrun]))
    · exact congrArg Channels.progress hrun

theorem finishes_last (h : s.handler = .draining o true) : s.Finishes :=
  finishes_draining h fun _ ht _ => finishes_closing ht

theorem finishes_streaming (h : s.handler = .streaming) (ho : s.run.outcomes = some o) :
    s.Finishes :=
  .of_step (.outcome h ho) (finishes_last rfl) rfl rfl

/-- **Once the run has returned, the handler can always finish.** -/
theorem State.Kept.finishes (h : s.Kept) (hresult : s.run.result = some r)
    (hfirst : s.handler = .admitting → s.Settled) : s.Finishes := by
  have hs := h.serving
  cases hhandler : s.handler with
  | done => exact ⟨s, .refl s, hhandler, rfl, rfl⟩
  | closing => exact finishes_closing hhandler
  | streaming =>
    rw [hhandler] at hs
    exact finishes_streaming hhandler (hs.2.trans hresult)
  | draining o last =>
    rw [hhandler] at hs
    cases last with
    | true => exact finishes_last hhandler
    | false =>
      refine finishes_draining hhandler fun t ht hout => finishes_streaming (o := r) ht ?_
      exact hout.trans (hs.2.2.trans hresult)
  | admitting =>
    rw [hhandler] at hs
    have hcond := hfirst hhandler
    have hout : s.run.outcomes = some r := hs.2.2.2.2.trans hresult
    cases herr : r.err with
    | none => exact .of_step (.pend true hcond hhandler hout herr) (finishes_last rfl) rfl rfl
    | some =>
      exact .of_step (.reject hcond hhandler hout (by simp [herr])) ⟨_, .refl _, rfl, rfl, rfl⟩
        rfl rfl

/-! ## The answer -/

/-- **What the client gets.** A rejection is only for a run that was not
admitted; an admitted run is answered with its stream, unless the client
went or a write failed; and once the run has returned the handler comes to
its end. -/
structure State.Answered (s : State ρ η ε π) : Prop where
  rejected : s.rejected.isSome → s.run.admitted = false
  streamed : s.handler = .done → s.run.admitted = true → s.gone = false → s.broken = false →
    s.Complete
  finishes : s.run.result.isSome → (s.handler = .admitting → s.Settled) → s.Finishes

theorem State.Kept.answered (h : s.Kept) : s.Answered where
  rejected hsome := by
    have hs := h.serving
    cases hhandler : s.handler with
    | done =>
      rw [hhandler] at hs
      rcases hs with ⟨hadmitted, -⟩ | ⟨hrejected, -⟩ | ⟨-, hrejected, -⟩
      · exact hadmitted
      · simp [hrejected] at hsome
      · simp [hrejected] at hsome
    | admitting => rw [hhandler] at hs; simp [hs.2.2.1] at hsome
    | streaming | draining | closing => rw [hhandler] at hs; simp [hs.1.rejected] at hsome
  streamed hhandler hadmitted hgone hbroken := by
    have hs := h.serving
    rw [hhandler] at hs
    rcases hs with ⟨hnot, -⟩ | ⟨-, hend | hend⟩ | hcomplete
    · rw [hadmitted] at hnot; cases hnot
    · rw [hgone] at hend; cases hend
    · rw [hbroken] at hend; cases hend
    · exact hcomplete
  finishes hsome hfirst := by
    obtain ⟨r, hr⟩ := Option.isSome_iff_exists.1 hsome
    exact h.finishes hr hfirst

theorem kept_init : ({} : State ρ η ε π).Kept :=
  ⟨sound_init, rfl, rfl, rfl, fun h => (by cases h), rfl⟩

/-- **An admitted run is answered with a stream**, in every run in which
the handler does not find both the signal and a failure at its first
`select`. -/
theorem admitted_answered (h : (system fun s : State ρ η ε π => s.Settled).Reach s) :
    s.Answered := by
  have hkept : s.Kept := by
    refine h.invariant (P := State.Kept) ?_ ?_
    · rintro _ rfl
      exact kept_init
    · rintro s₁ s₂ - ih hstep
      exact ih.step hstep
  exact hkept.answered

namespace Sample

def outcome (err : Option Unit) : Outcome Unit Unit Unit := ⟨⟨"run", "call", "trace"⟩, (), (), err⟩

end Sample

open Sample

/-- A run that fails once it is admitted, with a handler that is in time. -/
theorem admitted_answered_failure :
    ∃ s, (system fun s : State Unit Unit Unit Unit => s.Settled).Reach s
      ∧ s.log.map (·.kind) = [.progress, .failed, .recorded] ∧ s.Answered := by
  have hsignal := System.Reach.step (S := system fun s : State Unit Unit Unit Unit => s.Settled)
    (.init rfl) (.run (.signal rfl))
  have hopen := hsignal.step (.proceed true (by simp [State.Settled]) rfl rfl)
  have hreport := hopen.step (.run (.report ⟨⟨"run", "call", "trace"⟩, ()⟩ rfl))
  have hconclude := hreport.step (.run (.conclude (outcome (some ())) rfl))
  have hcomplete := hconclude.step (.run (.complete rfl))
  have hrecord := hcomplete.step (.run (.record () rfl))
  have hterminal := hrecord.step (.terminal rfl rfl)
  have hdrain := hterminal.step (.drain true rfl rfl)
  have hdrained := hdrain.step (.drained true rfl rfl)
  have houtcome := hdrained.step (.outcome rfl rfl)
  have hdrained' := houtcome.step (.drained true rfl rfl)
  have hclose := hdrained'.step (.close true rfl)
  exact ⟨_, hclose, rfl, admitted_answered hclose⟩

/-- **An admitted run is rejected**: it signals, fails and returns before the
handler looks, and the handler's first `select` takes the outcome. -/
theorem admitted_rejected : ¬ ∀ s, (system fun _ : State Unit Unit Unit Unit => True).Reach s →
    s.rejected.isSome → s.run.admitted = false := by
  intro hall
  have hsignal := System.Reach.step (S := system fun _ : State Unit Unit Unit Unit => True)
    (.init rfl) (.run (.signal rfl))
  have hconclude := hsignal.step (.run (.conclude (outcome (some ())) rfl))
  have hcomplete := hconclude.step (.run (.complete rfl))
  have hrecord := hcomplete.step (.run (.record () rfl))
  have hreject := hrecord.step (.reject trivial rfl rfl rfl)
  exact absurd (hall _ hreject rfl) (by decide)

end ReferenceStream

end HardenLlm.Gateway
