import HardenLlm.Runtime.Validated
/-!
# Progress events

The events of a run are numbered from one, count attempts that only grow,
and end with the one that says how the run ended. A run that stops before
its generation is prepared may report nothing.
-/

namespace HardenLlm.Runtime

open List

variable {A : Type} {inv : Invocation A}

/-- Events numbered from one, whose attempts never become fewer. -/
structure Sequenced (events : List ProgressEvent) : Prop where
  numbered : events.map (·.sequence) = List.range' 1 events.length
  ascending : events.Pairwise (·.attemptsUsed ≤ ·.attemptsUsed)

/-- **The protocol** of a run's events, for the error it returned: the
last one and no other is terminal, and says whether there was one. -/
structure Protocol (events : List ProgressEvent) (err : Option Fault) : Prop
    extends Sequenced events where
  last : ∃ earlier e, events = earlier ++ [e] ∧ e.terminal = true
    ∧ (∀ x ∈ earlier, x.terminal = false) ∧ (e.stopReason = some .succeeded ↔ err = none)

theorem not_protocol_nil {err : Option Fault} : ¬ Protocol [] err := by
  rintro ⟨-, earlier, e, h, -⟩
  exact append_ne_nil_of_right_ne_nil earlier (cons_ne_nil e []) h.symm

/-! ## Events so far -/

/-- The events so far, with their counter and the attempts the record has. -/
structure Reports (events : List ProgressEvent) (sequence used : ℕ) : Prop
    extends Sequenced events where
  sequenced : sequence = events.length
  counted : ∀ e ∈ events, e.attemptsUsed ≤ used
  running : ∀ e ∈ events, e.terminal = false

/-- **A run so far**, if this is what it returns: a stop reason that is
noted agrees with it. -/
def Reported (run : RunState A) (err : Option Fault) : Prop :=
  Reports run.events run.progressSequence run.record.attempts.length
    ∧ ∀ reason ∈ run.record.stopReason, reason = .succeeded ↔ err = none

theorem stopReasonFor_eq_succeeded {err : Option Fault} :
    stopReasonFor err = .succeeded ↔ err = none := by
  unfold stopReasonFor
  split
  · simp
  · split_ifs
    · simp
    · simp
    · split <;> simp

section Events

variable {run : RunState A} {err : Option Fault} {stage : Stage} {branch : Branch}
  {id effort : String} {n : ℕ}

/-- One more event, of the attempts there are. -/
theorem Reports.snoc {events : List ProgressEvent} {sequence used : ℕ} {e : ProgressEvent}
    (h : Reports events sequence used) (hsequence : e.sequence = sequence + 1)
    (hused : e.attemptsUsed = used) : Sequenced (events ++ [e]) where
  numbered := by
    rw [map_append, h.numbered, length_append, length_singleton,
      List.range'_1_concat, map_singleton, hsequence, h.sequenced, Nat.add_comm]
  ascending := by
    refine pairwise_append.2 ⟨h.ascending, pairwise_singleton _ _, fun x hx y hy => ?_⟩
    rw [mem_singleton.1 hy, hused]
    exact h.counted x hx

theorem Reported.emit {active : StreamDiagnostics} (type : ProgressType) (h : Reported run err)
    (htype : type ≠ .terminal) : Reported (run.emit inv stage branch id effort type n active) err := by
  unfold RunState.emit
  split
  · exact h
  · refine ⟨⟨h.1.snoc rfl rfl, ?_, ?_, ?_⟩, h.2⟩
    · simpa using h.1.sequenced
    · simpa [or_imp, forall_and] using h.1.counted
    · simpa [or_imp, forall_and, htype] using h.1.running

variable (h : Reported run err)
include h

theorem Reported.stream (streamed : List StreamDiagnostics) :
    Reported (streamed.foldl
      (fun run active => run.emit inv stage branch id effort .progress n active) run) err := by
  induction streamed generalizing run with
  | nil => exact h
  | cons active rest ih => exact ih (h.emit _ nofun)

/-- An attempt is recorded, with the responses captured. -/
theorem Reported.attempted (captured : List String) (a : AttemptRecord)
    (x : Action A) :
    let record := captured.foldl CallRecord.captureParseFailureResponse run.record
    Reported ({ run with record := { record with attempts := record.attempts ++ [a] } }.act x)
      err := by
  have hattempts := capture_frame (g := CallRecord.attempts) (fun _ _ => rfl) captured run.record
  have hreason := capture_frame (g := CallRecord.stopReason) (fun _ _ => rfl) captured run.record
  refine ⟨⟨h.1.toSequenced, h.1.sequenced, fun e he => ?_, h.1.running⟩, hreason.symm ▸ h.2⟩
  have hcounted := h.1.counted e he
  rw [← hattempts] at hcounted
  exact hcounted.trans (by simp [RunState.act])

theorem Reported.noteWait (delay : ℤ) (wait : WaitDiagnostics) :
    Reported { run with record := run.record.noteWait delay wait } err := by
  have hlength : (run.record.noteWait delay wait).attempts.length = run.record.attempts.length := by
    rcases eq_nil_or_concat run.record.attempts with hnil | ⟨l, a, hl⟩
    · simp [CallRecord.noteWait, hnil]
    · simp [CallRecord.noteWait, hl]
  exact ⟨hlength.symm ▸ h.1, h.2⟩

/-- **The last event.** -/
theorem Reported.finish (hprogress : inv.call.progress = true) (ended : Branch)
    (elapsed : ℤ) : Protocol (run.finish inv err ended elapsed fun s =>
      s.emit inv stage branch id effort .terminal s.record.attempts.length).events err := by
  have hagrees : run.record.stopReason.getD (stopReasonFor err) = .succeeded ↔ err = none := by
    cases hreason : run.record.stopReason with
    | none => exact stopReasonFor_eq_succeeded
    | some reason => exact h.2 reason hreason
  simp only [RunState.finish, RunState.emit, hprogress, Bool.not_true, Bool.false_eq_true, if_false]
  exact ⟨h.1.snoc rfl rfl, _, _, rfl, rfl, h.1.running, by rw [Option.some_inj, hagrees]⟩

end Events

variable [Amounts A] {o : Opening A} {rounds : ℕ → Round A} {e : Ending A}

theorem reported_opened (err : Option Fault) :
    Reported ⟨inv.timedRecord o.started, newProviderAccumulator, 0, [], []⟩ err := by
  have hreason : (inv.timedRecord o.started).stopReason = none := by
    unfold Invocation.timedRecord
    split <;> rfl
  refine ⟨⟨⟨rfl, .nil⟩, rfl, by simp, by simp⟩, ?_⟩
  simp [hreason]

/-- A turn leaves a run so far, whatever it then returns, or stops. -/
def Turns {σ ρ : Type} (next : σ → RunState A) (stop : ρ → Prop) : Turn σ ρ → Prop
  | .next s => ∀ err, Reported (next s) err
  | .stop r => stop r

/-! ## The simple loop -/

namespace Simple

variable {s : State A} {r : Round A}

theorem body_reported {turn : Turn (State A) (RunState A × Option Fault)}
    (hturn : body inv s r = turn) (h : ∀ err, Reported s.run err) :
    Turns State.run (fun r => Reported r.1 r.2) turn := by
  have htried (err : Option Fault) : Reported (tried inv s r).run err := by
    have hattempt : Reported (attempt inv s r).1 err := (h err).stream r.streamed
    exact Reported.emit .progress (hattempt.attempted ..) nofun
  rw [← hturn]
  unfold body
  dsimp only
  split
  · exact h _
  split
  · unfold admitted
    dsimp only
    split <;> exact htried none
  split
  · exact htried _
  split
  · exact htried _
  split
  · exact (htried _).noteWait ..
  · exact fun err => (htried err).noteWait ..

theorem start_reported {turn : Turn (State A) (RunState A × Option Fault)}
    (hturn : start inv o = turn) : Turns State.run (fun r => Reported r.1 r.2) turn := by
  have hstarted (err : Option Fault) : Reported (emit inv
      ⟨inv.timedRecord o.started, newProviderAccumulator, 0, [], []⟩ .started 0) err :=
    (reported_opened err).emit _ nofun
  rw [← hturn]
  unfold start
  dsimp only
  split
  · exact hstarted _
  split
  · exact hstarted _
  split
  · exact hstarted
  split
  · exact hstarted _
  split
  · exact hstarted _
  split
  · exact hstarted
  split
  · exact hstarted _
  · exact hstarted
  split <;> exact hstarted _

theorem run_protocol (hprogress : inv.call.progress = true) (h : run inv o rounds = some e) :
    Protocol e.events e.err := by
  unfold run at h
  split at h <;> rename_i hstart
  · cases h
    exact Reported.finish (start_reported hstart) hprogress ..
  · obtain ⟨r, hr, rfl⟩ := Option.map_eq_some_iff.1 h
    refine Reported.finish (Loop.run_rule (I := fun _ (s : State A) => ∀ err, Reported s.run err)
      (Q := fun r => Reported r.1 r.2) ?_ ?_ (start_reported hstart) hr) hprogress ..
    · exact fun n s s' hs hnext => body_reported hnext hs
    · exact fun n s r hs hstop => body_reported hstop hs

end Simple

/-! ## The recovery plan -/

namespace Planned

variable {s : State A} {r : Round A} {run : RunState A} {err : Option Fault}
  {work next : PlannedWork A}
  {opened : Turn (RunState A × PlannedWork A) (Stop A)} {turn : Turn (State A) (Stop A)}

/-- The run stops in a stage. -/
def Stop.Reported (stop : Stop A) : Prop :=
  Runtime.Reported stop.run stop.err ∧ ∃ work, stop.work = some work

omit [Amounts A] in
theorem reported_stopped (h : ∀ err, Reported run err) {reason : StopReason}
    (hreason : reason = .succeeded ↔ err = none) : Reported (stopped run reason) err :=
  ⟨(h err).1, fun _ h => Option.some.inj h ▸ hreason⟩

theorem readCache_reported {cached : Except Fault (Option (CachedResult A))}
    {turn : Turn (RunState A) (RunState A × Option Fault)}
    (hturn : readCache inv run work cached = turn) (h : ∀ err, Reported run err) :
    Turns id (fun r => Reported r.1 r.2) turn := by
  rw [← hturn]
  unfold readCache
  dsimp only
  split
  · exact h
  split
  · exact h _
  · exact h
  split
  · exact h _
  · exact reported_stopped h (by simp)

theorem openOriginal_reported (hturn : openOriginal inv run work o = opened)
    (h : ∀ err, Reported run err) : Turns Prod.fst Stop.Reported opened := by
  rw [← hturn]
  unfold openOriginal
  split
  · exact fun err => (h err).emit _ nofun
  split
  · exact ⟨h _, _, rfl⟩
  dsimp only [keyed]
  split <;> rename_i hr
  · exact ⟨readCache_reported hr fun err => Reported.emit .started (h err) nofun, _, rfl⟩
  · exact readCache_reported hr fun err => Reported.emit .started (h err) nofun

theorem openRerun_reported (hturn : openRerun inv run work next r = opened)
    (h : ∀ err, Reported run err) : Turns Prod.fst Stop.Reported opened := by
  rw [← hturn]
  unfold openRerun
  dsimp only
  split
  · exact h
  split
  · exact ⟨h _, _, rfl⟩
  dsimp only [keyed]
  split <;> rename_i hr
  · exact ⟨readCache_reported hr h, _, rfl⟩
  · exact readCache_reported hr h

theorem advance_reported (h : ∀ err, Reported run err) (v : Verdict) (f : Fault) :
    Turns State.run Stop.Reported (advance inv s run v f r) := by
  unfold advance
  dsimp only
  split
  · exact ⟨reported_stopped h (by simp), _, rfl⟩
  split
  · exact ⟨reported_stopped h (by simp), _, rfl⟩
  split
  · exact ⟨reported_stopped h (by simp), _, rfl⟩
  split_ifs
  · split <;> rename_i hr <;> exact openRerun_reported hr h
  · exact h

omit [Amounts A] in
theorem retry_reported (h : ∀ err, Reported run err) (f : Fault) (c : Classification) :
    Turns State.run Stop.Reported (retry inv s run f c r) := by
  unfold retry
  dsimp only
  split
  · exact ⟨reported_stopped h (by simp), _, rfl⟩
  split
  · exact ⟨reported_stopped h (by simp), _, rfl⟩
  split
  · exact ⟨reported_stopped (fun err => (h err).noteWait ..) stopReasonFor_eq_succeeded, _, rfl⟩
  · exact fun err => (h err).noteWait ..

theorem body_reported (hturn : body inv s r = turn) (h : ∀ err, Reported s.run err) :
    Turns State.run Stop.Reported turn := by
  have hentered (err : Option Fault) : Reported (emit inv s.run s.work .progress s.attempt) err :=
    (h err).emit _ nofun
  have htried (err : Option Fault) : Reported (tried inv s r).run err := by
    have hattempt : Reported (attempt inv
        { s with run := emit inv s.run s.work .progress s.attempt } r).1 err :=
      (hentered err).stream r.streamed
    exact Reported.emit .progress (hattempt.attempted ..) nofun
  rw [← hturn]
  unfold body
  dsimp only
  split
  · exact ⟨reported_stopped hentered stopReasonFor_eq_succeeded, _, rfl⟩
  split
  · exact ⟨reported_stopped hentered (by simp), _, rfl⟩
  split
  · refine ⟨?_, _, rfl⟩
    unfold admitted
    dsimp only
    split
    · exact reported_stopped htried (by simp)
    split
    · exact htried none
    · exact reported_stopped htried (by simp)
  split
  · exact ⟨reported_stopped htried stopReasonFor_eq_succeeded, _, rfl⟩
  split
  · exact advance_reported htried ..
  split
  · exact ⟨reported_stopped htried stopReasonFor_eq_succeeded, _, rfl⟩
  · exact retry_reported htried ..

theorem start_reported {p : PreparedOperation} (hturn : start inv o = turn)
    (hprepared : o.prepared = .ok p) : Turns State.run Stop.Reported turn := by
  rw [← hturn]
  unfold start
  dsimp only
  split
  · rename_i hwork
    rw [hprepared] at hwork
    cases hwork
  split <;> rename_i hr
  · exact openOriginal_reported hr reported_opened
  have hopened := openOriginal_reported hr reported_opened
  split
  · exact ⟨reported_stopped hopened (by simp), _, rfl⟩
  · exact hopened

/-- **The plan comes to have a stage.** -/
structure Begins (inv : Invocation A) (o : Opening A) : Prop where
  structured : inv.call.callType = .structured
  identified : inv.connection.id ≠ ""
  alive : executionContextError inv.deadline o.entry = none
  cache : ¬ (inv.cacheMode ≠ .off ∧ inv.hasCache = false)
  prepared : ∃ p, o.prepared = .ok p

omit [Amounts A] in
theorem close_protocol (hprogress : inv.call.progress = true) {stop : Stop A} (h : stop.Reported) :
    Protocol (close inv o stop).events (close inv o stop).err := by
  obtain ⟨hreported, work, hwork⟩ := h
  unfold close
  rw [hwork]
  exact hreported.finish hprogress ..

theorem protocol_iff_begins (hprogress : inv.call.progress = true)
    (h : executeRecoveryPlan inv o rounds = some e) : Protocol e.events e.err ↔ Begins inv o := by
  unfold executeRecoveryPlan at h
  dsimp only at h
  split at h
  · cases h
    exact iff_of_false not_protocol_nil fun hb => absurd hb.structured ‹_›
  split at h
  · cases h
    exact iff_of_false not_protocol_nil fun hb => absurd ‹_› hb.identified
  split at h
  · cases h
    exact iff_of_false not_protocol_nil fun hb => by simp_all [hb.alive]
  split at h
  · cases h
    exact iff_of_false not_protocol_nil fun hb => absurd ‹_› hb.cache
  rename_i hstructured hid _ halive hcache
  cases hprepared : o.prepared with
  | error f =>
    -- Without a stage there is nothing to report about.
    simp only [start, preparePlannedWork, leafBinding, hprepared, Except.map] at h
    cases h
    refine iff_of_false not_protocol_nil fun hb => ?_
    obtain ⟨p, hp⟩ := hb.prepared
    simp [hprepared] at hp
  | ok p =>
    refine iff_of_true ?_ ⟨not_not.1 hstructured, hid, halive, hcache, p, hprepared⟩
    split at h <;> rename_i hstart
    · cases h
      exact close_protocol hprogress (start_reported hstart hprepared)
    · obtain ⟨stop, hstop, rfl⟩ := Option.map_eq_some_iff.1 h
      refine close_protocol hprogress (Loop.run_rule (I := fun _ (s : State A) =>
        ∀ err, Reported s.run err) ?_ ?_ (start_reported hstart hprepared) hstop)
      · exact fun n s s' hs hnext => body_reported hnext hs
      · exact fun n s r hs hstop => body_reported hstop hs

end Planned

/-- The call is not refused, and its plan, if it has one, comes to have a
stage. -/
structure Begins (inv : Invocation A) (o : Opening A) : Prop where
  valid : inv.policy.validate = none
  identified : inv.connection.id ≠ ""
  validator : ¬ (inv.call.callType = .structured ∧ inv.call.validateStructured.isNone)
  planned : inv.call.callType = .structured ∧ inv.policy.usesExplicitPlan → Planned.Begins inv o

namespace Sample

/-- The call of the plan, with a callback. -/
def reporting : Invocation ℤ := { searching with call := { call with progress := true } }

end Sample

open Sample

end HardenLlm.Runtime
