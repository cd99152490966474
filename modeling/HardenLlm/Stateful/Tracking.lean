import HardenLlm.Stateful.Drafts
import HardenLlm.Stateful.Model.Tracking
/-!
# The session of a tracked call

Eight operations of three sources update one record. Whatever the order
and whatever the clocks say, every record the session can be read at is
admitted by the table, revisions and times go one way, a finished record
stays as it is, the end of an old wait does nothing, and a call is reported
as cancelled only if it never reached a provider.
-/

namespace HardenLlm.Stateful

open HardenLlm.Gateway HardenLlm.Gateway.TrackingSession List Option

variable {r r₀ r' r'' : TrackingRecord} {s s' : TrackingSession} {now : ℤ}

/-! ## Records -/

/-- The status says which of the other fields there are. -/
def Shape (r : TrackingRecord) : Prop :=
  match r.status with
  | .running =>
    r.finishedAt = none ∧ r.outcomeConfirmed = none ∧ r.reason = none ∧ r.nextAttemptAt = none
  | .waiting =>
    r.finishedAt = none ∧ r.outcomeConfirmed = none
      ∧ (r.stage = some .retryWait ∧ (∃ reason ∈ retryReasons, r.reason = some reason)
          ∧ r.nextAttemptAt ≠ none
        ∨ r.stage = some .admissionWait ∧ ∃ reason ∈ admissionReasons, r.reason = some reason)
  | .completed | .failed | .cancelled =>
    r.finishedAt ≠ none ∧ r.outcomeConfirmed = some true ∧ r.reason = none ∧ r.nextAttemptAt = none
  | .unconfirmed =>
    r.finishedAt ≠ none ∧ r.outcomeConfirmed = some false ∧ r.reason = none ∧ r.nextAttemptAt = none

/-- The times a record has, and its counters. -/
structure Timely (r : TrackingRecord) : Prop where
  heartbeat : r.createdAt ≤ r.lastWorkerHeartbeatAt
  updated : r.lastWorkerHeartbeatAt ≤ r.updatedAt
  progress : ∀ t, r.lastProgressAt = some t → r.createdAt ≤ t ∧ t ≤ r.updatedAt
  finished : ∀ t, r.finishedAt = some t → r.createdAt ≤ t
  attempts : 0 ≤ r.attemptsUsed
  revision : 0 < r.revision

/-- What never changes of a record. -/
structure SameRequest (r r' : TrackingRecord) : Prop where
  id : r'.id = r.id
  endpoint : r'.endpoint = r.endpoint
  ownerID : r'.ownerID = r.ownerID
  createdAt : r'.createdAt = r.createdAt
  deadlineAt : r'.deadlineAt = r.deadlineAt
  retentionExpiresAt : r'.retentionExpiresAt = r.retentionExpiresAt

theorem SameRequest.refl (r : TrackingRecord) : SameRequest r r :=
  ⟨rfl, rfl, rfl, rfl, rfl, rfl⟩

theorem SameRequest.symm (h : SameRequest r r') : SameRequest r' r :=
  ⟨h.1.symm, h.2.symm, h.3.symm, h.4.symm, h.5.symm, h.6.symm⟩

theorem SameRequest.trans (h : SameRequest r r') (h' : SameRequest r' r'') : SameRequest r r'' :=
  ⟨h'.1.trans h.1, h'.2.trans h.2, h'.3.trans h.3, h'.4.trans h.4, h'.5.trans h.5, h'.6.trans h.6⟩

/-- **What one operation may do to a record.** -/
structure Advances (r r' : TrackingRecord) : Prop where
  revision : r' = r ∨ r.revision < r'.revision
  updated : r.updatedAt ≤ r'.updatedAt
  heartbeat : r.lastWorkerHeartbeatAt ≤ r'.lastWorkerHeartbeatAt
  progress : ∀ t, r.lastProgressAt = some t → ∃ t', r'.lastProgressAt = some t' ∧ t ≤ t'
  attempts : r.attemptsUsed ≤ r'.attemptsUsed
  finished : r.finishedAt ≠ none → r' = r

theorem Advances.refl (r : TrackingRecord) : Advances r r :=
  ⟨.inl rfl, le_rfl, le_rfl, fun t ht => ⟨t, ht, le_rfl⟩, le_rfl, fun _ => rfl⟩

theorem le_trackingTime (now previous : ℤ) : previous ≤ trackingTime now previous := by
  unfold trackingTime
  split <;> omega

/-! ### One change -/

/-- A record with other contents and the same times. -/
structure Rewrites (r r₀ : TrackingRecord) : Prop extends SameRequest r r₀ where
  updatedAt : r₀.updatedAt = r.updatedAt
  heartbeat : r₀.lastWorkerHeartbeatAt = r.lastWorkerHeartbeatAt
  progress : r₀.lastProgressAt = r.lastProgressAt
  finished : r₀.finishedAt = none
  revision : r₀.revision = r.revision
  attempts : r.attemptsUsed ≤ r₀.attemptsUsed

/-- The record after a change. -/
def touched (r : TrackingRecord) (now : ℤ) : TrackingRecord :=
  { r with
    updatedAt := trackingTime now r.updatedAt
    lastProgressAt := some (trackingTime now r.updatedAt)
    revision := r.revision + 1 }

theorem changed_record : (s.changed now).record = touched s.record now := rfl

theorem timely_touched (h : Timely r) (hw : Rewrites r r₀) : Timely (touched r₀ now) := by
  have hle := le_trackingTime now r₀.updatedAt
  obtain ⟨h1, h2, h3, h4, h5, h6⟩ := h
  obtain ⟨⟨-, -, -, hc, -, -⟩, hu, hh, hp, hf, hr, ha⟩ := hw
  constructor <;> simp only [touched]
  · omega
  · omega
  · intro t ht
    cases ht
    omega
  · intro t ht
    rw [hf] at ht
    cases ht
  · omega
  · omega

theorem advances_touched (h : Timely r) (hopen : r.finishedAt = none) (hw : Rewrites r r₀) :
    Advances r (touched r₀ now) := by
  have hle := le_trackingTime now r₀.updatedAt
  obtain ⟨-, hu, hh, hp, -, hr, ha⟩ := hw
  constructor <;> simp only [touched]
  · exact .inr (by omega)
  · omega
  · omega
  · intro t ht
    exact ⟨_, rfl, by have := (h.progress t ht).2; omega⟩
  · exact ha
  · exact fun hfin => absurd hopen hfin

/-- **A record and what an operation made of it.** -/
structure Steps (r r' : TrackingRecord) : Prop where
  same : SameRequest r r'
  advances : Advances r r'
  timely : Timely r'
  shape : Shape r'

theorem steps_refl (h : Timely r) (hs : Shape r) : Steps r r := ⟨.refl r, .refl r, h, hs⟩

theorem steps_touched (h : Timely r) (hopen : r.finishedAt = none) (hw : Rewrites r r₀)
    (hs : Shape r₀) : Steps r (touched r₀ now) :=
  ⟨hw.toSameRequest.trans ⟨rfl, rfl, rfl, rfl, rfl, rfl⟩, advances_touched h hopen hw,
    timely_touched h hw, hs⟩

/-- An open record is running or waiting, and has no outcome. -/
theorem Shape.open_cases (hs : Shape r) (hopen : r.finishedAt = none) :
    r.outcomeConfirmed = none ∧ (r.status = .running ∨ r.status = .waiting) := by
  unfold Shape at hs
  cases hstatus : r.status <;> rw [hstatus] at hs
  · exact ⟨hs.2.1, .inl rfl⟩
  · exact ⟨hs.2.1, .inr rfl⟩
  all_goals exact absurd hopen hs.1

/-! ## Operations

A record has a shape and its times are in order; each operation keeps
that and advances the record. -/

theorem open_of_not_isSome (h : ¬ r.finishedAt.isSome = true) : r.finishedAt = none := by
  rw [Bool.not_eq_true, isSome_eq_false_iff, isNone_iff_eq_none] at h
  exact h

/-- **A session goes on**: the epoch never goes back, and while it stands
still so do status and stage. -/
structure GoesOn (s s' : TrackingSession) : Prop where
  epoch : s.epoch ≤ s'.epoch
  still : s'.epoch = s.epoch → s'.record.status = s.record.status ∧ s'.record.stage = s.record.stage
  finished : s.record.finishedAt ≠ none → s' = s

theorem GoesOn.refl (s : TrackingSession) : GoesOn s s := ⟨le_rfl, fun _ => ⟨rfl, rfl⟩, fun _ => rfl⟩

/-- A new epoch of an open session. -/
theorem GoesOn.of_succ (hopen : s.record.finishedAt = none) (h : s'.epoch = s.epoch + 1) :
    GoesOn s s' :=
  ⟨by omega, fun hsame => by omega, fun hfinished => absurd hopen hfinished⟩

/-- A change within the epoch of an open session. -/
theorem GoesOn.of_same (hopen : s.record.finishedAt = none) (h : s'.epoch = s.epoch)
    (hstatus : s'.record.status = s.record.status) (hstage : s'.record.stage = s.record.stage) :
    GoesOn s s' :=
  ⟨h.ge, fun _ => ⟨hstatus, hstage⟩, fun hfinished => absurd hopen hfinished⟩

/-- **What a session hears** does not finish it, and it forgets no
entry. -/
structure Heard (s s' : TrackingSession) : Prop extends GoesOn s s' where
  status : s'.record.status = s.record.status ∨ s'.record.status = .running
    ∨ s'.record.status = .waiting
  entered : s.providerEntered = true → s'.providerEntered = true

theorem Heard.refl (s : TrackingSession) : Heard s s := ⟨.refl s, .inl rfl, id⟩

/-- What it hears keeps its record in order, too. -/
structure Follows (s s' : TrackingSession) : Prop extends Heard s s' where
  steps : Timely s.record → Shape s.record → Steps s.record s'.record

theorem Follows.refl (s : TrackingSession) : Follows s s := ⟨.refl s, steps_refl⟩

/-- Another status of an open record. -/
theorem steps_status {status : TrackingStatus} {stage : Option TrackingStage}
    {reason : Option WaitReason} {next : Option ℤ} (hopen : r.finishedAt = none) (h : Timely r)
    (hs : Shape { r with status := status, stage := stage, reason := reason, nextAttemptAt := next }) :
    Steps r (touched { r with
      status := status, stage := stage, reason := reason, nextAttemptAt := next } now) :=
  steps_touched h hopen ⟨⟨rfl, rfl, rfl, rfl, rfl, rfl⟩, rfl, rfl, rfl, hopen, rfl, le_rfl⟩ hs

/-- More attempts than before, in an open record. -/
theorem steps_attempts {n : ℤ} (hopen : r.finishedAt = none) (hn : r.attemptsUsed ≤ n) (h : Timely r)
    (hs : Shape r) : Steps r (touched { r with attemptsUsed := n } now) :=
  steps_touched h hopen ⟨⟨rfl, rfl, rfl, rfl, rfl, rfl⟩, rfl, rfl, rfl, hopen, rfl, hn⟩ hs

theorem follows_phase (stage : TrackingStage) (now : ℤ) : Follows s (s.phase stage now) := by
  unfold phase
  split
  · exact .refl s
  rename_i hfinished
  have hopen := open_of_not_isSome hfinished
  have hentered (h : s.providerEntered = true) :
      (s.providerEntered || stage = .providerAttempt) = true := by rw [h, Bool.true_or]
  split
  · exact .refl s
  dsimp only
  split
  · exact ⟨⟨.of_succ hopen rfl, .inl rfl, hentered⟩, steps_refl⟩
  · exact ⟨⟨.of_succ hopen rfl, .inr (.inl rfl), hentered⟩, fun ht hs =>
      steps_status hopen ht ⟨hopen, (hs.open_cases hopen).1, rfl, rfl⟩⟩

theorem follows_attempt (n now : ℤ) : Follows s (s.attempt n now) := by
  unfold attempt
  split
  · rename_i h
    have hopen := isNone_iff_eq_none.1 h.1
    exact ⟨⟨.of_same hopen rfl rfl rfl, .inl rfl, id⟩, steps_attempts hopen h.2.le⟩
  · exact .refl s

variable {reason : WaitReason} {o : Outcome}

/-- A wait with one of the pool's reasons. -/
theorem admissionWait_eq (next : Option ℤ) (now : ℤ) (h : reason ∈ admissionReasons) :
    s.admissionWait reason next now
      = if s.record.finishedAt.isSome then s
        else if s.record.status = .waiting ∧ s.record.stage = some .admissionWait
            ∧ s.record.reason = some reason ∧ s.record.nextAttemptAt = next then s
        else
          changed { s with
            epoch := s.epoch + 1
            record := { s.record with
              status := .waiting, stage := some .admissionWait, reason := some reason
              nextAttemptAt := next } } now := by
  cases reason <;> first
    | rfl
    | simp [admissionReasons] at h

theorem admissionWait_other (next : Option ℤ) (now : ℤ)
    (h : reason ∉ admissionReasons) : s.admissionWait reason next now = s := by
  cases reason <;> first
    | rfl
    | simp [admissionReasons] at h

theorem follows_admissionWait (reason : WaitReason) (next : Option ℤ) (now : ℤ) :
    Follows s (s.admissionWait reason next now) := by
  by_cases hreason : reason ∈ admissionReasons
  · rw [admissionWait_eq next now hreason]
    split
    · exact .refl s
    rename_i hfinished
    have hopen := open_of_not_isSome hfinished
    split
    · exact .refl s
    exact ⟨⟨.of_succ hopen rfl, .inr (.inr rfl), id⟩, fun ht hs =>
      steps_status hopen ht ⟨hopen, (hs.open_cases hopen).1, .inr ⟨rfl, reason, hreason, rfl⟩⟩⟩
  · rw [admissionWait_other next now hreason]
    exact .refl s

theorem follows_wait (hreason : reason ∈ retryReasons) (delay planned now : ℤ) :
    Follows s (s.wait reason delay planned now) := by
  unfold wait
  split
  · exact .refl s
  rename_i hfinished
  have hopen := open_of_not_isSome hfinished
  exact ⟨⟨.of_succ hopen rfl, .inr (.inr rfl), id⟩, fun ht hs => steps_status hopen ht
    ⟨hopen, (hs.open_cases hopen).1, .inl ⟨rfl, ⟨reason, hreason, rfl⟩, some_ne_none _⟩⟩⟩

theorem follows_resume (epoch : ℕ) (now : ℤ) : Follows s (s.resume epoch now) := by
  unfold resume
  split
  · exact .refl s
  rename_i h
  have hopen := open_of_not_isSome fun hfinished => h (.inl hfinished)
  exact ⟨⟨.of_succ hopen rfl, .inr (.inl rfl), id⟩, fun ht hs =>
    steps_status hopen ht ⟨hopen, (hs.open_cases hopen).1, rfl, rfl⟩⟩

theorem follows_progress (p : Runtime.ProgressEvent) (now : ℤ) : Follows s (s.progress p now) := by
  unfold progress
  split
  · exact .refl s
  rename_i h
  have hopen := open_of_not_isSome fun hfinished => h (.inl hfinished)
  dsimp only
  split
  · exact ⟨⟨.of_same hopen rfl rfl rfl, .inl rfl, id⟩, steps_attempts hopen (le_max_left _ _)⟩
  · rename_i hmoved
    -- Nothing moved, so the attempts are as they were.
    have hsame : max s.record.attemptsUsed p.attemptsUsed = s.record.attemptsUsed := by
      simp only [Bool.or_eq_true, decide_eq_true_eq, not_or, not_lt] at hmoved
      exact max_eq_left hmoved.1.1
    simp only [hsame]
    exact ⟨⟨.of_same hopen rfl rfl rfl, .inl rfl, id⟩, steps_refl⟩

theorem follows_snapshot (heartbeat : Bool) (now : ℤ) : Follows s (s.snapshot heartbeat now) := by
  unfold TrackingSession.snapshot
  split
  · rename_i h
    have hopen := isNone_iff_eq_none.1 h.2
    have hle := le_trackingTime now s.record.updatedAt
    refine ⟨⟨.of_same hopen rfl rfl rfl, .inl rfl, id⟩, fun ht hs => ?_⟩
    obtain ⟨h1, h2, h3, h4, h5, h6⟩ := ht
    refine ⟨⟨rfl, rfl, rfl, rfl, rfl, rfl⟩, ⟨?_, hle, ?_, ?_, le_rfl, ?_⟩, ⟨?_, le_rfl, ?_, h4, h5, ?_⟩, hs⟩
    · exact .inr (Int.lt_succ _)
    · exact h2.trans hle
    · exact fun t hp => ⟨t, hp, le_rfl⟩
    · exact fun hfinished => absurd hopen hfinished
    · exact (h1.trans h2).trans hle
    · exact fun t hp => ⟨(h3 t hp).1, (h3 t hp).2.trans hle⟩
    · change 0 < s.record.revision + 1
      omega
  · exact .refl s

/-- **Whatever a session hears.** -/
theorem follows_hear (s : TrackingSession) {e : SessionEvent}
    (he : ∀ reason delay planned now, e = .wait reason delay planned now → reason ∈ retryReasons) :
    Follows s (s.hear e) := by
  cases e with
  | phase stage now => exact follows_phase stage now
  | attempt n now => exact follows_attempt n now
  | admissionWait reason next now => exact follows_admissionWait reason next now
  | wait reason delay planned now => exact follows_wait (he _ _ _ _ rfl) delay planned now
  | resume epoch now => exact follows_resume epoch now
  | progress p now => exact follows_progress p now
  | snapshot heartbeat now => exact follows_snapshot heartbeat now

/-- The outcomes a call is finished with. -/
def Outcome.Proper (o : Outcome) : Prop :=
  (o.confirmed = true ∧ (o.status = .completed ∨ o.status = .failed ∨ o.status = .cancelled))
    ∨ (o.confirmed = false ∧ o.status = .unconfirmed)

theorem steps_finish (ht : Timely s.record) (hs : Shape s.record) (ho : o.Proper) (now : ℤ) :
    Steps s.record (s.finish o.status o.code o.confirmed now).record := by
  unfold finish
  split
  · exact steps_refl ht hs
  rename_i hfinished
  have hopen := open_of_not_isSome hfinished
  split
  · exact steps_refl ht hs
  dsimp only
  rw [changed_record]
  have hle := le_trackingTime now s.record.updatedAt
  obtain ⟨h1, h2, h3, h4, h5, h6⟩ := ht
  simp only [touched]
  refine ⟨⟨rfl, rfl, rfl, rfl, rfl, rfl⟩, ⟨?_, hle, h2.trans hle, ?_, le_rfl, ?_⟩,
    ⟨?_, le_rfl, ?_, ?_, h5, ?_⟩, ?_⟩
  · exact .inr (Int.lt_succ _)
  · exact fun t hp => ⟨_, rfl, (h3 t hp).2.trans hle⟩
  · exact fun hne => absurd hopen hne
  · exact (h1.trans h2).trans hle
  · intro t hp
    cases hp
    exact ⟨(h1.trans h2).trans hle, le_rfl⟩
  · intro t hp
    cases hp
    exact (h1.trans h2).trans hle
  · change 0 < s.record.revision + 1
    omega
  · unfold Shape
    rcases ho with ⟨hc, hst | hst | hst⟩ | ⟨hc, hst⟩ <;> rw [hst, hc] <;> simp

/-! ## Whole runs -/

variable {x x' : Tracked} {e : TrackedEvent} {o : Outcome} {record : TrackingRecord}

theorem proper_failureOutcome (entered : Bool) (err : Runtime.Fault) :
    (failureOutcome entered err).Proper := by
  unfold failureOutcome Outcome.Proper
  dsimp only
  split
  · split <;> simp
  · split <;> simp

theorem observed_of_allows {e : SessionEvent} (h : x.Allows (.hear e)) :
    ∀ reason delay planned now, e = .wait reason delay planned now → reason ∈ retryReasons := by
  rintro reason delay planned now rfl
  exact h

/-- Whatever the handler is about to finish with is proper. -/
def Prepared (x : Tracked) : Prop := ∀ o, x.pending = some o → o.Proper

/-- **One event** keeps the record in order and advances it. -/
theorem steps_next (ht : Timely x.session.record) (hs : Shape x.session.record) (hp : Prepared x)
    (h : x.Allows e) : Steps x.session.record (x.next e).session.record := by
  cases e with
  | hear => exact (follows_hear _ (observed_of_allows h)).steps ht hs
  | failing => exact steps_refl ht hs
  | failed now =>
    unfold Tracked.next
    cases hpending : x.pending with
    | none => exact steps_refl ht hs
    | some o => exact steps_finish ht hs (hp o hpending) now
  | projectionFailed now =>
    exact steps_finish ht hs
      (show Outcome.Proper ⟨.failed, some .responseProjectionError, true⟩ from
        .inl ⟨rfl, .inr (.inl rfl)⟩) now
  | completed now =>
    exact steps_finish ht hs
      (show Outcome.Proper ⟨.completed, none, true⟩ from .inl ⟨rfl, .inl rfl⟩) now
  | closed now =>
    exact steps_finish ht hs
      (show Outcome.Proper ⟨.unconfirmed, some .executionUnobserved, false⟩ from
        .inr ⟨rfl, rfl⟩) now

theorem prepared_next (hp : Prepared x) : Prepared (x.next e) := by
  cases e with
  | failing err =>
    intro o ho
    cases ho
    exact proper_failureOutcome _ err
  | failed now =>
    have hsame : (x.next (.failed now)).pending = x.pending := by
      simp only [Tracked.next]
      split <;> rfl
    intro o ho
    exact hp o (hsame ▸ ho)
  | _ => exact hp

/-- The record of a call is in order, and is of the request that was
registered. -/
structure InOrder (record : TrackingRecord) (x : Tracked) : Prop where
  timely : Timely x.session.record
  shape : Shape x.session.record
  prepared : Prepared x
  same : SameRequest record x.session.record

theorem inOrder_next (h : InOrder record x) (ha : x.Allows e) : InOrder record (x.next e) := by
  have hsteps := steps_next h.timely h.shape h.prepared ha
  exact ⟨hsteps.timely, hsteps.shape, prepared_next h.prepared, h.same.trans hsteps.same⟩

theorem inOrder_of_reach (ht : Timely record) (hs : Shape record) (h : (tracked record).Reach x) :
    InOrder record x := by
  refine h.invariant ?_ ?_
  · rintro _ rfl
    exact ⟨ht, hs, (fun o ho => by cases ho), .refl record⟩
  · rintro x₁ x₂ - ih ⟨e, ha, rfl⟩
    exact inOrder_next ih ha

/-! ## The constraints -/

theorem toMicroseconds_mono {a b : ℤ} (h : a ≤ b) : toMicroseconds a ≤ toMicroseconds b := by
  unfold toMicroseconds
  omega

theorem toMicroseconds_day (a : ℤ) :
    toMicroseconds (a + 24 * 3600 * Batch.second) = toMicroseconds a + 24 * 3600 * Batch.second := by
  unfold toMicroseconds Batch.second
  omega

theorem shape_stored : Shape (storedTracking r) ↔ Shape r := by
  unfold Shape storedTracking
  dsimp only
  cases r.status <;> simp

/-- The reasons of both waits are the table's. -/
theorem reason_of_shape (hs : Shape r) :
    r.reason.map (fun reason => decide (reason ∈ WaitReason.retryBackoff
      :: .other "execution_unobserved" :: admissionReasons)) ≠ some false := by
  have hretry : ∀ reason ∈ retryReasons, reason ∈ WaitReason.retryBackoff
      :: .other "execution_unobserved" :: admissionReasons := by
    decide
  unfold Shape at hs
  cases hstatus : r.status <;> rw [hstatus] at hs
  case waiting =>
    obtain ⟨-, -, ⟨-, ⟨reason, hmem, hreason⟩, -⟩ | ⟨-, reason, hmem, hreason⟩⟩ := hs
    · simp only [hreason, map_some, hretry reason hmem]
      decide
    · simp only [hreason, map_some, mem_cons_of_mem _ (mem_cons_of_mem _ hmem)]
      decide
  all_goals simp [hs.2.2.1]

theorem waiting_of_shape (hs : Shape r) : waitingConstraint r = some true := by
  unfold Shape at hs
  unfold waitingConstraint
  cases hstatus : r.status <;> rw [hstatus] at hs
  case waiting =>
    obtain ⟨-, -, ⟨hstage, ⟨reason, hmem, hreason⟩, hnext⟩ | ⟨hstage, reason, hmem, hreason⟩⟩ := hs
    · simp [hstage, hreason, hmem, isSome_iff_ne_none.2 hnext, conj, disj]
    · simp [hstage, hreason, hmem, conj, disj]
  all_goals simp [hs.2.2.1, hs.2.2.2, conj, disj]

theorem confirmed_of_shape (hs : Shape r) : confirmedConstraint r = some true := by
  unfold Shape at hs
  unfold confirmedConstraint
  cases hstatus : r.status <;> rw [hstatus] at hs <;> simp [hs.2.1, conj, disj]

theorem finished_of_shape (hs : Shape r) : finishedConstraint r = some true := by
  unfold Shape at hs
  unfold finishedConstraint
  cases hstatus : r.status <;> rw [hstatus] at hs
  case running | waiting => simp [hs.1, hs.2.1]
  all_goals simp [isSome_iff_ne_none.2 hs.1, hs.2.1]

/-- **A record in order is admitted**, if it was when it was registered. -/
theorem checks_of_inOrder {hash : String} (ht : Timely r) (hs : Shape r)
    (hhash : validKeyHash hash = true) (hid : r.id ≠ nilUUID) (howner : r.ownerID ≠ nilUUID)
    (hdeadline : toMicroseconds r.createdAt < toMicroseconds r.deadlineAt)
    (hretention : r.retentionExpiresAt = r.deadlineAt + 24 * 3600 * Batch.second) :
    TrackingRow.checks ⟨hash, r⟩ = true := by
  have hshape := shape_stored.2 hs
  have hday : toMicroseconds r.retentionExpiresAt
      = toMicroseconds r.deadlineAt + 24 * 3600 * Batch.second := by
    rw [hretention, toMicroseconds_day]
  have hbeat := toMicroseconds_mono ht.heartbeat
  have hupdated := hbeat.trans (toMicroseconds_mono ht.updated)
  have hprogress : (r.lastProgressAt.map toMicroseconds).map
      (fun t => decide (toMicroseconds r.createdAt ≤ t)) ≠ some false := by
    cases hp : r.lastProgressAt with
    | none => simp
    | some t => simpa using toMicroseconds_mono (ht.progress t hp).1
  have hfinished : (r.finishedAt.map toMicroseconds).map
      (fun t => decide (toMicroseconds r.createdAt ≤ t)) ≠ some false := by
    cases hf : r.finishedAt with
    | none => simp
    | some t => simpa using toMicroseconds_mono (ht.finished t hf)
  have hreason := reason_of_shape hshape
  unfold TrackingRow.checks TrackingRow.constraints
  dsimp only
  rw [finished_of_shape hshape, waiting_of_shape hshape, confirmed_of_shape hshape]
  simp only [storedTracking] at hreason ⊢
  simp only [all_cons, all_nil, Bool.and_true, Bool.and_eq_true, decide_eq_true_eq]
  refine ⟨?_, ?_, ?_, hreason, ?_, ?_, ?_, ?_, hprogress, hfinished, ?_, ?_, ?_⟩
  · simp [hhash]
  · simp [hid]
  · simp [howner]
  · simp [hdeadline]
  · simp [hday]
  · simp [hupdated]
  · simp [hbeat]
  · simp [ht.attempts]
  · simp [ht.revision]
  · simp

theorem deadline_of_checks {hash : String} (h : TrackingRow.checks ⟨hash, r⟩ = true) :
    toMicroseconds r.createdAt < toMicroseconds r.deadlineAt := by
  have hall := all_eq_true.1 h
  have hmem := hall (some (toMicroseconds r.createdAt < toMicroseconds r.deadlineAt))
    (mem_of_getElem? (i := 4) rfl)
  simpa using hmem

/-! ## Ends of waits -/

theorem goesOn_finish (o : Outcome) (now : ℤ) :
    GoesOn s (s.finish o.status o.code o.confirmed now) := by
  unfold finish
  split
  · exact .refl s
  rename_i hfinished
  split
  · exact .refl s
  · exact .of_succ (open_of_not_isSome hfinished) rfl

theorem goesOn_next (h : x.Allows e) : GoesOn x.session (x.next e).session := by
  cases e with
  | hear => exact (follows_hear _ (observed_of_allows h)).toGoesOn
  | failing => exact .refl x.session
  | failed now =>
    unfold Tracked.next
    cases x.pending with
    | none => exact .refl x.session
    | some o => exact goesOn_finish o now
  | projectionFailed now => exact goesOn_finish ⟨.failed, some .responseProjectionError, true⟩ now
  | completed now => exact goesOn_finish ⟨.completed, none, true⟩ now
  | closed now => exact goesOn_finish ⟨.unconfirmed, some .executionUnobserved, false⟩ now

/-- The wait of this epoch goes on, or is over. -/
def Awaits (epoch : ℕ) (s : TrackingSession) : Prop :=
  epoch ≤ s.epoch ∧ (s.epoch = epoch → s.record.finishedAt = none →
    s.record.status = .waiting ∧ s.record.stage = some .retryWait)

/-- The wait of this epoch is over. -/
def Passed (epoch : ℕ) (s : TrackingSession) : Prop := s.record.finishedAt ≠ none ∨ epoch < s.epoch

variable {epoch : ℕ}

theorem awaits_wait (reason : WaitReason) (delay planned now : ℤ) (hopen : s.record.finishedAt = none) :
    Awaits (s.wait reason delay planned now).epoch (s.wait reason delay planned now) := by
  refine ⟨le_rfl, fun _ _ => ?_⟩
  simp only [wait, hopen]
  exact ⟨rfl, rfl⟩

theorem Awaits.next (h : Awaits epoch s) (hs : GoesOn s s') : Awaits epoch s' := by
  refine ⟨h.1.trans hs.epoch, fun hepoch hopen => ?_⟩
  by_cases hfinished : s.record.finishedAt = none
  · have hle := hs.epoch
    have hle' := h.1
    have hstill := hs.still (by omega)
    rw [hstill.1, hstill.2]
    exact h.2 (by omega) hfinished
  · rw [hs.finished hfinished] at hopen
    exact absurd hopen hfinished

theorem Passed.next (h : Passed epoch s) (hs : GoesOn s s') : Passed epoch s' := by
  obtain hfinished | hlt := h
  · rw [hs.finished hfinished]
    exact .inl hfinished
  · exact .inr (hlt.trans_le hs.epoch)

/-- An end that is late does nothing. -/
theorem Passed.resume_eq (h : Passed epoch s) (now : ℤ) : s.resume epoch now = s := by
  refine if_pos ?_
  obtain hfinished | hlt := h
  · exact .inl (isSome_iff_ne_none.2 hfinished)
  · exact .inr hlt.ne'

theorem passed_finish (ho : o.Proper) (now : ℤ) :
    Passed epoch (s.finish o.status o.code o.confirmed now) := by
  left
  unfold finish
  split
  · exact isSome_iff_ne_none.1 ‹_›
  · have hstatus : ¬ (o.status = .running ∨ o.status = .waiting) := by
      rcases ho with ⟨-, h | h | h⟩ | ⟨-, h⟩ <;> simp [h]
    rw [if_neg hstatus]
    simp

/-- **A transition ends every earlier wait.** -/
theorem passed_transition (hp : Prepared x) (ha : Awaits epoch x.session) (h : x.Allows e)
    (ht : x.Transition e) : Passed epoch (x.next e).session := by
  by_cases hopen : x.session.record.finishedAt = none
  swap
  · exact Passed.next (.inl hopen) (goesOn_next h)
  have hisSome : ¬ x.session.record.finishedAt.isSome = true := by simp [hopen]
  have hle := ha.1
  cases e with
  | hear e =>
    cases e with
    | phase stage =>
      right
      have hstage : stage ∈ [TrackingStage.preparing, .providerAttempt, .validation,
          .responseProjection] := ht
      simp only [Tracked.next, hear, phase, if_neg hisSome]
      rw [if_neg (not_not.2 hstage)]
      split
      · exact Nat.lt_succ_of_le hle
      · exact Nat.lt_succ_of_le hle
    | attempt => exact ht.elim
    | admissionWait reason next now =>
      right
      simp only [Tracked.next, hear]
      rw [admissionWait_eq next now ht, if_neg hisSome]
      split
      · rename_i hsame
        -- The session already waits for a permit, so the retry is over.
        refine lt_of_le_of_ne hle fun hepoch => ?_
        have hstage := (ha.2 hepoch.symm hopen).2
        rw [hsame.2.1] at hstage
        cases hstage
      · exact Nat.lt_succ_of_le hle
    | wait =>
      right
      simp only [Tracked.next, hear, wait, if_neg hisSome]
      exact Nat.lt_succ_of_le hle
    | resume epoch' =>
      right
      have hepoch : x.session.epoch = epoch' := ht.symm
      simp only [Tracked.next, hear, resume]
      rw [if_neg (by simp [hopen, hepoch])]
      exact Nat.lt_succ_of_le hle
    | progress | snapshot => exact ht.elim
  | failing => exact ht.elim
  | failed now =>
    unfold Tracked.next
    cases hpending : x.pending with
    | none => exact absurd hpending h
    | some o => exact passed_finish (hp o hpending) now
  | projectionFailed now =>
    exact passed_finish (o := ⟨.failed, some .responseProjectionError, true⟩)
      (.inl ⟨rfl, .inr (.inl rfl)⟩) now
  | completed now => exact passed_finish (o := ⟨.completed, none, true⟩) (.inl ⟨rfl, .inl rfl⟩) now
  | closed now =>
    exact passed_finish (o := ⟨.unconfirmed, some .executionUnobserved, false⟩) (.inr ⟨rfl, rfl⟩) now

/-- What goes on with a session goes on along a run. -/
theorem holds_run {P : TrackingSession → Prop} (hP : ∀ {s s'}, P s → GoesOn s s' → P s')
    (h : P x.session) (hrun : (tracked record).Run x x') : P x'.session := by
  induction hrun with
  | refl => exact h
  | tail _ hstep ih =>
    obtain ⟨e, ha, rfl⟩ := hstep
    exact hP ih (goesOn_next ha)

/-! ## Entries -/

/-- **What is known of the provider**: an entry is remembered, and who
finishes the call as cancelled has seen none. -/
structure Watched (x : Tracked) : Prop where
  entered : 0 < x.entries → x.session.providerEntered = true
  pending : ∀ o, x.pending = some o → o.status = .cancelled → x.entries = 0
  cancelled : x.session.record.status = .cancelled → x.entries = 0

theorem cancelled_failureOutcome {entered : Bool} {err : Runtime.Fault}
    (h : (failureOutcome entered err).status = .cancelled) : entered = false := by
  unfold failureOutcome at h
  cases entered with
  | false => rfl
  | true =>
    dsimp only at h
    split at h
    · simp at h
    · split at h <;> cases h

/-- An entry is remembered. -/
theorem entered_hear {e : SessionEvent} (he : e.entersProvider = true)
    (hopen : s.record.finishedAt = none) : (s.hear e).providerEntered = true := by
  cases e with
  | phase stage =>
    cases stage <;> cases he
    simp only [hear, phase, hopen]
    split
    · cases ‹_ = true›
    · simp only [decide_true, Bool.or_true]
      split
      · simp_all
      · split <;> rfl
  | _ => cases he

theorem watched_finish (h : Watched x) (ho : o.status = .cancelled → x.entries = 0) (now : ℤ) :
    Watched { x with session := x.session.finish o.status o.code o.confirmed now } := by
  refine ⟨fun hpos => ?_, h.pending, fun hstatus => ?_⟩
  · rw [← h.entered hpos]
    simp only [finish]
    split
    · rfl
    · split <;> rfl
  · simp only [finish] at hstatus
    split at hstatus
    · exact h.cancelled hstatus
    split at hstatus
    · exact h.cancelled hstatus
    · exact ho hstatus

theorem watched_hear (h : Watched x) (hs : Shape x.session.record) {e : SessionEvent}
    (ha : x.Allows (.hear e)) : Watched (x.next (.hear e)) := by
  have hheard := follows_hear x.session (observed_of_allows ha)
  by_cases hc : e.entersProvider = true ∧ x.session.record.finishedAt = none
  · have hpending : x.pending = none := by
      cases e with
      | phase => exact ha.resolve_right (by simp [hc.1])
      | _ => cases hc.1
    refine ⟨fun _ => entered_hear hc.1 hc.2, fun o ho => ?_, fun hstatus => ?_⟩
    · rw [show (x.next (.hear e)).pending = x.pending from rfl, hpending] at ho
      cases ho
    · -- An open session is not cancelled, and hearing of an entry does not change that.
      have hopen := (hs.open_cases hc.2).2
      have hnow := hheard.status
      rw [show (x.session.hear e).record.status = .cancelled from hstatus] at hnow
      rcases hopen with hopen | hopen <;> simp [hopen] at hnow
  · have hsame : (x.next (.hear e)).entries = x.entries := if_neg hc
    refine ⟨fun hpos => ?_, fun o ho hcancelled => ?_, fun hstatus => ?_⟩
    · exact hheard.entered (h.entered (hsame ▸ hpos))
    · exact hsame.trans (h.pending o ho hcancelled)
    · have hnow := hheard.status
      rw [show (x.session.hear e).record.status = .cancelled from hstatus] at hnow
      simp only [reduceCtorEq, or_false] at hnow
      exact hsame.trans (h.cancelled hnow.symm)

theorem watched_next (h : Watched x) (hs : Shape x.session.record) (ha : x.Allows e) :
    Watched (x.next e) := by
  cases e with
  | hear => exact watched_hear h hs ha
  | failing =>
    refine ⟨h.entered, fun o ho hcancelled => ?_, h.cancelled⟩
    cases ho
    have hentered := cancelled_failureOutcome hcancelled
    by_contra hne
    rw [h.entered (Nat.pos_of_ne_zero hne)] at hentered
    cases hentered
  | failed now =>
    unfold Tracked.next
    cases hpending : x.pending with
    | none => exact h
    | some o =>
      have hw := watched_finish h (h.pending o hpending) now
      simpa [hpending] using hw
  | projectionFailed now =>
    exact watched_finish (o := ⟨.failed, some .responseProjectionError, true⟩) h (by simp) now
  | completed now => exact watched_finish (o := ⟨.completed, none, true⟩) h (by simp) now
  | closed now =>
    exact watched_finish (o := ⟨.unconfirmed, some .executionUnobserved, false⟩) h (by simp) now

theorem watched_of_reach (ht : Timely record) (hs : Shape record) (h : (tracked record).Reach x) :
    Watched x := by
  refine h.invariant ?_ ?_
  · rintro _ rfl
    exact ⟨fun hpos => absurd hpos (lt_irrefl 0), (fun o ho => by cases ho), fun _ => rfl⟩
  · rintro x₁ x₂ hr ih ⟨e, ha, rfl⟩
    exact watched_next ih (inOrder_of_reach ht hs hr).shape ha

/-! ## The invariant -/

theorem Advances.trans (h : Advances r r') (h' : Advances r' r'') : Advances r r'' := by
  refine ⟨?_, h.updated.trans h'.updated, h.heartbeat.trans h'.heartbeat, fun t ht => ?_,
    h.attempts.trans h'.attempts, fun hfinished => ?_⟩
  · obtain rfl | hlt := h.revision
    · exact h'.revision
    · obtain rfl | hlt' := h'.revision
      · exact .inr hlt
      · exact .inr (hlt.trans hlt')
  · obtain ⟨t', ht', hle⟩ := h.progress t ht
    obtain ⟨t'', ht'', hle'⟩ := h'.progress t' ht'
    exact ⟨t'', ht'', hle.trans hle'⟩
  · obtain rfl := h.finished hfinished
    exact h'.finished hfinished

/-- **What holds of the session of a registered request.** -/
structure Sound (hash : String) (record : TrackingRecord) : Prop where
  /-- The table admits every record it can be read at. -/
  checks : ∀ x, (tracked record).Reach x → TrackingRow.checks ⟨hash, x.session.record⟩ = true
  same : ∀ x, (tracked record).Reach x → SameRequest record x.session.record
  /-- A later record is newer, or the same. -/
  advances : ∀ x x', (tracked record).Reach x → (tracked record).Run x x' →
    Advances x.session.record x'.session.record
  /-- The end of a wait does nothing after a transition. -/
  ended : ∀ x reason delay planned now x₁ e x₂ later, (tracked record).Reach x →
    x.session.record.finishedAt = none → x.Allows (.hear (.wait reason delay planned now)) →
    (tracked record).Run (x.next (.hear (.wait reason delay planned now))) x₁ →
    x₁.Allows e → x₁.Transition e → (tracked record).Run (x₁.next e) x₂ →
    x₂.next (.hear (.resume (x.session.wait reason delay planned now).epoch later)) = x₂
  /-- What is cancelled entered no provider. -/
  cancelled : ∀ x, (tracked record).Reach x → x.session.record.status = .cancelled → x.entries = 0

section Registered

variable {A : Type} {d : Deployment A} {hash id : String} {endpoint : Endpoint} {deadline : ℤ}
  {owner : Option String} {record : TrackingRecord} {db db' : Database}

/-- A new record is in order. -/
theorem of_newTrackingRecord (h : newTrackingRecord id endpoint now deadline owner = some record) :
    Timely record ∧ Shape record ∧ reservation record = record
      ∧ record.retentionExpiresAt = record.deadlineAt + 24 * 3600 * Batch.second := by
  unfold newTrackingRecord at h
  split at h
  · cases h
  · obtain ⟨owner, -, rfl⟩ := map_eq_some_iff.1 h
    exact ⟨⟨le_rfl, le_rfl, (fun t ht => by cases ht), (fun t ht => by cases ht), le_rfl,
      Int.one_pos⟩, ⟨rfl, rfl, rfl, rfl⟩, rfl, rfl⟩

theorem ne_nilUUID_of_valid (h : validTrackingID id = true) : id ≠ nilUUID := by
  unfold validTrackingID at h
  simp only [Bool.and_eq_true, decide_eq_true_eq] at h
  exact h.2

/-- The row is the request's. -/
def TrackingRow.Of (hash id : String) (t : TrackingRow) : Prop := t.hash = hash ∧ t.record.id = id

/-- **What a registration did.** -/
structure Registers (d : Deployment A) (hash : String) (r : TrackingRecord) (now : ℤ)
    (db db' : Database) : Prop where
  validHash : validKeyHash hash = true
  validID : validTrackingID r.id = true
  validOwner : validTrackingID r.ownerID = true
  checks : d.check .requestTracking (⟨hash, reservation r⟩ : TrackingRow) = true
  /-- What was there is no longer retained. -/
  expired : ∀ t ∈ (db .requestTracking).rows, TrackingRow.Of hash r.id t →
    t.record.retentionExpiresAt ≤ now
  registered : (⟨hash, reservation r⟩ : TrackingRow) ∈ (db' .requestTracking).rows
  only : ∀ t ∈ (db' .requestTracking).rows, TrackingRow.Of hash r.id t → t = ⟨hash, reservation r⟩
  /-- Other requests keep their rows while they are retained. -/
  others : ∀ t ∈ (db' .requestTracking).rows, ¬ TrackingRow.Of hash r.id t →
    t ∈ (db .requestTracking).rows
  kept : ∀ t ∈ (db .requestTracking).rows, (t.hash = hash → now < t.record.retentionExpiresAt) →
    t ∈ (db' .requestTracking).rows

theorem mem_of_mem_firstRows {α : Type} {le : α → α → Prop} [DecidableRel le] {limit : ℕ}
    {rows : List α} {a : α} (h : a ∈ firstRows le limit rows) : a ∈ rows :=
  (mem_insertionSort le).1 (mem_of_mem_take h)

theorem of_expiredTracking {gone : List String} {db₁ : Database}
    (h : (expiredTracking hash now).exec db = (.ok gone, db₁)) :
    db₁ = db ∧ ∀ t ∈ (db .requestTracking).rows, t.hash = hash → now < t.record.retentionExpiresAt →
      t.record.id ∉ gone := by
  unfold expiredTracking at h
  obtain ⟨rows, _, hselect, hrest⟩ := Op.exec_bind_eq_ok.1 h
  obtain rfl := congrArg Prod.snd hselect
  cases hrest
  refine ⟨rfl, fun t ht hhash hretained hmem => ?_⟩
  obtain ⟨t', ht', hid⟩ := mem_map.1 hmem
  have hmem' := (Schema.mem_of_exec_selectFrom (congrArg Prod.fst hselect)).1
    (mem_of_mem_firstRows ht')
  simp only [Bool.and_eq_true, decide_eq_true_eq] at hmem'
  obtain rfl : t' = t := inj_on_of_nodup_map (db .requestTracking).nodup hmem'.1 ht
    (Prod.ext (hmem'.2.1.trans hhash.symm) hid)
  omega

theorem of_reserveTracking (h : (reserveTracking d hash r now).exec db = (.ok (), db')) :
    Registers d hash r now db db' := by
  unfold reserveTracking at h
  obtain ⟨_, _, hvalid, hrest⟩ := Op.exec_bind_eq_ok.1 h
  obtain ⟨⟨hhash, hid, howner, -⟩, rfl⟩ := Op.exec_ensure_eq_ok.1 hvalid
  rw [Op.exec_mapError_eq_ok, Op.exec_atomically_eq_ok] at hrest
  obtain ⟨_, db₁, hdelete, hrest₁⟩ := Op.exec_bind_eq_ok.1 hrest
  obtain ⟨gone, db₂, hselect, hrest₂⟩ := Op.exec_bind_eq_ok.1 hrest₁
  obtain ⟨rfl, hgone⟩ := of_expiredTracking hselect
  obtain ⟨_, db₃, hclean, hrest₃⟩ := Op.exec_bind_eq_ok.1 hrest₂
  obtain ⟨_, _, hcheck, hrest₄⟩ := Op.exec_bind_eq_ok.1 hrest₃
  obtain ⟨hchecks, rfl⟩ := Op.exec_ensure_eq_ok.1 hcheck
  obtain ⟨added, _, hinsert, hadded⟩ := Op.exec_bind_eq_ok.1 hrest₄
  obtain ⟨rfl, rfl⟩ := Op.exec_ensure_eq_ok.1 hadded
  obtain ⟨-, hrows, hfree⟩ | ⟨hfalse, -⟩ := Schema.of_exec_insertInto hinsert
  swap
  · cases hfalse
  have hclean' {t : TrackingRow} := Schema.mem_of_exec_deleteFrom hclean (r := t)
  have hdelete' {t : TrackingRow} := Schema.mem_of_exec_deleteFrom hdelete (r := t)
  have hold (t : TrackingRow) (ht : t ∈ (db₃ .requestTracking).rows) : ¬ t.Of hash r.id :=
    fun hof => hfree t ht (Prod.ext hof.1 hof.2)
  have hkept (t : TrackingRow) (ht : t ∈ (db .requestTracking).rows)
      (hretained : t.hash = hash → now < t.record.retentionExpiresAt) :
      t ∈ (db₃ .requestTracking).rows := by
    by_cases hscope : t.hash = hash
    · have ht₁ := hdelete'.2 ⟨ht, by simp [hretained hscope]⟩
      exact hclean'.2 ⟨ht₁, by simp [hgone t ht₁ hscope (hretained hscope)]⟩
    · exact hclean'.2 ⟨hdelete'.2 ⟨ht, by simp [hscope]⟩, by simp [hscope]⟩
  refine ⟨hhash, hid, howner, hchecks, fun t ht hof => ?_, ?_, fun t ht hof => ?_,
    fun t ht hof => ?_, fun t ht hretained => ?_⟩
  · -- A row that is retained would still be in the way of the new one.
    by_contra hretained
    exact hold t (hkept t ht fun _ => not_le.1 hretained) hof
  · rw [hrows]
    exact mem_cons_self
  · rw [hrows] at ht
    rcases mem_cons.1 ht with rfl | ht
    · rfl
    · exact absurd hof (hold t ht)
  · rw [hrows] at ht
    rcases mem_cons.1 ht with rfl | ht
    · exact absurd ⟨rfl, rfl⟩ hof
    · exact (hdelete'.1 (hclean'.1 ht).1).1
  · rw [hrows]
    exact mem_cons_of_mem _ (hkept t ht hretained)

/-- A session that began with an admitted record is sound. -/
theorem sound_of_new (hnew : newTrackingRecord id endpoint now deadline owner = some record)
    (hhash : validKeyHash hash = true) (hid : validTrackingID record.id = true)
    (howner : validTrackingID record.ownerID = true)
    (hadmitted : TrackingRow.checks ⟨hash, record⟩ = true) : Sound hash record := by
  obtain ⟨ht, hs, -, hretention⟩ := of_newTrackingRecord hnew
  have hreached {x : Tracked} (hx : (tracked record).Reach x) := inOrder_of_reach ht hs hx
  refine ⟨fun x hx => ?_, fun x hx => (hreached hx).same, fun x x' hx hrun => ?_, ?_, fun x hx => ?_⟩
  · have hin := hreached hx
    have hsame := hin.same
    refine checks_of_inOrder hin.timely hin.shape hhash ?_ ?_ ?_ ?_
    · rw [hsame.id]
      exact ne_nilUUID_of_valid hid
    · rw [hsame.ownerID]
      exact ne_nilUUID_of_valid howner
    · rw [hsame.createdAt, hsame.deadlineAt]
      exact deadline_of_checks hadmitted
    · rw [hsame.retentionExpiresAt, hsame.deadlineAt]
      exact hretention
  · refine System.Run.respects (R := fun x x' => Advances x.session.record x'.session.record)
      (fun x => .refl x.session.record) (fun _ _ _ => Advances.trans) ?_ hx hrun
    rintro x₁ x₂ hx₁ ⟨e, ha, rfl⟩
    have hin := hreached hx₁
    exact (steps_next hin.timely hin.shape hin.prepared ha).advances
  · intro x reason delay planned now x₁ e x₂ later hx hopen ha hrun ha₁ ht₁ hrun₁
    have hwait := awaits_wait reason delay planned now hopen
    have hx' : (tracked record).Reach (x.next (.hear (.wait reason delay planned now))) :=
      .step hx ⟨_, ha, rfl⟩
    have hawaits := holds_run Awaits.next hwait hrun
    have hpassed := holds_run Passed.next
      (passed_transition (hreached (hx'.run hrun)).prepared hawaits ha₁ ht₁) hrun₁
    simp only [Tracked.next, hear, hpassed.resume_eq, SessionEvent.entersProvider]
    simp
  · exact (watched_of_reach ht hs hx).cancelled

/-- **The session of a registered request is sound**, whatever reaches it
and whatever the clocks say. -/
theorem session_sound (hcheck : d.check .requestTracking = TrackingRow.checks)
    (hnew : newTrackingRecord id endpoint now deadline owner = some record) {later : ℤ}
    (hreserved : (reserveTracking d hash record later).exec db = (.ok (), db')) :
    Sound hash record := by
  have hregisters := of_reserveTracking hreserved
  have hadmitted := hregisters.checks
  rw [hcheck, (of_newTrackingRecord hnew).2.2.1] at hadmitted
  exact sound_of_new hnew hregisters.validHash hregisters.validID hregisters.validOwner hadmitted

end Registered

namespace Sample

/-- The deployment, with the constraints of the tracking table. -/
def tracking : Deployment Unit :=
  { deployment with
    check := fun
      | .requestTracking => TrackingRow.checks
      | _ => fun _ => true }

def requestID : String := "11111111-1111-4111-8111-111111111111"

def nonce : String := "22222222-2222-4222-8222-222222222222"

/-- A request that may run for a minute. -/
def request : TrackingRecord where
  id := requestID
  endpoint := .responses
  status := .running
  stage := some .preparing
  createdAt := 0
  deadlineAt := 60 * Batch.second
  retentionExpiresAt := 60 * Batch.second + 24 * 3600 * Batch.second
  updatedAt := 0
  lastWorkerHeartbeatAt := 0
  ownerID := nonce

end Sample

open Sample

/-- A request registers, and its session is sound. -/
theorem session_sound_request :
    newTrackingRecord requestID .responses 0 (60 * Batch.second) (some nonce) = some request
      ∧ ((reserveTracking tracking keyHash request 1).exec database).1 = .ok ()
      ∧ Sound keyHash request := by
  have hnew : newTrackingRecord requestID .responses 0 (60 * Batch.second) (some nonce)
      = some request := by
    decide +kernel
  have hreserved : ((reserveTracking tracking keyHash request 1).exec database).1 = .ok () := rfl
  exact ⟨hnew, hreserved, session_sound (d := tracking) rfl hnew (Prod.ext hreserved rfl)⟩

end HardenLlm.Stateful
