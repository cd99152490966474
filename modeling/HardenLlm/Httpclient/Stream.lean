import HardenLlm.Httpclient.Model.Stream
/-!
# What a stream lets the client know

A result is known exactly when a prefix of the stream ends with a valid
terminal frame after valid frames of the same run. It is then the result of
that frame: the bytes after it, and how the bytes are split over reads, make
no difference but to the recording.
-/

namespace HardenLlm.Httpclient

open List Session

open Lines Buffered

/-! ## Frames of bytes -/

namespace Parse

/-- What a byte brings: a frame perhaps, and the state after it; nothing
past a limit. -/
def step (s : Parse) (c : UInt8) : Option (Option Frame × Parse) :=
  let s := s.feed [c]
  if c ≠ lf then some (none, s)
  else if s.tooLarge then none
  else match s.endLine with
    | .inl s => some (none, s)
    | .inr f => some (some f, { bytes := s.bytes })

@[simp] theorem feed_nil (s : Parse) : s.feed [] = s := by simp [feed]

theorem feed_feed (s : Parse) (a b : Bytes) : (s.feed a).feed b = s.feed (a ++ b) := by
  simp [feed, Nat.add_assoc]

theorem tooLarge_feed {s : Parse} (h : s.tooLarge = true) (part : Bytes) :
    (s.feed part).tooLarge = true := by
  simp only [tooLarge, Bool.or_eq_true, decide_eq_true_eq] at h ⊢
  exact h.imp (fun h => h.trans_le (Nat.le_add_right _ _))
    fun h => h.trans_le (Nat.le_add_right _ _)

end Parse

/-- **The frames of a text**, byte by byte. -/
def framesOf (s : Parse) : Bytes → List Frame
  | [] => []
  | c :: t =>
    match s.step c with
    | none => []
    | some (f, next) => f.toList ++ framesOf next t

/-- Past a limit there are no more frames. -/
theorem framesOf_tooLarge {s : Parse} (h : s.tooLarge = true) (t : Bytes) : framesOf s t = [] := by
  induction t generalizing s with
  | nil => rfl
  | cons c t ih =>
    have hnext := Parse.tooLarge_feed h [c]
    by_cases hc : c = lf
    · simp [framesOf, Parse.step, hc ▸ hnext, hc]
    · simp [framesOf, Parse.step, hc, ih hnext]

/-- **Slices hold the frames of their bytes.** -/
theorem frames_slicesFrom {size : ℕ} (s : Parse) (acc t : Bytes) :
    (frames s (slicesFrom size lf acc t)).1 = framesOf (s.feed acc) t := by
  induction t generalizing s acc with
  | nil =>
    rw [slicesFrom, frames, framesOf]
    split <;> rfl
  | cons c t ih =>
    have hfeed : (s.feed acc).feed [c] = s.feed (acc ++ [c]) := Parse.feed_feed s acc [c]
    rw [slicesFrom, framesOf, Parse.step, hfeed]
    by_cases hc : c = lf
    · subst hc
      rw [if_pos rfl, if_neg (by simp), frames]
      by_cases hlarge : (s.feed (acc ++ [lf])).tooLarge = true
      · rw [if_pos hlarge, if_pos hlarge]
      · rw [if_neg hlarge, if_neg hlarge]
        cases hend : (s.feed (acc ++ [lf])).endLine with
        | inl next => simpa [hend] using ih next []
        | inr => simpa [hend] using ih { bytes := (s.feed (acc ++ [lf])).bytes } []
    · rw [if_neg hc, if_pos hc]
      by_cases hfull : acc.length + 1 = size
      · rw [if_pos hfull, frames]
        by_cases hlarge : (s.feed (acc ++ [c])).tooLarge = true
        · rw [if_pos hlarge]
          exact (framesOf_tooLarge hlarge t).symm
        · rw [if_neg hlarge]
          simpa using ih (s.feed (acc ++ [c])) []
      · rw [if_neg hfull]
        exact ih s (acc ++ [c])

theorem frames_slices (reads : List Bytes) :
    (frames {} (Reader.slices ⟨[], reads⟩ bufferSize lf)).1 = framesOf {} reads.flatten := by
  have hslices : Reader.slices ⟨[], reads⟩ bufferSize lf
      = slicesFrom bufferSize lf [] reads.flatten :=
    Reader.slices_eq (by decide) _ (by simp)
  rw [hslices, frames_slicesFrom, Parse.feed_nil]

/-- More bytes bring more frames. -/
theorem framesOf_append (s : Parse) (a b : Bytes) : framesOf s a <+: framesOf s (a ++ b) := by
  induction a generalizing s with
  | nil => exact nil_prefix
  | cons c a ih =>
    rw [cons_append, framesOf, framesOf]
    cases s.step c with
    | none => exact prefix_refl _
    | some next => exact (prefix_append_right_inj _).2 (ih next.2)

/-- The last byte of a text ends its last frame. -/
def Completes (s : Parse) (upto : Bytes) (before : List Frame) (last : Frame) : Prop :=
  framesOf s upto = before ++ [last] ∧ framesOf s upto.dropLast = before

theorem Completes.cons {s next : Parse} {c : UInt8} {f : Option Frame}
    (hstep : s.step c = some (f, next)) {upto : Bytes} {before : List Frame} {last : Frame}
    (h : Completes next upto before last) : Completes s (c :: upto) (f.toList ++ before) last := by
  obtain ⟨hlast, hdrop⟩ := h
  have hne : upto ≠ [] := by
    rintro rfl
    simp [framesOf] at hlast
  constructor
  · simp [framesOf, hstep, hlast]
  · rw [dropLast_cons_of_ne_nil hne]
    simp [framesOf, hstep, hdrop]

/-- **Every frame ends somewhere.** -/
theorem exists_completes (s : Parse) (t : Bytes) (before : List Frame) (last : Frame)
    (after : List Frame) (h : framesOf s t = before ++ last :: after) :
    ∃ upto, upto <+: t ∧ Completes s upto before last := by
  induction t generalizing s before with
  | nil => simp [framesOf] at h
  | cons c t ih =>
    cases hstep : s.step c with
    | none => simp [framesOf, hstep] at h
    | some next =>
      obtain ⟨f, next⟩ := next
      have hframes : f.toList ++ framesOf next t = before ++ last :: after := by
        simpa [framesOf, hstep] using h
      -- the frame ends with this byte, or in the text after it
      by_cases hhere : f = some last ∧ before = []
      · obtain ⟨rfl, rfl⟩ := hhere
        exact ⟨[c], by simp, by simp [framesOf, hstep], rfl⟩
      · obtain ⟨before', rfl, hrest⟩ : ∃ before', before = f.toList ++ before'
            ∧ framesOf next t = before' ++ last :: after := by
          cases f with
          | none => exact ⟨before, rfl, hframes⟩
          | some =>
            cases before with
            | nil => simp_all
            | cons b before =>
              obtain ⟨rfl, hrest⟩ := List.cons.inj hframes
              exact ⟨before, rfl, hrest⟩
        obtain ⟨upto, hupto, hcompletes⟩ := ih next before' hrest
        exact ⟨c :: upto, (prefix_cons_inj c).2 hupto, hcompletes.cons hstep⟩

/-! ## Sessions -/

variable {W : Wire} {input : RunInput}

/-- **What a terminal frame makes known.** -/
structure Known where
  result : RecordedRunOutput
  state : RunState
  evidence : Option RunEvidence
  failure : Option RunFailure

/-- **A valid terminal event**: its parts conform, carry its identity, and
its result is one that was asked for. -/
structure Concludes (W : Wire) (input : RunInput) (e : RunEvent) (k : Known) : Prop where
  parts : ∃ payload decoded, W.payload e.data = some payload ∧ W.result payload.result = some decoded
    ∧ k.result = { decoded with raw := payload.result } ∧ W.state payload.state = some k.state
    ∧ ((e.type = .completed ∧ k.result.status = .succeeded ∧ payload.error = []
        ∧ W.validateStructured input k.result.output = true ∧ k.failure = none)
      ∨ (e.type = .failed ∧ k.result.status ≠ .succeeded
        ∧ ∃ problem, W.problem payload.error = some problem
          ∧ k.failure = some ⟨problem, k.evidence⟩))
  identity : e.runID = k.result.runID ∧ e.callID = k.result.callID ∧ e.traceID = k.result.traceID
    ∧ k.state.lastRunID = k.result.runID ∧ k.state.lastTraceID = k.result.traceID
  evidence : projectEvidence W k.result input = .ok k.evidence

/-- The session after a terminal event. -/
def Session.with (s : Session) (k : Known) : Session :=
  { s with
    outcome := ⟨some k.result, some k.state, some ⟨.enabled, .unconfirmed, k.result.runID, none⟩,
      k.evidence⟩
    terminalFailure := k.failure
    terminal := true }

variable {e : RunEvent} {result : RecordedRunOutput}

theorem identified_iff {state : RunState} :
    Session.identified e result state = true ↔ e.runID = result.runID ∧ e.callID = result.callID
      ∧ e.traceID = result.traceID ∧ state.lastRunID = result.runID
      ∧ state.lastTraceID = result.traceID := by
  simp [Session.identified, and_assoc]

variable {s s' : Session}

theorem settle_ok {payload : Payload} (htype : e.type = .completed ∨ e.type = .failed) :
    s.settle W input e payload result = .ok s' ↔
      (e.type = .completed ∧ result.status = .succeeded ∧ payload.error = []
          ∧ W.validateStructured input result.output = true ∧ s = s')
        ∨ (e.type = .failed ∧ result.status ≠ .succeeded
          ∧ ∃ problem, W.problem payload.error = some problem
            ∧ { s with terminalFailure := some ⟨problem, none⟩ } = s') := by
  rw [settle]
  rcases htype with htype | htype
  · rw [if_pos htype, seq_eq_ok, require_eq_ok, pure_eq_ok]
    simp [htype, and_assoc]
  · rw [if_neg (by simp [htype]), seq_eq_ok, require_eq_ok]
    simp only [found_seq, pure_eq_ok]
    simp [htype]

/-- **A session goes on after a terminal event only if it is valid.** -/
theorem concludes_of_ok (hfresh : s.terminalFailure = none)
    (htype : e.type = .completed ∨ e.type = .failed) (h : s.conclude W input e = .ok s') :
    ∃ k, Concludes W input e k ∧ s' = s.with k := by
  rw [Session.conclude] at h
  obtain ⟨payload, hpayload, h⟩ := bind_eq_ok.1 h
  obtain ⟨decoded, hdecoded, h⟩ := bind_eq_ok.1 h
  obtain ⟨state, hstate, h⟩ := bind_eq_ok.1 h
  obtain ⟨hidentity, h⟩ := seq_eq_ok.1 h
  obtain ⟨next, hnext, h⟩ := bind_eq_ok.1 h
  rw [found_eq_ok] at hpayload hdecoded hstate
  have hidentity := identified_iff.1 (require_eq_ok.1 hidentity)
  split at h
  · cases h
  · rename_i evidence hproject
    rw [pure_eq_ok] at h
    rcases (settle_ok htype).1 hnext with ⟨hcompleted, hstatus, herror, hvalid, rfl⟩
      | ⟨hfailed, hstatus, problem, hproblem, rfl⟩
    · refine ⟨⟨{ decoded with raw := payload.result }, state, evidence, none⟩, ⟨?_, hidentity,
        hproject⟩, ?_⟩
      · exact ⟨payload, decoded, hpayload, hdecoded, rfl, hstate,
          .inl ⟨hcompleted, hstatus, herror, hvalid, rfl⟩⟩
      · rw [← h, Session.with, hfresh]
        rfl
    · refine ⟨⟨{ decoded with raw := payload.result }, state, evidence, some ⟨problem, evidence⟩⟩,
        ⟨?_, hidentity, hproject⟩, ?_⟩
      · exact ⟨payload, decoded, hpayload, hdecoded, rfl, hstate,
          .inr ⟨hfailed, hstatus, problem, hproblem, rfl⟩⟩
      · rw [← h]
        rfl

variable {k : Known} {s : Session}

theorem Concludes.type (h : Concludes W input e k) : e.type = .completed ∨ e.type = .failed := by
  obtain ⟨payload, decoded, -, -, -, -, hcase⟩ := h.parts
  exact hcase.imp (·.1) (·.1)

/-- And a valid one is accepted. -/
theorem Concludes.conclude (h : Concludes W input e k) (hfresh : s.terminalFailure = none) :
    s.conclude W input e = .ok (s.with k) := by
  obtain ⟨payload, decoded, hpayload, hdecoded, hresult, hstate, hcase⟩ := h.parts
  obtain ⟨result, state, evidence, failure⟩ := k
  have hidentity := identified_iff.2 h.identity
  have hproject := h.evidence
  dsimp only at hresult hstate hcase hidentity hproject
  subst hresult
  rw [Session.conclude, bind_eq_ok]
  refine ⟨payload, found_eq_ok.2 hpayload, bind_eq_ok.2 ⟨decoded, found_eq_ok.2 hdecoded,
    bind_eq_ok.2 ⟨state, found_eq_ok.2 hstate, seq_eq_ok.2 ⟨require_eq_ok.2 hidentity, ?_⟩⟩⟩⟩
  rw [bind_eq_ok]
  rcases hcase with ⟨hcompleted, hstatus, herror, hvalid, rfl⟩
    | ⟨hfailed, hstatus, problem, hproblem, rfl⟩
  · refine ⟨_, (settle_ok h.type).2 (.inl ⟨hcompleted, hstatus, herror, hvalid, rfl⟩), ?_⟩
    rw [hproject]
    simp [Session.with, hfresh, pure, Except.pure]
  · refine ⟨_, (settle_ok h.type).2 (.inr ⟨hfailed, hstatus, problem, hproblem, rfl⟩), ?_⟩
    rw [hproject]
    rfl

/-! ## Runs of frames -/

/-- Valid frames that report the progress of one run. -/
inductive Reports (W : Wire) : Session → List Frame → Session → Prop
  | nil (s : Session) : Reports W s [] s
  | cons {s s' : Session} {f : Frame} {fs : List Frame} {e : RunEvent}
      (event : W.event f.data = some e) (accepted : s.accepts f e = true)
      (type : e.type = .started ∨ e.type = .progress) (rest : Reports W (s.advance e) fs s') :
      Reports W s (f :: fs) s'

theorem settle_error {payload : Payload}
    (h : s.settle W input e payload result = .error s') : s = s' := by
  rw [settle] at h
  split at h
  · rcases bind_eq_error.1 h with h | ⟨_, -, h⟩
    · exact require_eq_error h
    · cases h
  · rcases bind_eq_error.1 h with h | ⟨_, -, h⟩
    · exact require_eq_error h
    · rcases bind_eq_error.1 h with h | ⟨_, -, h⟩
      · exact found_eq_error h
      · cases h

/-- **A terminal event that is not accepted leaves nothing known**, however
much of the outcome was filled by then. -/
theorem conclude_error (hs : s.terminal = false)
    (htype : e.type = .completed ∨ e.type = .failed) (h : s.conclude W input e = .error s') :
    s'.terminal = false := by
  rw [Session.conclude] at h
  rcases bind_eq_error.1 h with h | ⟨payload, -, h⟩
  · exact found_eq_error h ▸ hs
  rcases bind_eq_error.1 h with h | ⟨decoded, -, h⟩
  · exact found_eq_error h ▸ hs
  rcases bind_eq_error.1 h with h | ⟨state, -, h⟩
  · exact found_eq_error h ▸ hs
  rcases bind_eq_error.1 h with h | ⟨_, -, h⟩
  · exact require_eq_error h ▸ hs
  rcases bind_eq_error.1 h with h | ⟨next, hnext, h⟩
  · exact settle_error h ▸ hs
  split at h
  · obtain rfl := Except.error.inj h
    rcases (settle_ok htype).1 hnext with ⟨-, -, -, -, rfl⟩ | ⟨-, -, problem, -, rfl⟩ <;> exact hs
  · cases h

/-- A session that waits for a terminal event. -/
structure Session.Waiting (s : Session) : Prop where
  terminal : s.terminal = false
  failure : s.terminalFailure = none

theorem Session.Waiting.advance (h : s.Waiting) (e : RunEvent) :
    (s.advance e).Waiting := ⟨h.terminal, h.failure⟩

variable {fs : List Frame}

theorem Reports.waiting (h : Reports W s fs s') (hs : s.Waiting) : s'.Waiting := by
  induction h with
  | nil => exact hs
  | cons _ _ _ _ ih => exact ih (hs.advance _)

theorem Reports.read (h : Reports W s fs s') (hs : s.Waiting) (rest : List Frame) (cause : Cause) :
    s.read W input (fs ++ rest) cause = s'.read W input rest cause := by
  induction h with
  | nil => rfl
  | @cons s s' f fs e event accepted type _ ih =>
    have hnext := (hs.advance e).terminal
    rw [cons_append, Session.read, event]
    rcases type with type | type <;> simpa [accepted, hnext, type] using ih (hs.advance e)

/-- What is known, with a recording. -/
def Known.outcome (k : Known) (recording : RecordingOutcome) : RunOutcome :=
  ⟨some k.result, some k.state, some recording, k.evidence⟩

def Known.error (k : Known) : Option ClientError := k.failure.map .runFailure

/-- **What is known stays**: later frames only tell of the recording. -/
theorem read_with (s : Session) (k : Known) (fs : List Frame) (cause : Cause) :
    ∃ recording, recording.runID = k.result.runID
      ∧ (s.with k).read W input fs cause = (k.outcome recording, k.error) := by
  have hunconfirmed : ∀ cause, (s.with k).finish cause
      = (k.outcome ⟨.enabled, .unconfirmed, k.result.runID, none⟩, k.error) := fun _ => rfl
  cases fs with
  | nil => exact ⟨_, rfl, hunconfirmed cause⟩
  | cons f =>
    rw [Session.read]
    cases W.event f.data with
    | none => exact ⟨_, rfl, hunconfirmed .protocol⟩
    | some e =>
      dsimp only
      split
      · exact ⟨_, rfl, hunconfirmed .protocol⟩
      · -- the one frame that is read after the terminal
        have hdone : ((s.with k).advance e).terminal = true := rfl
        rw [if_pos hdone, record]
        split
        · rename_i recording result _ _ hresult
          obtain rfl : k.result = result := Option.some.inj hresult
          split
          · exact ⟨_, rfl, rfl⟩
          · rename_i hsame
            refine ⟨recording, ?_, rfl⟩
            by_contra hother
            exact hsame (by simp [hother])
        · exact ⟨_, rfl, rfl⟩

/-- A valid terminal frame after a session. -/
structure Ends (W : Wire) (input : RunInput) (s : Session) (f : Frame) (k : Known) : Prop where
  event : ∃ e, W.event f.data = some e ∧ s.accepts f e = true ∧ Concludes W input e k

variable {f : Frame} {e₀ : RunEvent}

theorem Ends.read (h : Ends W input s f k) (hs : s.Waiting) (rest : List Frame) (cause : Cause) :
    ∃ recording, recording.runID = k.result.runID
      ∧ s.read W input (f :: rest) cause = (k.outcome recording, k.error) := by
  obtain ⟨e, hevent, haccepts, hconcludes⟩ := h.event
  have hnext := hs.advance e
  have hread : s.read W input (f :: rest) cause
      = ((s.advance e).with k).read W input rest cause := by
    rw [Session.read, hevent]
    rcases hconcludes.type with htype | htype <;>
      simp [haccepts, hnext.terminal, htype, hconcludes.conclude hnext.failure]
  rw [hread]
  exact read_with _ _ _ _

/-- **Otherwise nothing is known.** -/
theorem read_unknown (hs : s.Waiting) (fs : List Frame) (cause : Cause)
    (hno : ∀ before last after s' k, fs = before ++ last :: after → Reports W s before s' → ¬ Ends
      W input s' last k) :
    ∃ cause', s.read W input fs cause = ({}, some (.unknownOutcome cause')) := by
  have hunknown : ∀ {s : Session}, s.terminal = false → ∀ cause,
      s.finish cause = ({}, some (.unknownOutcome cause)) := by
    intro s hs cause
    simp [finish, hs]
  induction fs generalizing s with
  | nil => exact ⟨cause, hunknown hs.terminal cause⟩
  | cons f rest ih =>
    rw [Session.read]
    cases hevent : W.event f.data with
    | none => exact ⟨_, hunknown hs.terminal .protocol⟩
    | some e =>
      have hnext := hs.advance e
      dsimp only
      split
      · exact ⟨_, hunknown hs.terminal .protocol⟩
      · rename_i haccepts
        have haccepts : s.accepts f e = true := by simpa using haccepts
        rw [if_neg (by simp [hnext.terminal])]
        have hgoes : e.type = .started ∨ e.type = .progress →
            ∃ cause', (s.advance e).read W input rest cause
              = ({}, some (.unknownOutcome cause')) := by
          intro htype
          refine ih hnext fun before last after s' k hsplit hreports => ?_
          exact hno (f :: before) last after s' k (by rw [hsplit]; rfl)
            (.cons hevent haccepts htype hreports)
        have hstops : e.type = .completed ∨ e.type = .failed →
            ∃ stopped, (s.advance e).conclude W input e = .error stopped
              ∧ stopped.terminal = false := by
          intro htype
          cases hconclude : (s.advance e).conclude W input e with
          | error stopped => exact ⟨stopped, rfl, conclude_error hnext.terminal htype hconclude⟩
          | ok =>
            obtain ⟨k, hk, -⟩ := concludes_of_ok hnext.failure htype hconclude
            exact absurd ⟨e, hevent, haccepts, hk⟩ (hno [] f rest s k rfl (.nil s))
        cases htype : e.type with
        | started => exact hgoes (.inl htype)
        | progress => exact hgoes (.inr htype)
        | completed =>
          obtain ⟨stopped, hconclude, hterminal⟩ := hstops (.inl htype)
          exact ⟨_, by simpa [hconclude] using hunknown hterminal .protocol⟩
        | failed =>
          obtain ⟨stopped, hconclude, hterminal⟩ := hstops (.inr htype)
          exact ⟨_, by simpa [hconclude] using hunknown hterminal .protocol⟩
        | recorded => exact ⟨_, hunknown hnext.terminal .protocol⟩

/-! ## Identity -/

/-- The identifiers of an event that are not empty are those of the
session. -/
structure Session.Names (s : Session) (e : RunEvent) : Prop where
  run : e.runID ≠ "" → s.runID = e.runID
  call : e.callID ≠ "" → s.callID = e.callID
  trace : e.traceID ≠ "" → s.traceID = e.traceID

theorem Session.names_advance (s : Session) (e : RunEvent) : (s.advance e).Names e where
  run _ := rfl
  call h := if_pos h
  trace h := if_pos h

/-- An accepted event agrees with the session. -/
theorem accepts_agrees (h : s.accepts f e = true) :
    (s.runID ≠ "" → e.runID = s.runID) ∧ (s.callID ≠ "" → e.callID ≠ "" → e.callID = s.callID)
      ∧ (s.traceID ≠ "" → e.traceID ≠ "" → e.traceID = s.traceID) := by
  simp only [accepts, Bool.not_eq_true', Bool.or_eq_false_iff, Bool.and_eq_false_imp,
    decide_eq_true_eq, decide_eq_false_iff_not, not_not] at h
  obtain ⟨⟨⟨-, hrun⟩, hcall⟩, htrace⟩ := h
  exact ⟨hrun, fun h h' => hcall (by simp [h, h']), fun h h' => htrace (by simp [h, h'])⟩

/-- **A session keeps the identifiers it has.** -/
theorem Session.Names.advance {e : RunEvent} (h : s.Names e₀) (haccepts : s.accepts f e = true) :
    (s.advance e).Names e₀ := by
  obtain ⟨hrun, hcall, htrace⟩ := accepts_agrees haccepts
  constructor
  · intro hne
    have hs := h.run hne
    exact (hrun (hs ▸ hne)).trans hs
  · intro hne
    have hs := h.call hne
    by_cases hempty : e.callID = ""
    · exact (if_neg (by simpa using hempty)).trans hs
    · exact (if_pos hempty).trans ((hcall (hs ▸ hne) hempty).trans hs)
  · intro hne
    have hs := h.trace hne
    by_cases hempty : e.traceID = ""
    · exact (if_neg (by simpa using hempty)).trans hs
    · exact (if_pos hempty).trans ((htrace (hs ▸ hne) hempty).trans hs)

theorem Reports.keeps (h : Reports W s fs s') (hs : s.Names e₀) : s'.Names e₀ := by
  induction h with
  | nil => exact hs
  | cons _ accepted _ _ ih => exact ih (hs.advance accepted)

theorem Reports.names (h : Reports W s fs s')
    (hf : f ∈ fs) (he : W.event f.data = some e) : s'.Names e := by
  induction h with
  | nil => cases hf
  | @cons s s' g fs e' event accepted _ rest ih =>
    rcases mem_cons.1 hf with rfl | hf
    · obtain rfl : e' = e := Option.mem_unique event he
      exact rest.keeps (Session.names_advance s e')
    · exact ih hf

/-- A result agrees with an event. -/
structure Known.Agrees (k : Known) (e : RunEvent) : Prop where
  run : e.runID ≠ "" → k.result.runID = e.runID
  call : e.callID ≠ "" → k.result.callID = e.callID
  trace : e.traceID ≠ "" → k.result.traceID = e.traceID

theorem Concludes.agrees (h : Concludes W input e k) : k.Agrees e where
  run _ := h.identity.1.symm
  call _ := h.identity.2.1.symm
  trace _ := h.identity.2.2.1.symm

theorem Concludes.identified (h : Concludes W input e k) : e.callID ≠ "" ∧ e.traceID ≠ "" := by
  obtain ⟨payload, decoded, -, hdecoded, hresult, -, -⟩ := h.parts
  obtain ⟨-, hcall, htrace⟩ := W.result_identified hdecoded
  rw [h.identity.2.1, h.identity.2.2.1, hresult]
  exact ⟨hcall, htrace⟩

/-- **The result agrees with the events before it.** -/
theorem Ends.agrees (h : Ends W input s f k) (hs : s.Names e₀) : k.Agrees e₀ := by
  obtain ⟨e, -, haccepts, hconcludes⟩ := h.event
  have hnames := hs.advance haccepts
  have hidentified := hconcludes.identified
  obtain ⟨hrun, hcall, htrace, -⟩ := hconcludes.identity
  constructor
  · intro hne
    exact hrun.symm.trans (hnames.run hne)
  · intro hne
    exact hcall.symm.trans ((if_pos hidentified.1).symm.trans (hnames.call hne))
  · intro hne
    exact htrace.symm.trans ((if_pos hidentified.2).symm.trans (hnames.trace hne))

/-! ## Streams -/

/-- **A complete, valid terminal frame**: the text ends with it, and the
frames before it report the progress of the same run. -/
structure Delivers (W : Wire) (input : RunInput) (upto : Bytes) (k : Known) : Prop where
  frames : ∃ before last s, Completes {} upto before last ∧ Reports W {} before s
    ∧ Ends W input s last k

theorem waiting_start : ({} : Session).Waiting := ⟨rfl, rfl⟩

/-- **What the client knows of a run.** A terminal frame makes its result
known, whatever follows it and however the bytes are split over reads; only
the recording may depend on what follows. Without one the outcome is
unknown. And the result agrees with the identifiers of the frames before
it. -/
theorem run_stream_sound (W : Wire) (input : RunInput) :
    (∀ upto k reads, Delivers W input upto k → upto <+: reads.flatten →
      ∃ recording, recording.runID = k.result.runID
        ∧ readRunStream W input reads = (k.outcome recording, k.error))
      ∧ (∀ reads, (∀ upto k, upto <+: reads.flatten → ¬ Delivers W input upto k) →
        ∃ cause, readRunStream W input reads = ({}, some (.unknownOutcome cause)))
      ∧ ∀ upto k, Delivers W input upto k → ∀ f ∈ framesOf {} upto, ∀ e,
        W.event f.data = some e → k.Agrees e := by
  refine ⟨?_, ?_, ?_⟩
  · intro upto k reads hdelivers hupto
    obtain ⟨before, last, s, hcompletes, hreports, hends⟩ := hdelivers.frames
    obtain ⟨tail, htail⟩ := hupto
    obtain ⟨after, hafter⟩ := framesOf_append {} upto tail
    rw [htail, hcompletes.1, append_assoc, singleton_append] at hafter
    rw [readRunStream, frames_slices, ← hafter, hreports.read waiting_start]
    exact hends.read (hreports.waiting waiting_start) _ _
  · intro reads hno
    rw [readRunStream, frames_slices]
    refine read_unknown waiting_start _ _ fun before last after s k hsplit hreports hends => ?_
    obtain ⟨upto, hupto, hcompletes⟩ := exists_completes {} _ before last after hsplit
    exact hno upto k hupto ⟨before, last, s, hcompletes, hreports, hends⟩
  · intro upto k hdelivers f hf e he
    obtain ⟨before, last, s, hcompletes, hreports, hends⟩ := hdelivers.frames
    rw [hcompletes.1, mem_append, mem_singleton] at hf
    rcases hf with hf | rfl
    · exact hends.agrees (hreports.names hf he)
    · obtain ⟨e', he', -, hconcludes⟩ := hends.event
      obtain rfl : e' = e := Option.mem_unique he' he
      exact hconcludes.agrees

namespace Sample

def asked : RunInput where
  profileID := "default"
  callType := .text
  origin := { operationID := "op-1" }

def target : ExecutionTarget :=
  ⟨"default", "openai", "openai.responses", "https://api.example", "model"⟩

def recorded : RecordedRunOutput where
  runID := "run"
  status := .succeeded
  output := ascii "\"hello\""
  callID := "call"
  traceID := "trace"
  origin := asked.origin
  selectedTarget := some target
  resultSource := ⟨.provider, 1, some target⟩
  attempts := [⟨1, "default", target, true⟩]
  cache := { mode := .off, status := "skipped", served := false, written := false }
  providerInvoked := true

/-- A contract of two events, with names for their parts. -/
def wire : Wire where
  event data :=
    if data = ascii "started" then some ⟨1, "run", "", "", .started, []⟩
    else if data = ascii "completed" then some ⟨2, "run", "call", "trace", .completed, ascii "parts"⟩
    else none
  payload data := if data = ascii "parts" then some ⟨ascii "result", ascii "state", []⟩ else none
  result data := if data = ascii "result" then some recorded else none
  state data := if data = ascii "state" then some ⟨"run", "trace"⟩ else none
  problem _ := none
  recording _ := none
  cacheResult c := c.status ≠ ""
  text output := output.head? = some 34
  structured _ _ := false
  result_identified := by
    intro data out h
    split at h
    · cases h
      decide
    · cases h

def known : Known where
  result := { recorded with raw := ascii "result" }
  state := ⟨"run", "trace"⟩
  evidence := some ⟨"op-1", "trace", recorded.cache, true, 1⟩
  failure := none

def stream : Bytes :=
  ascii "event: run.started\ndata: started\n\nevent: run.completed\r\ndata: completed\r\n\r\n"

theorem delivers_stream : Delivers wire asked stream known := by
  refine ⟨[⟨ascii "run.started", ascii "started"⟩], ⟨ascii "run.completed", ascii "completed"⟩,
    ({} : Session).advance ⟨1, "run", "", "", .started, []⟩, ?_, ?_, ?_⟩
  · constructor <;> decide +kernel
  · exact .cons (by decide +kernel) (by decide +kernel) (.inl rfl) (.nil _)
  · refine ⟨⟨2, "run", "call", "trace", .completed, ascii "parts"⟩, by decide +kernel,
      by decide +kernel, ⟨⟨⟨ascii "result", ascii "state", []⟩, recorded, ?_⟩, ?_, ?_⟩⟩
    · decide +kernel
    · decide +kernel
    · rfl

end Sample

open Sample

/-- A terminal, split over reads, and what is no frame after it. -/
theorem run_stream_sound_sample : ∃ recording, recording.runID = "run"
    ∧ readRunStream wire asked
        [stream.take 20, stream.drop 20, ascii "garbage\n\n"]
      = (known.outcome recording, none) :=
  (run_stream_sound wire asked).1 stream known _ delivers_stream
    ⟨ascii "garbage\n\n", by decide +kernel⟩

end HardenLlm.Httpclient
