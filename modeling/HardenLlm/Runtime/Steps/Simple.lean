import HardenLlm.Runtime.Model.Recovery
/-!
# What one attempt of the simple loop does

The body of the loop, inverted: how an attempt can end, and what it leaves
in the record and among the actions. Progress events change neither.
-/

namespace HardenLlm.Runtime

open List

variable {A : Type} {inv : Invocation A} {γ : Type*}

/-! ## Frames -/

section Frames

variable {run : RunState A} {stage : Stage} {branch : Branch} {id effort : String}
  {type : ProgressType} {n : ℕ} {active : StreamDiagnostics}

@[simp] theorem emit_record :
    (run.emit inv stage branch id effort type n active).record = run.record := by
  unfold RunState.emit
  split <;> rfl

@[simp] theorem emit_accumulator :
    (run.emit inv stage branch id effort type n active).accumulator = run.accumulator := by
  unfold RunState.emit
  split <;> rfl

@[simp] theorem emit_actions :
    (run.emit inv stage branch id effort type n active).actions = run.actions := by
  unfold RunState.emit
  split <;> rfl

end Frames

/-- What every step keeps, a fold keeps. -/
theorem foldl_frame {σ β : Type*} {f : σ → β → σ} {g : σ → γ} (h : ∀ s b, g (f s b) = g s)
    (l : List β) (s : σ) : g (l.foldl f s) = g s := by
  induction l generalizing s with
  | nil => rfl
  | cons b rest ih => rw [foldl_cons, ih, h]

/-- Capturing responses leaves the rest of the record. -/
theorem capture_frame {g : CallRecord A → γ}
    (h : ∀ record text, g { record with parseFailureResponse := text } = g record) (l : List String)
    (record : CallRecord A) : g (l.foldl (·.captureParseFailureResponse ·) record) = g record := by
  refine foldl_frame (fun record raw => ?_) l record
  unfold CallRecord.captureParseFailureResponse
  split
  · rfl
  · exact h _ _

/-! ## The cache -/

/-- Nothing but questions to the cache. -/
def Lookups (looked : List (Action A)) : Prop := ∀ a ∈ looked, ∃ hash version, a = .lookup hash version

theorem lookups_nil : Lookups ([] : List (Action A)) := fun _ h => absurd h not_mem_nil

theorem lookups_singleton (hash version : String) :
    Lookups ([.lookup hash version] : List (Action A)) :=
  fun _ h => ⟨hash, version, mem_singleton.1 h⟩

/-- Nothing but preparations. -/
def Requests (actions : List (Action A)) : Prop := ∀ a ∈ actions, ∃ p, a = .prepare p

/-- **Nothing but preparations and questions to the cache.** -/
def Quiet (actions : List (Action A)) : Prop :=
  ∀ a ∈ actions, (∃ p, a = .prepare p) ∨ ∃ hash version, a = .lookup hash version

/-- Nothing but writes to the cache. -/
def Stores (stored : List (Action A)) : Prop :=
  ∀ a ∈ stored, ∃ hash version cached, a = .store hash version cached

/-- The record is that of a cached result. -/
structure Serves (record : CallRecord A) (cached : CachedResult A) : Prop where
  output : record.output = cached.providerResult.output
  search : record.search = cached.providerResult.search
  ledger : record.accounting.result = cached.providerResult.accounting
  assistantText : record.assistantText = cached.providerResult.assistantText
  source : record.resultSource = .cache cached.producer
  hit : record.cache.status = .hit

/-- **How a generation is looked up**, and how the run stops for it, if it
does. Nothing is asked where the caller does not read the cache, or has no
key. -/
inductive Consults (inv : Invocation A) (hashed : Except Fault String)
    (cached : Except Fault (Option (CachedResult A))) (admits : CachedResult A → Option Fault) :
    List (Action A) → Option Fault → Prop
  | idle {stop : Option Fault} : Consults inv hashed cached admits [] stop
  | failed {hash : String} {f : Fault} (keyed : hashed = .ok hash) (answer : cached = .error f) :
      Consults inv hashed cached admits [.lookup hash inv.version] (some f)
  | missed {hash : String} (keyed : hashed = .ok hash) (answer : cached = .ok none) :
      Consults inv hashed cached admits [.lookup hash inv.version] none
  | refused {hash : String} {c : CachedResult A} (keyed : hashed = .ok hash)
      (answer : cached = .ok (some c)) (refused : admits c ≠ none) :
      Consults inv hashed cached admits [.lookup hash inv.version] (some .cacheIntegrity)

theorem Consults.lookups {hashed : Except Fault String}
    {cached : Except Fault (Option (CachedResult A))} {admits : CachedResult A → Option Fault}
    {looked : List (Action A)} {stop : Option Fault}
    (h : Consults inv hashed cached admits looked stop) : Lookups looked := by
  cases h with
  | idle => exact lookups_nil
  | failed | missed | refused => exact lookups_singleton _ _

theorem timedRecord_search [Amounts A] (t : ℤ) : (inv.timedRecord t).search = none := by
  unfold Invocation.timedRecord
  split <;> rfl

/-! ## Attempts -/

section Attempts

variable {actions looked stored : List (Action A)}

theorem executions_append (l l' : List (Action A)) :
    executions (l ++ l') = executions l ++ executions l' := filterMap_append

theorem Quiet.append (h : Quiet actions) (h' : Quiet looked) : Quiet (actions ++ looked) :=
  fun a ha => (mem_append.1 ha).elim (h a) (h' a)

theorem requests_nil : Requests ([] : List (Action A)) := fun _ h => absurd h not_mem_nil

theorem requests_singleton (p : Preparation A) : Requests [.prepare p] :=
  fun _ h => ⟨p, mem_singleton.1 h⟩

theorem Requests.quiet (h : Requests actions) : Quiet actions := fun a ha => .inl (h a ha)

theorem Requests.lookup_notMem (h : Requests actions) (hash version : String) :
    .lookup hash version ∉ actions := by
  intro hx
  obtain ⟨_, hp⟩ := h _ hx
  cases hp

theorem Lookups.quiet (h : Lookups looked) : Quiet looked := fun a ha => .inr (h a ha)

theorem Quiet.attempt_notMem (h : Quiet actions) (x : Execution A) : .attempt x ∉ actions := by
  intro hx
  rcases h _ hx with ⟨_, hp⟩ | ⟨_, _, hl⟩
  · cases hp
  · cases hl

theorem Quiet.store_notMem (h : Quiet actions) (hash version : String) (cached : CachedResult A) :
    .store hash version cached ∉ actions := by
  intro hx
  rcases h _ hx with ⟨_, hp⟩ | ⟨_, _, hl⟩
  · cases hp
  · cases hl

theorem executions_of_none (h : ∀ x, .attempt x ∉ actions) : executions actions = [] := by
  refine filterMap_eq_nil_iff.2 fun a ha => ?_
  cases a with
  | attempt e => exact absurd ha (h e)
  | prepare | lookup | store => rfl

theorem executions_of_quiet (h : Quiet actions) : executions actions = [] :=
  executions_of_none h.attempt_notMem

theorem executions_stores (h : Stores stored) : executions stored = [] := by
  refine executions_of_none fun x hx => ?_
  obtain ⟨_, _, _, hstore⟩ := h _ hx
  cases hstore

end Attempts

/-! ## The simple loop -/

namespace Simple

variable [Amounts A] {s : State A} {r : Round A}

/-- The attempt's accounting. -/
def settled (inv : Invocation A) (s : State A) (r : Round A) : Settled A :=
  settle inv.connection s.run.accumulator r.result r.failure

/-- The run while the executor streams. -/
def streaming (inv : Invocation A) (s : State A) (r : Round A) : RunState A :=
  r.streamed.foldl (fun run active => emit inv run .progress (s.number + 1) active) s.run

omit [Amounts A] in
theorem streaming_frame (inv : Invocation A) (s : State A) (r : Round A) {g : RunState A → γ}
    (h : ∀ run type n active, g (emit inv run type n active) = g run) :
    g (streaming inv s r) = g s.run :=
  foldl_frame (fun _ _ => h ..) _ _

theorem attempt_snd : (attempt inv s r).2 = settled inv s r := by
  have h := streaming_frame inv s r (g := RunState.accumulator) fun _ _ _ _ => emit_accumulator
  rw [settled, ← h]
  rfl

theorem attempt_actions : (attempt inv s r).1.actions = s.run.actions :=
  streaming_frame inv s r (g := RunState.actions) fun _ _ _ _ => emit_actions

theorem attempt_search : (attempt inv s r).1.record.search = s.run.record.search :=
  streaming_frame inv s r (g := fun run => run.record.search) fun _ _ _ _ => congrArg _ emit_record

theorem attempt_cache : (attempt inv s r).1.record.cache = s.run.record.cache :=
  streaming_frame inv s r (g := fun run => run.record.cache) fun _ _ _ _ => congrArg _ emit_record

theorem tried_result : (tried inv s r).result = (settled inv s r).result := by
  rw [← attempt_snd]
  rfl

theorem tried_failure : (tried inv s r).failure =
    (executionContextError inv.deadline r.settled).or (judge inv (settled inv s r)).1 := by
  rw [← attempt_snd]
  rfl

theorem tried_classification :
    (tried inv s r).classification = classify (tried inv s r).failure inv.policy := rfl

/-- The attempt as it is noted among the actions. -/
def execution (inv : Invocation A) (s : State A) (r : Round A) : Execution A where
  number := s.number + 1
  branch := .original
  stage := .originalGenerate
  connection := inv.connection
  call := inv.call
  prepared := s.prepared
  accumulator := s.run.accumulator
  output := r.result.output
  failure := (tried inv s r).failure

theorem tried_actions :
    (tried inv s r).run.actions = s.run.actions ++ [.attempt (execution inv s r)] := by
  rw [← attempt_actions]
  exact emit_actions

theorem executions_tried : executions (tried inv s r).run.actions
    = executions s.run.actions ++ [execution inv s r] := by
  rw [tried_actions, executions_append]
  rfl

theorem tried_search : (tried inv s r).run.record.search = s.run.record.search :=
  (congrArg _ emit_record).trans
    ((capture_frame (g := CallRecord.search) (fun _ _ => rfl) ..).trans attempt_search)

theorem tried_cache : (tried inv s r).run.record.cache = s.run.record.cache :=
  (congrArg _ emit_record).trans
    ((capture_frame (g := CallRecord.cache) (fun _ _ => rfl) ..).trans attempt_cache)

/-- The record shows the text of the last attempt. -/
theorem tried_assistantText :
    (tried inv s r).run.record.assistantText = (tried inv s r).result.assistantText :=
  (congrArg _ emit_record).trans (capture_frame (g := CallRecord.assistantText) (fun _ _ => rfl) ..)

omit [Amounts A] in
/-- An accepted result is at most written to the cache. -/
theorem admitted_actions (inv : Invocation A) (run : RunState A) (r : Round A)
    (result : ProviderResult A) (number : ℕ) (target : ExecutionTarget) : ∃ stored,
      (admitted inv run r result number target).actions = run.actions ++ stored
        ∧ Stores stored := by
  unfold admitted
  dsimp only
  split
  · exact ⟨[], (append_nil _).symm, fun a ha => absurd ha not_mem_nil⟩
  · exact ⟨_, rfl, fun a ha => ⟨_, _, _, mem_singleton.1 ha⟩⟩

/-- **How an attempt of the simple loop can end.** -/
inductive Moves (inv : Invocation A) (s : State A) (r : Round A) :
    Turn (State A) (RunState A × Option Fault) → Prop
  /-- The context ended before. -/
  | unattempted {f : Fault} : Moves inv s r (.stop (s.run, some f))
  | accepted (sound : (tried inv s r).failure = none) :
      Moves inv s r (.stop (admitted inv (tried inv s r).run r (tried inv s r).result (s.number + 1)
        (targetFromPrepared inv.connection s.prepared), none))
  | terminal {f : Fault} (failure : (tried inv s r).failure = some f) :
      Moves inv s r (.stop ((tried inv s r).run, some f))
  /-- A failure that is retried, but not in time. -/
  | gaveUp {run : RunState A} {f e : Fault} (failure : (tried inv s r).failure = some f)
      (retryable : (tried inv s r).classification.retryable = true)
      (actions : run.actions = (tried inv s r).run.actions) : Moves inv s r (.stop (run, some e))
  | retried {run : RunState A} {f : Fault} (failure : (tried inv s r).failure = some f)
      (retryable : (tried inv s r).classification.retryable = true)
      (notLast : (s.number + 1 : ℤ) ≠ inv.policy.maxAttempts)
      (actions : run.actions = (tried inv s r).run.actions)
      (accumulator : run.accumulator = (tried inv s r).run.accumulator)
      (search : run.record.search = (tried inv s r).run.record.search)
      (cache : run.record.cache = (tried inv s r).run.record.cache) :
      Moves inv s r (.next { s with run := run, number := s.number + 1 })

theorem body_moves (inv : Invocation A) (s : State A) (r : Round A) :
    Moves inv s r (body inv s r) := by
  unfold body
  split
  · exact .unattempted
  dsimp only
  split
  · rename_i hsound
    exact .accepted hsound
  rename_i f hfailure
  split
  · exact .terminal hfailure
  rename_i hgo
  push Not at hgo
  have hretry : (tried inv s r).classification.retryable = true := by simpa using hgo.2
  split
  · exact .gaveUp hfailure hretry rfl
  split
  · exact .gaveUp hfailure hretry rfl
  · exact .retried hfailure hretry (by simpa using hgo.1) rfl rfl rfl rfl

/-- The request of the generation. -/
def request (inv : Invocation A) (p : PreparedOperation) : PreparedOperation :=
  withCacheDomain p inv.connection

/-- What a cached result is checked with. -/
def admission (inv : Invocation A) (p : PreparedOperation) (c : CachedResult A) : Option Fault :=
  admitCachedResult inv.parseURL (targetFromPrepared inv.connection (request inv p)) c inv.call

/-- **How a run of the simple loop can begin.** -/
inductive Starts (inv : Invocation A) (o : Opening A) :
    Turn (State A) (RunState A × Option Fault) → Prop
  /-- It fails before the cache is asked. -/
  | failed {run : RunState A} {f : Fault} (requests : Requests run.actions) :
      Starts inv o (.stop (run, some f))
  | unserved {run : RunState A} {f : Fault} {p : PreparedOperation}
      {requested looked : List (Action A)} (prepared : o.prepared = .ok p)
      (requests : Requests requested)
      (consults : Consults inv o.hashed o.cached (admission inv p) looked (some f))
      (actions : run.actions = requested ++ looked) : Starts inv o (.stop (run, some f))
  | served {run : RunState A} {p : PreparedOperation} {hash : String} {cached : CachedResult A}
      {requested : List (Action A)} (prepared : o.prepared = .ok p) (keyed : o.hashed = .ok hash)
      (answer : o.cached = .ok (some cached)) (admitted : admission inv p cached = none)
      (serves : Serves run.record cached) (requests : Requests requested)
      (actions : run.actions = requested ++ [.lookup hash inv.version]) :
      Starts inv o (.stop (run, none))
  | ready {run : RunState A} {p : PreparedOperation} {requested looked : List (Action A)}
      (prepared : o.prepared = .ok p) (requests : Requests requested)
      (consults : Consults inv o.hashed o.cached (admission inv p) looked none)
      (actions : run.actions = requested ++ looked)
      (accumulator : run.accumulator = newProviderAccumulator) (search : run.record.search = none)
      (keyed : inv.cacheMode ≠ .off → o.hashed = .ok run.record.cache.operationHash) :
      Starts inv o (.next ⟨run, 0, request inv p⟩)

theorem start_starts (inv : Invocation A) (o : Opening A) : Starts inv o (start inv o) := by
  unfold start
  dsimp only
  generalize hrun : emit inv ⟨inv.timedRecord o.started, newProviderAccumulator, 0, [], []⟩
    .started 0 = run
  have hsearch : run.record.search = none :=
    hrun ▸ (congrArg CallRecord.search emit_record).trans (timedRecord_search _)
  have hacc : run.accumulator = newProviderAccumulator := hrun ▸ emit_accumulator
  have hnothing : run.actions = [] := hrun ▸ emit_actions
  have hrequests (p : Preparation A) : Requests (run.actions ++ [.prepare p]) := by
    rw [hnothing]
    exact requests_singleton p
  split
  · refine .failed ?_
    rw [hnothing]
    exact requests_nil
  split
  · exact .failed (hrequests _)
  rename_i p hprepared
  split
  · rename_i hoff
    exact .ready hprepared (hrequests _) .idle (append_nil _).symm hacc hsearch (absurd hoff)
  split
  · exact .failed (hrequests _)
  split
  · exact .failed (hrequests _)
  rename_i hash hkeyed
  split
  · exact .ready hprepared (hrequests _) .idle (append_nil _).symm hacc hsearch fun _ => hkeyed
  split
  · rename_i hanswer
    exact .unserved hprepared (hrequests _) (.failed hkeyed hanswer) rfl
  · rename_i hanswer
    exact .ready hprepared (hrequests _) (.missed hkeyed hanswer) rfl hacc hsearch fun _ => hkeyed
  rename_i hanswer
  split
  · rename_i hrefused
    refine .unserved hprepared (hrequests _) (.refused hkeyed hanswer ?_) rfl
    simp [admission, request, hrefused]
  · rename_i hadmitted
    exact .served hprepared hkeyed hanswer hadmitted ⟨rfl, rfl, rfl, rfl, rfl, rfl⟩ (hrequests _) rfl

variable {o : Opening A}

/-- Nothing is sent before the loop. -/
theorem Starts.quiet_stop {run : RunState A} {err : Option Fault}
    (h : Starts inv o (.stop (run, err))) : Quiet run.actions := by
  cases h with
  | failed requests => exact requests.quiet
  | unserved prepared requests consults actions =>
    exact actions ▸ requests.quiet.append consults.lookups.quiet
  | served prepared keyed answer admitted serves requests actions =>
    exact actions ▸ requests.quiet.append (lookups_singleton _ _).quiet

theorem Starts.quiet_next {s : State A} (h : Starts inv o (.next s)) : Quiet s.run.actions := by
  cases h with
  | ready prepared requests consults actions =>
    exact actions ▸ requests.quiet.append consults.lookups.quiet

/-- **Runs of the simple loop**: what holds of every way to begin, and
after every attempt, holds when the run ends. -/
theorem run_rule {rounds : ℕ → Round A} {e : Ending A} {Q : Ending A → Prop}
    (I : ℕ → State A → Prop)
    (hstopped : ∀ r, Starts inv o (.stop r) → Q (close inv o r))
    (hstart : ∀ s, Starts inv o (.next s) → I 0 s)
    (hnext : ∀ n s s', I n s → Moves inv s (rounds n) (.next s') → I (n + 1) s')
    (hstop : ∀ n s r, I n s → Moves inv s (rounds n) (.stop r) → Q (close inv o r))
    (h : run inv o rounds = some e) : Q e := by
  have hstarts := start_starts inv o
  unfold run at h
  split at h <;> rename_i hopened <;> rw [hopened] at hstarts
  · cases h
    exact hstopped _ hstarts
  · obtain ⟨r, hr, rfl⟩ := Option.map_eq_some_iff.1 h
    exact Loop.run_rule (Q := fun r => Q (close inv o r))
      (fun n s s' hs hbody => hnext n s s' hs (hbody ▸ body_moves inv s _))
      (fun n s r hs hbody => hstop n s r hs (hbody ▸ body_moves inv s _)) (hstart _ hstarts) hr

omit [Amounts A] in
/-- The last event is no action. -/
theorem close_actions {r : RunState A × Option Fault} :
    (close inv o r).actions = r.1.actions := emit_actions

/-- Every attempt that goes on leaves fewer for the rest. -/
theorem run_returns (hpos : 0 < inv.policy.maxAttempts) (o : Opening A) (rounds : ℕ → Round A) :
    ∃ e, run inv o rounds = some e := by
  unfold run
  split
  · exact ⟨_, rfl⟩
  rename_i s hstart
  have hstarts := hstart ▸ start_starts inv o
  have hzero : s.number = 0 := by
    cases hstarts with
    | ready => rfl
  have hloop : ∃ r, Loop.run (body inv) rounds (inv.policy.maxAttempts.toNat + 1) 0 s = some r := by
    refine Loop.run_returns (I := fun _ s => (s.number : ℤ) < inv.policy.maxAttempts)
      (v := fun s => (inv.policy.maxAttempts - s.number).toNat) ?_ (by omega) (by omega)
    intro n s s' hlt hbody
    have hmoves := hbody ▸ body_moves inv s (rounds n)
    cases hmoves with
    | retried =>
      dsimp only
      omega
  obtain ⟨r, hr⟩ := hloop
  exact ⟨_, Option.map_eq_some_iff.2 ⟨r, hr, rfl⟩⟩

end Simple

end HardenLlm.Runtime
