import HardenLlm.Runtime.Stages
import HardenLlm.Runtime.Stored
/-!
# Whose evidence an answer carries

The plan keeps the evidence of the latest attempt that returned some. So
a rerun whose generation returned none answers with what the original
generation found.
-/

namespace HardenLlm.Runtime

open List Planned

variable {A : Type} {inv : Invocation A} {rounds : ℕ → Round A} {xs : List (Execution A)}
  {x : Execution A} {branch : Branch}

/-- **The evidence of a branch's generation**: what it returned last. -/
def evidenceOf (rounds : ℕ → Round A) (branch : Branch) (xs : List (Execution A)) :
    Option SearchResult :=
  xs.foldl (fun found x =>
    if x.branch = branch ∧ x.call.repair.isNone then (rounds (x.number - 1)).result.search.or found
    else found) none

/-- Repairs, which are not to search, return no evidence. -/
def Unsearched (rounds : ℕ → Round A) (xs : List (Execution A)) : Prop :=
  ∀ x ∈ xs, x.call.repair.isSome → (rounds (x.number - 1)).result.search = none

theorem evidenceOf_snoc : evidenceOf rounds branch (xs ++ [x])
    = if x.branch = branch ∧ x.call.repair.isNone then
        (rounds (x.number - 1)).result.search.or (evidenceOf rounds branch xs)
      else evidenceOf rounds branch xs := by
  simp [evidenceOf]

/-- A branch that was not entered has no evidence. -/
theorem evidenceOf_eq_none (h : ∀ x ∈ xs, x.branch ≠ branch) : evidenceOf rounds branch xs = none := by
  induction xs using reverseRecOn with
  | nil => rfl
  | append_singleton xs x ih =>
    rw [evidenceOf_snoc, if_neg fun hx => h x (by simp) hx.1]
    exact ih fun y hy => h y (mem_append_left _ hy)

/-- What the record holds after these attempts. -/
def held (rounds : ℕ → Round A) (xs : List (Execution A)) : Option SearchResult :=
  (evidenceOf rounds .rerun xs).or (evidenceOf rounds .original xs)

/-- **One attempt more.** -/
theorem held_snoc (h : Unsearched rounds (xs ++ [x]))
    (horiginal : x.branch = .original → ∀ y ∈ xs, y.branch = .original) :
    held rounds (xs ++ [x]) = (rounds (x.number - 1)).result.search.or (held rounds xs) := by
  rw [held, held, evidenceOf_snoc, evidenceOf_snoc]
  cases hrepair : x.call.repair with
  | some repair => simp [h x (by simp) (by simp [hrepair])]
  | none =>
    cases hbranch : x.branch with
    | rerun => simp [Option.or_assoc]
    | original =>
      have hnone : evidenceOf rounds .rerun xs = none :=
        evidenceOf_eq_none fun y hy => by simp [horiginal hbranch y hy]
      simp [hnone]

variable [Amounts A] {o : Opening A} {s : State A} {n : ℕ}

namespace Planned

/-- The loop, with the evidence the record holds. -/
structure Holding (inv : Invocation A) (rounds : ℕ → Round A) (n : ℕ) (s : State A) : Prop where
  path : OnPath inv s
  attempt : s.attempt = n
  held : Unsearched rounds (executions s.run.actions) →
    s.run.record.search = held rounds (executions s.run.actions)

theorem Holding.attempted (h : Holding inv rounds n s) {xs : List (Execution A)}
    (hxs : xs = executions s.run.actions ++ [execution inv s (rounds n)])
    (hplain : Unsearched rounds xs) :
    (tried inv s (rounds n)).run.record.search = Runtime.held rounds xs := by
  subst hxs
  have hwas := h.held fun x hx => hplain x (mem_append_left _ hx)
  have hnumber : (execution inv s (rounds n)).number - 1 = n := h.attempt
  rw [held_snoc hplain h.path.original, tried_search, hwas, hnumber]

theorem Holding.next {s' : State A} (h : Holding inv rounds n s)
    (hmoves : Moves inv s (rounds n) (.next s')) : Holding inv rounds (n + 1) s' := by
  have hpath := h.path.next hmoves
  cases hmoves with
  | retried left failure retryable syntactic actions accumulator search =>
    refine ⟨hpath, congrArg (· + 1) h.attempt, ?_⟩
    dsimp only
    rw [actions, search]
    exact h.attempted executions_tried
  | advanced hash looked left failure semantic prepared ready consults actions accumulator search =>
    refine ⟨hpath, congrArg (· + 1) h.attempt, ?_⟩
    rw [search]
    exact h.attempted (executions_advanced prepared consults.lookups actions)

end Planned

/-- **What an answer carries**: a cached one its own evidence, the last
attempt's that of its branch's generation, unless this returned none and
the original one did. -/
def Attributed (o : Opening A) (rounds : ℕ → Round A) (record : CallRecord A)
    (xs : List (Execution A)) : Prop :=
  (∃ cached, (o.cached = .ok (some cached) ∨ ∃ n, (rounds n).cached = .ok (some cached))
      ∧ Serves record cached)
    ∨ ∃ x ∈ xs.getLast?, x.failure = none ∧ (Unsearched rounds xs →
      (record.search = evidenceOf rounds x.branch xs
        ↔ (evidenceOf rounds x.branch xs).isSome ∨ evidenceOf rounds .original xs = none))

namespace Planned

omit [Amounts A] in
theorem admitted_search {run : RunState A} {r : Round A} {w : PlannedWork A}
    {result : ProviderResult A} {number : ℕ} :
    (admitted inv run r w result number).record.search = result.search.or run.record.search := by
  unfold admitted
  dsimp only
  split
  · rfl
  · split <;> rfl

theorem Holding.stop {stop : Stop A} (h : Holding inv rounds n s)
    (hmoves : Moves inv s (rounds n) (.stop stop)) (herr : stop.err = none) :
    Attributed o rounds stop.run.record (executions stop.run.actions) := by
  cases hmoves with
  | unattempted | interrupted | terminal | gaveUp | stalled => cases herr
  | served left failure semantic prepared ready reruns keyed answer admitted serves =>
    exact .inl ⟨_, .inr ⟨n, answer⟩, serves⟩
  | accepted allowed sound =>
    dsimp only
    rw [executions_admitted]
    refine .inr ⟨execution inv s (rounds n), by simp [executions_tried], sound, fun hplain => ?_⟩
    have hsearch := h.attempted executions_tried hplain
    have hown : (tried inv s (rounds n)).result.search.or (tried inv s (rounds n)).run.record.search
        = (tried inv s (rounds n)).run.record.search := by
      rw [tried_search, tried_result, settled_search, or_or_self]
    rw [admitted_search, hown, hsearch, Runtime.held]
    have horiginal := h.path.original_tried (rounds n)
    generalize executions (tried inv s (rounds n)).run.actions = xs at horiginal ⊢
    change _ = evidenceOf rounds s.work.branch xs ↔ (evidenceOf rounds s.work.branch xs).isSome ∨ _
    cases hbranch : s.work.branch with
    | original =>
      have hnone : evidenceOf rounds .rerun xs = none :=
        evidenceOf_eq_none fun y hy => by simp [horiginal hbranch y hy]
      cases evidenceOf rounds .original xs <;> simp [hnone]
    | rerun => cases evidenceOf rounds .rerun xs <;> simp

/-- **Whose evidence an answer carries.** The cache is given what the
answer carries. -/
theorem evidence_attributed (inv : Invocation A) (o : Opening A) (rounds : ℕ → Round A) :
    ∃ e, executeRecoveryPlan inv o rounds = some e
      ∧ (∀ hash version cached, .store hash version cached ∈ e.actions →
        cached.providerResult.search = e.record.search)
      ∧ (e.err = none → Attributed o rounds e.record (executions e.actions)) := by
  obtain ⟨e, he⟩ := run_returns inv o rounds
  refine ⟨e, he, fun _ _ _ hs => ((run_stored he hs).2.2).search.symm, fun herr => ?_⟩
  refine run_rule (Q := fun e => e.err = none → Attributed o rounds e.record (executions e.actions))
    (Holding inv rounds) ?_ ?_ ?_ ?_ ?_ he herr
  · exact fun _ _ hnone => by cases hnone
  · intro stop hstarts hnone
    cases hstarts with
    | failed => cases hnone
    | served prepared keyed answer admitted serves =>
      exact .inl ⟨_, .inl answer, { serves with }⟩
  · intro s hstarts
    cases hstarts with
    | ready hash looked valid prepared consults actions accumulator search =>
      refine ⟨onPath_ready prepared consults.lookups actions, rfl, fun _ => ?_⟩
      rw [search, actions, executions_generation consults.lookups]
      rfl
  · exact fun n s s' h hmoves => h.next hmoves
  · intro n s stop h hmoves hnone
    rw [close_actions]
    obtain ⟨cached, hcached, serves⟩ | hlast := h.stop hmoves hnone
    · exact .inl ⟨cached, hcached, { serves with }⟩
    · exact .inr hlast

end Planned

namespace Sample

/-- No repair of the original, one of the rerun; a draft is refused. -/
def rerunning : Invocation ℤ where
  connection := connection
  credential := ⟨"key", []⟩
  call := { call with validateStructured := some fun
    | .text "draft" => some (.plain "schema")
    | _ => none }
  policy.maxAttempts := 3
  policy.retryOn := some []
  policy.backoff := ⟨0, 0⟩
  policy.rerun := some ⟨{ source := .model, modelID := "m" }, repairing.jsonRepair⟩
  parseURL := fun _ => none

/-- Evidence that found nothing. -/
def empty : SearchResult := { unlisted with sources := some [] }

/-- The original searched and answers with a draft; the answer of the
rerun does not parse, and is repaired. -/
def strayed : ℕ → Round ℤ
  | 0 => round { accounting := emptyLedger, output := .text "draft", search := some empty } none
  | 1 => round { accounting := emptyLedger } (some unparsed)
  | n => repaired n

end Sample

open Sample

/-- The rerun's answer carries the evidence of the original. -/
theorem original_evidence_attached : (executeRecoveryPlan rerunning opening strayed).map (fun e =>
    (e.err.isNone, (executions e.actions).map (·.branch), e.record.search,
      evidenceOf strayed .rerun (executions e.actions)))
    = some (true, [.original, .rerun, .rerun], some empty, none) := by
  decide +kernel

end HardenLlm.Runtime
