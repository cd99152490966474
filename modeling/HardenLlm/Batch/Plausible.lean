import HardenLlm.Batch.Replay
/-!
# What the rows of a ledger can show

A pool sees its permits only through rows. Whatever happens to the ledger,
a row is well formed, a permit that is settled without a claim was never
dispatched, and the kind and the admission of an outcome agree, since they
were read off one answer.
-/

namespace HardenLlm.Batch

variable {H : Hashes} {size : AttemptObservation → ℕ} {db : DB} {id : String} {a a' : Attempt}

/-- **A row the ledger can show.** -/
structure Attempt.Plausible (a : Attempt) : Prop where
  named : a.permitID ≠ ""
  wellFormed : a.WellFormed
  unclaimed : a.claimedAt = none → ∀ o, a.observation = some o → o.outcome.kind = .neverDispatched
  consistent : ∀ o, a.observation = some o → o.outcome.Consistent

theorem Attempt.WellFormed.settled_of_unclaimed (hw : a.WellFormed) (hclaim : a.claimID = "")
    (htaken : a.state ≠ .reserved) : a.state = .settled := by
  cases hs : a.state with
  | reserved => exact absurd hs htaken
  | dispatching => exact absurd hclaim (hw.dispatching hs)
  | settled => rfl

/-- Nothing is said of an unclaimed permit but that it lapsed. -/
def Attempt.LapsesUnsent (a : Attempt) : Prop :=
  a.claimID = "" → ∀ o, a.observation = some o → o.outcome = { kind := .neverDispatched }

theorem Attempt.New.lapsesUnsent (h : a.New) : a.LapsesUnsent := by
  cases h with
  | reserved => exact fun _ o ho => nomatch ho
  | lapsed =>
    rintro - o ⟨⟩
    rfl

theorem RowStep.lapsesUnsent (h : RowStep size a a') (hw : a.WellFormed) : a'.LapsesUnsent := by
  cases h with
  | claim _ _ hne => exact fun hc => absurd hc hne
  | dispatch hs => exact fun hc => absurd hc (hw.dispatching hs)
  | stage _ htaken hob =>
    exact fun hc => absurd hob (hw.settled (hw.settled_of_unclaimed hc htaken)).1
  | settle _ hs => exact fun hc => absurd hc (hw.dispatching hs)
  | lapse =>
    rintro - o ⟨⟩
    rfl
  | stop hclaimed => exact fun hc => absurd hc hclaimed

/-- Every permit of a ledger has a name, and an unclaimed one lapses. -/
theorem named_of_reach (h : (ledger size).Reach db) (ha : db.attempts.get? id = some a) :
    a.permitID ≠ "" ∧ a.LapsesUnsent := by
  refine h.invariant (P := fun db => ∀ id a, db.attempts.get? id = some a →
    a.permitID ≠ "" ∧ a.LapsesUnsent) ?_ ?_ id a ha
  · rintro _ rfl id a ha
    cases ha
  · rintro db db' hr ih ⟨op, c, hexec⟩ id a ha
    have heffect := Op.exec_effect hexec
    constructor
    · rcases heffect.origin ha with ⟨b, hb, hres, -⟩ | ⟨r, -, hwf, hid, hres, -⟩ <;> rw [hres]
      · exact (ih id b hb).1
      · exact validPermitID_ne_empty hwf.1
    · rcases heffect.row id with hsame | ⟨-, b, hb, hnew, -⟩ | ⟨b, b', hb, hb', hstep⟩
      · exact (ih id a (hsame ▸ ha)).2
      · obtain rfl := Option.mem_unique hb ha
        exact hnew.lapsesUnsent
      · obtain rfl := Option.mem_unique hb' ha
        exact hstep.lapsesUnsent (wellFormed_of_reach hr hb)

variable {s : Workers}

/-- **Every row of a ledger its workers write to is plausible.** -/
theorem plausible_of_row (hr : (workers H size).Reach s) (ha : s.db.attempts.get? id = some a) :
    a.Plausible := by
  have hledger := workers_ledger hr
  have hw := wellFormed_of_reach hledger ha
  obtain ⟨hnamed, hlapse⟩ := named_of_reach hledger ha
  refine ⟨hnamed, hw, ?_, ?_⟩
  · intro hc o ho
    have hclaim : a.claimID = "" := by_contra fun hne => (hw.claimed hne).1 hc
    rw [hlapse hclaim o ho]
  · intro o ho
    by_cases hclaim : a.claimID = ""
    · rw [hlapse hclaim o ho]
      exact .of_quiet rfl
    · exact (((truthful_of_reach hr).rows id a ha hclaim).observed o ho).consistent

/-- **So is every row that was read**, however long ago. -/
theorem plausible_of_read (hr : (workers H size).Reach s) (ha : a ∈ s.reads) : a.Plausible := by
  refine hr.invariant (P := fun s => ∀ a ∈ s.reads, a.Plausible) ?_ ?_ a ha
  · rintro s ⟨-, ⟨-, -, hreads⟩, -⟩ a ha
    have hreads : s.reads = [] := hreads
    simp [hreads] at ha
  · intro s s' hr ih hs
    cases hs with
    | read hrow =>
      rintro b (_ | ⟨_, hb⟩)
      · exact plausible_of_row hr hrow
      · exact ih b hb
    | _ => exact ih

/-- **What a row says of its permit stays true**, over any interleaving and
however late it was written: a call that was never dispatched is never
made, and one that stopped does not run again. -/
theorem rows_stay_true :
    (∀ s s' p a o, (workers H size).Reach s → (workers H size).Run s s' →
        s.db.attempts.get? p = some a → a.observation = some o →
        o.outcome.kind = .neverDispatched → ¬ s'.Entered p)
      ∧ ∀ s s' p a n kind, (workers H size).Reach s → (workers H size).Run s s' →
        s.db.attempts.get? p = some a → a.stoppedAt ≠ none → s'.flight n ≠ .inside kind p := by
  refine ⟨fun s s' p a o hr h ha ho hnever => ?_, fun s s' p a n kind hr h ha hstop hin => ?_⟩
  · have hw := wellFormed_of_reach (workers_ledger hr) ha
    by_cases hclaim : a.claimID = ""
    · refine unentered_of_lapsed hr h ha (hw.settled_of_unclaimed hclaim fun hs => ?_) hclaim
      cases ho.symm.trans (hw.reserved hs).2.1
    · have hrow := (truthful_of_reach hr).rows p a ha hclaim
      exact unentered_of_aborted hr h ha hclaim ((hrow.observed o ho).unsent hnever)
  · have htrue := truthful_of_reach (hr.run h)
    obtain ⟨hne, b, hb, rfl, -⟩ := htrue.entered n kind p (by rw [hin]; rfl)
    obtain ⟨b', hb', hlater⟩ := later_of_run (workers_ledger hr) (ledger_of_workers hr h) ha
    obtain rfl := Option.mem_unique hb hb'
    exact not_over_of_inside hin ((htrue.rows p b hb hne).stopped (hlater.stopKept hstop))

end HardenLlm.Batch
