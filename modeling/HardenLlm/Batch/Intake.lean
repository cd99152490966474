import HardenLlm.Batch.Model.Intake
import HardenLlm.Batch.Joint
import HardenLlm.Batch.Owners
/-!
# No grant is lost on its way to the ledger

A grant lives in the pool's state alone until `ReserveAttempt` has stored
it, so its owner must still be as `SelectReady` found it when that happens.
A waiting request is: only its own permit's reservation takes it, and one
that lapsed is stored as never sent. An item is too, as long as its job's
`Expire` does not come between: the items it fails cannot be reserved any
more, and their grants conflict for ever.
-/

namespace HardenLlm.Batch

open List Option PoolRun

variable {H : Hashes} {size : AttemptObservation → ℕ} {db db' : DB} {c : Clock} {op : Op}
  {pool : String} {generation : ℤ} {x : ReadyItem}

/-! ## Owners -/

/-- Whom a permit is for. -/
inductive Owner
  | item (ref : Ref)
  | request (id : String)

def ReadyItem.owner (x : ReadyItem) : Owner :=
  match x.kind with
  | .job => .item x.ref
  | .ordinary => .request x.requestID

def Reservation.owner (r : Reservation) : Owner := r.item.owner

/-- **The owner is as the page named it**, and holds no permit. -/
def Awaits (db : DB) (pool : String) (generation : ℤ) (x : ReadyItem) : Prop :=
  match x.kind with
  | .job => ∃ i j, db.items.get? x.ref = some i ∧ i.Idle ∧ db.jobs.get? x.ref.job = some j
      ∧ j.poolID ≠ "" ∧ j.poolID = pool ∧ x.deadline ≤ j.deadline
      ∧ 0 < generationBudget i.request ∧ x.budgetMS = milliseconds (generationBudget i.request)
  | .ordinary => ∃ w, db.waiters.get? x.requestID = some w ∧ w.permitID = "" ∧ w.poolID = pool
      ∧ w.generation = generation ∧ w.scope = x.ref.scope ∧ w.budgetMS = x.budgetMS
      ∧ w.deadline = x.deadline

/-- **What takes a waiting owner away**: a reservation of the pool for it,
or its job's `Expire`. -/
inductive Takes (db db' : DB) (pool : String) (x : ReadyItem) : Op → Prop
  | reserve {r : Reservation} (owner : r.owner = x.owner) (poolID : r.poolID = pool)
      (absent : db.attempts.get? r.permitID = none) (stored : db'.attempts.get? r.permitID ≠ none) :
      Takes db db' pool x (.reserveAttempt r)
  | expire {scope id : String} (kind : x.kind = .job) (job : x.ref.job = (scope, id)) :
      Takes db db' pool x (.expire scope id)

/-- An idle item stays as it is, unless it is reserved or expires. -/
theorem Effect.idleItem {i : ItemRow} {j : JobRow} (h : Effect size c db db' op)
    (hk : x.kind = .job) (hi : db.items.get? x.ref = some i) (hidle : i.Idle)
    (hj : db.jobs.get? x.ref.job = some j) (hne : j.poolID ≠ "") :
    db'.items.get? x.ref = some i ∨ Takes db db' j.poolID x op := by
  cases h.itemEffect x.ref with
  | same h => exact .inl (h.trans hi)
  | created _ hnone => simp [hi] at hnone
  | expired hb he =>
    obtain rfl := mem_unique hb hi
    have hkey := Table.key_of_get? hi
    simp only [ItemRow.expirable, Bool.and_eq_true, decide_eq_true_eq] at he
    exact .inr (.expire hk (hkey ▸ he.1.1))
  | @reserved r b j' a hkind href hres =>
    have hjob := hres.job
    rw [← href] at hjob
    obtain rfl := mem_unique hj hjob
    have hfree := hres.attempts.free
    have hself := hres.attempts.get_self
    have hid : a.permitID = r.permitID := by rw [hres.row]; rfl
    rw [hid] at hfree hself
    refine .inr (.reserve ?_ (hres.pool.resolve_left hne).symm hfree (by simp [hself]))
    simp [Reservation.owner, Reservation.item, ReadyItem.owner, hkind, hk, href]
  | dispatched hb hactive =>
    obtain rfl := mem_unique hb hi
    simp [ItemRow.Idle, hactive, ItemState.open] at hidle
  | released _ _ _ href _ hcur _ hrep =>
    obtain rfl := Option.some.inj (hrep.old.symm.trans (href ▸ hi))
    simp [hidle.2] at hcur

/-- A waiter without a permit stays without one, unless it is reserved. -/
theorem Effect.freeWaiter {w : RequestWaiter} (h : Effect size c db db' op)
    (hk : x.kind = .ordinary) (hw : db.waiters.get? x.requestID = some w) (hfree : w.permitID = "") :
    (∃ w', db'.waiters.get? x.requestID = some w' ∧ w.Later w' ∧ w'.permitID = "")
      ∨ Takes db db' w.poolID x op := by
  obtain hsame | ⟨hnone, -⟩ | ⟨v, v', hv, hv', hstep, hsame | ⟨habsent, a, ha, hkind, hreq⟩⟩ :=
    h.waiter x.requestID
  · exact .inl ⟨w, hsame.trans hw, .refl w, hfree⟩
  · rw [hw] at hnone
    cases hnone
  · obtain rfl := mem_unique hw hv
    exact .inl ⟨v', hv', hstep.later, hsame.trans hfree⟩
  · -- the permit's row is new, so this is its reservation
    refine .inr ?_
    obtain ⟨b, hb, -⟩ | ⟨r, rfl, -, hid, hres, ⟨i, j, hjob, -⟩ | ⟨u, hord, hcommit⟩⟩ := h.origin ha
    · rw [habsent] at hb
      cases hb
    · rw [hres] at hkind
      have : r.kind = .ordinary := hkind
      rw [hjob] at this
      cases this
    · rw [hres] at hreq
      have hreq : r.requestID = x.requestID := hreq
      have hu := hcommit.waiter
      rw [hreq] at hu
      obtain rfl := mem_unique hw hu
      refine .reserve ?_ hcommit.matches_.1.symm (hid ▸ habsent) (by rw [hid, ha]; simp)
      simp [Reservation.owner, Reservation.item, ReadyItem.owner, hord, hk, hreq]

/-- **A waiting owner keeps waiting**, unless it is taken away. -/
theorem Awaits.effect (h : Effect size c db db' op) (hx : Awaits db pool generation x) :
    Awaits db' pool generation x ∨ Takes db db' pool x op := by
  cases hk : x.kind with
  | job =>
    simp only [Awaits, hk] at hx ⊢
    obtain ⟨i, j, hi, hidle, hj, hne, rfl, hdl, hbudget⟩ := hx
    refine (h.idleItem hk hi hidle hj hne).imp_left fun hi' => ?_
    obtain ⟨j', hj', hdl', hpool'⟩ := h.jobs x.ref.job j hj
    have hpool := hpool' hne
    exact ⟨i, j', hi', hidle, hj', hpool ▸ hne, hpool, by omega, hbudget⟩
  | ordinary =>
    simp only [Awaits, hk] at hx ⊢
    obtain ⟨w, hw, hfree, rfl, hgen, hscope, hbudget, hdl⟩ := hx
    refine (h.freeWaiter hk hw hfree).imp_left fun hnext => ?_
    obtain ⟨w', hw', hlater, hfree'⟩ := hnext
    obtain ⟨h₁, h₂, h₃, -, h₅, h₆⟩ := hlater.request
    exact ⟨w', hw', hfree', h₁, h₂.trans hgen, h₃.trans hscope, h₅.trans hbudget, h₆.trans hdl⟩

/-! ## The promises of a pool -/

variable {s s' : Intake} {r : Reservation}

/-- Granted, and not in the ledger yet. -/
def Joint.Unreserved (s : Joint) (r : Reservation) : Prop :=
  r ∈ s.run.granted ∧ s.db.attempts.get? r.permitID = none

/-- The owner is waiting for this pool. -/
def Joint.Serves (s : Joint) (x : ReadyItem) : Prop :=
  Awaits s.db s.run.pool.poolID s.run.pool.generation x

def QueueSelection.Excludes (q : QueueSelection) : Owner → Prop
  | .item ref => ref ∈ q.exclude
  | .request id => id ∈ q.excludeRequests

/-- **Every unreserved grant is for an owner of its own that still waits**,
and so is everything the pool may yet grant. -/
structure Promised (s : Intake) : Prop where
  now : 0 ≤ s.run.now
  timed : ∀ r ∈ s.run.granted, 0 < r.deadline
  distinct : ∀ r r', s.Unreserved r → s.Unreserved r' → r.owner = r'.owner → r = r'
  nodup : (s.ready.map ReadyItem.owner).Nodup
  disjoint : ∀ x ∈ s.ready, ∀ r, s.Unreserved r → r.owner ≠ x.owner
  asked : ∀ q, s.asked = some q → s.ready = [] ∧ q.poolID = s.run.pool.poolID
    ∧ q.generation = s.run.pool.generation ∧ ∀ r, s.Unreserved r → q.Excludes r.owner
  granted : ∀ r, s.Unreserved r → s.Serves r.item
  ready : ∀ x ∈ s.ready, s.run.now < x.deadline → s.Serves x

/-- A grant without a row is still among the start intents. -/
theorem Accounted.unreserved {s : Joint} (ha : Accounted s) (h : s.Unreserved r) :
    r ∈ s.run.pool.startIntents := by
  refine (ha.intents r h.1).resolve_right ?_
  rintro ⟨a, hrow⟩
  rw [h.2] at hrow
  cases hrow

/-- The pool's question names every grant that has no row. -/
theorem Accounted.excludes {s : Joint} (ha : Accounted s) (h : s.Unreserved r) :
    s.run.pool.selection.Excludes r.owner := by
  have hmem := ha.unreserved h
  unfold Reservation.owner Reservation.item ReadyItem.owner
  dsimp only
  cases hk : r.kind with
  | job | ordinary => exact mem_map.2 ⟨r, mem_filter.2 ⟨hmem, by simp [hk]⟩, rfl⟩

namespace Promised

/-- Without a grant, the pool's steps change no promise. -/
theorem idle {act : PoolAct} {run : PoolRun} {ready : List ReadyItem} (h : Promised s)
    (hidle : s.run.Idles act run) (hnow : s.run.now ≤ run.now) (hsub : ready.Sublist s.ready) :
    Promised { s with run := run, ready := ready } := by
  have hun : ∀ r, Joint.Unreserved { s.toJoint with run := run } r → s.Unreserved r := by
    rintro r ⟨hr, hnone⟩
    exact ⟨hidle.granted ▸ hr, hnone⟩
  have hserves : ∀ x, s.Serves x → Joint.Serves { s.toJoint with run := run } x := by
    intro x hx
    unfold Joint.Serves
    dsimp only
    rw [hidle.keeps.poolID, hidle.keeps.generation]
    exact hx
  refine ⟨Int.le_trans h.now hnow, ?_, ?_, (hsub.map _).nodup h.nodup, ?_, ?_, ?_, ?_⟩
  · dsimp only
    rw [hidle.granted]
    exact h.timed
  · exact fun r r' hr hr' => h.distinct r r' (hun r hr) (hun r' hr')
  · exact fun x hx r hr => h.disjoint x (hsub.subset hx) r (hun r hr)
  · intro q hq
    obtain ⟨hempty, hpool, hgen, hex⟩ := h.asked q hq
    rw [hempty, sublist_nil] at hsub
    exact ⟨hsub, hpool.trans hidle.keeps.poolID.symm, hgen.trans hidle.keeps.generation.symm,
      fun r hr => hex r (hun r hr)⟩
  · exact fun r hr => hserves _ (h.granted r (hun r hr))
  · intro x hx hlt
    exact hserves _ (h.ready x (hsub.subset hx) (Int.lt_of_le_of_lt hnow hlt))

/-- **A grant is a promise to the first item offered.** -/
theorem grant {t : ℤ} {item : ReadyItem} {rest : List ReadyItem} {run : PoolRun} (h : Promised s)
    (hoffered : s.ready = item :: rest) (hnow : s.run.now ≤ t)
    (hgrows : s.run.Grows H t item run) (hrun : run.now = t) :
    Promised { s with run := run, ready := rest } := by
  obtain ⟨⟨p, hg, hgranted⟩, -⟩ := hgrows
  have hk : s.run.pool.Keeps (fun _ => False) (fun _ => False) (s.run.pool.refreshWindow t) :=
    PoolState.keeps_refreshWindow _ _
  have hpool : run.pool.poolID = s.run.pool.poolID := by
    rw [hg.state]
    exact hk.poolID
  have hgen : run.pool.generation = s.run.pool.generation := by
    rw [hg.state]
    exact hk.generation
  obtain ⟨-, -, -, -, howner, -, -, hlt⟩ := hg.valid
  have hitem : p.item = { item with readyAt := 0 } := by
    rw [hg.made]
    unfold Reservation.item PoolState.reservationFor
    dsimp only
    cases hkind : item.kind with
    | job =>
      rw [hkind] at howner
      simp [howner.2.2.2]
    | ordinary => rfl
  have hpowner : p.owner = item.owner := by
    rw [Reservation.owner, hitem]
    rfl
  have hmem : item ∈ s.ready := hoffered ▸ mem_cons_self
  have hnodup := h.nodup
  rw [hoffered, map_cons, nodup_cons] at hnodup
  have hun : ∀ r, Joint.Unreserved { s.toJoint with run := run } r → s.Unreserved r ∨ r = p := by
    rintro r ⟨hr, hnone⟩
    dsimp only at hr
    rw [hgranted, mem_append, mem_singleton] at hr
    exact hr.imp_left fun hr => ⟨hr, hnone⟩
  have hserves : ∀ x, s.Serves x → Joint.Serves { s.toJoint with run := run } x := by
    intro x hx
    unfold Joint.Serves
    dsimp only
    rw [hpool, hgen]
    exact hx
  have hlater := h.now
  refine ⟨by dsimp only; omega, ?_, ?_, hnodup.2, ?_, ?_, ?_, ?_⟩
  · intro r hr
    dsimp only at hr
    rw [hgranted, mem_append, mem_singleton] at hr
    obtain hr | rfl := hr
    · exact h.timed r hr
    · have hdl : r.deadline = item.deadline := by rw [hg.made]; rfl
      omega
  · -- no unreserved grant is for the item, or the page would not have offered it
    intro r r' hr hr' heq
    obtain hr | rfl := hun r hr <;> obtain hr' | rfl := hun r' hr'
    · exact h.distinct r r' hr hr' heq
    · exact absurd (heq.trans hpowner) (h.disjoint item hmem r hr)
    · exact absurd (heq.symm.trans hpowner) (h.disjoint item hmem r' hr')
    · rfl
  · intro y hy r hr
    obtain hr | rfl := hun r hr
    · exact h.disjoint y (hoffered ▸ mem_cons_of_mem _ hy) r hr
    · rw [hpowner]
      exact fun heq => hnodup.1 (heq ▸ mem_map_of_mem hy)
  · intro q hq
    rw [(h.asked q hq).1] at hoffered
    cases hoffered
  · intro r hr
    obtain hr | rfl := hun r hr
    · exact hserves _ (h.granted r hr)
    · rw [hitem]
      exact hserves _ (h.ready item hmem (by omega))
  · intro y hy hlt
    refine hserves _ (h.ready y (hoffered ▸ mem_cons_of_mem _ hy) ?_)
    dsimp only at hlt
    omega

/-- **A transaction takes no owner away but by reserving its grant.** -/
theorem exec (h : Promised s) (ha : Accounted s.toJoint) (hoffer : s.Offers op)
    (hclear : s.Clear op) (hexec : op.exec size c s.db = .ok db') :
    Promised { s with db := db' } := by
  have heffect := Op.exec_effect hexec
  have hun : ∀ r, Joint.Unreserved { s.toJoint with db := db' } r → s.Unreserved r := by
    rintro r ⟨hr, hnone⟩
    refine ⟨hr, ?_⟩
    cases hold : s.db.attempts.get? r.permitID with
    | none => rfl
    | some =>
      obtain ⟨a', ha', -⟩ := heffect.reservation hold
      dsimp only at hnone
      rw [ha'] at hnone
      cases hnone
  -- a reservation that takes an owner away was an unreserved grant for it
  have htaken : ∀ {r₀ : Reservation}, op = .reserveAttempt r₀ → r₀.poolID = s.run.pool.poolID →
      s.db.attempts.get? r₀.permitID = none → s.Unreserved r₀ := by
    rintro r₀ rfl hpool hnone
    exact ⟨hoffer.2 hpool, hnone⟩
  refine ⟨h.now, h.timed, ?_, h.nodup, ?_, ?_, ?_, ?_⟩
  · exact fun r r' hr hr' => h.distinct r r' (hun r hr) (hun r' hr')
  · exact fun x hx r hr => h.disjoint x hx r (hun r hr)
  · intro q hq
    obtain ⟨hempty, hpool, hgen, hex⟩ := h.asked q hq
    exact ⟨hempty, hpool, hgen, fun r hr => hex r (hun r hr)⟩
  · intro r hr
    refine ((h.granted r (hun r hr)).effect heffect).resolve_right fun htakes => ?_
    cases htakes with
    | @reserve r₀ howner hpool hnone hstored =>
      obtain rfl := h.distinct r₀ r (htaken rfl hpool hnone) (hun r hr) howner
      exact hstored hr.2
    | expire hkind hjob =>
      have hrow := hclear.1 r (ha.unreserved (hun r hr)) hkind hjob
      rw [(hun r hr).2] at hrow
      cases hrow
  · intro x hx hlt
    refine ((h.ready x hx hlt).effect heffect).resolve_right fun htakes => ?_
    cases htakes with
    | reserve howner hpool hnone => exact h.disjoint x hx _ (htaken rfl hpool hnone) howner
    | expire hkind hjob =>
      have hover := hclear.2 x hx hkind hjob
      dsimp only at hlt
      omega

end Promised

/-! ## Pages -/

section Pages

variable {q : QueueSelection} {now : ℤ}

theorem mem_candidates : x ∈ q.candidates db now ↔
    (∃ i ∈ db.items.rows, ∃ j, db.jobs.get? i.ref.job = some j ∧ q.admitsItem now i j
        ∧ i.ready j = x)
      ∨ ∃ w ∈ db.waiters.rows, q.admitsRequest now w ∧ w.ready = x := by
  simp only [QueueSelection.candidates, mem_append, mem_filterMap, bind_eq_some_iff,
    ite_none_right_eq_some, Option.some.injEq, List.mem_map, mem_filter,
    decide_eq_true_eq, and_assoc]

/-- **What a page offers waits**, and was not excluded. -/
theorem awaits_of_candidate (hq : q.poolID ≠ "") (hx : x ∈ q.candidates db now) :
    Awaits db q.poolID q.generation x ∧ ¬ q.Excludes x.owner := by
  obtain ⟨i, hi, j, hj, ⟨hopen, hfree, hex, hpool, -, hbudget⟩, rfl⟩
    | ⟨w, hw, ⟨hpool, hgen, -, -, -, hfree, hex, -, -⟩, rfl⟩ := mem_candidates.1 hx
  · refine ⟨⟨i, j, Table.get?_of_mem hi, ⟨hopen, hfree⟩, hj, hpool ▸ hq, hpool, Int.le_refl _,
      hbudget, rfl⟩, hex⟩
  · exact ⟨⟨w, Table.get?_of_mem hw, hfree, hpool, hgen, rfl, rfl, rfl⟩, hex⟩

/-- An owner is a candidate once. -/
theorem candidate_of_owner {y : ReadyItem} (hx : x ∈ q.candidates db now)
    (hy : y ∈ q.candidates db now) (h : x.owner = y.owner) : x = y := by
  obtain ⟨i, hi, j, hj, -, rfl⟩ | ⟨w, hw, -, rfl⟩ := mem_candidates.1 hx <;>
    obtain ⟨i', hi', j', hj', -, rfl⟩ | ⟨w', hw', -, rfl⟩ := mem_candidates.1 hy
  · have href : i.ref = i'.ref := Owner.item.inj h
    have hrow : i = i' := inj_on_of_nodup_map db.items.nodup hi hi' href
    subst hrow
    obtain rfl := mem_unique hj hj'
    rfl
  · cases h
  · cases h
  · have hid : w.requestID = w'.requestID := Owner.request.inj h
    rw [inj_on_of_nodup_map db.waiters.nodup hw hw' hid]

/-- **A page keeps the promises**: it offers no owner of an unreserved
grant, and no owner twice. -/
theorem Promised.page {page : List ReadyItem} (h : Promised s) (hasked : s.asked = some q)
    (hpage : q.Selects s.db now page) : Promised { s with asked := none, ready := page } := by
  obtain ⟨-, hpool, hgen, hex⟩ := h.asked q hasked
  obtain ⟨hwf, -, hnodup, -, hsub⟩ := hpage
  have hname : q.poolID ≠ "" := by
    intro hempty
    have hvalid := hwf.1
    rw [hempty] at hvalid
    exact absurd hvalid (by decide)
  refine ⟨h.now, h.timed, h.distinct, ?_, ?_, nofun, h.granted, ?_⟩
  · exact hnodup.map_on fun y hy y' hy' => candidate_of_owner (hsub y hy) (hsub y' hy')
  · intro y hy r hr heq
    exact (awaits_of_candidate hname (hsub y hy)).2 (heq ▸ hex r hr)
  · intro y hy _
    unfold Joint.Serves
    rw [← hpool, ← hgen]
    exact (awaits_of_candidate hname (hsub y hy)).1

end Pages

variable {clear : Intake → Op → Prop}

/-- **Every step is one of the pool and its ledger**, or none. -/
theorem intake_joint : (intake H size clear).Simulates (joint H size) Intake.toJoint := by
  refine ⟨fun s h => h.1, ?_⟩
  intro s s' _ hs
  cases hs with
  | act t act hlater hact => exact .inr (.act t act hlater hact)
  | read hrow => exact .inr (.read hrow)
  | exec op c hoffer _ hexec => exact .inr (.exec op c hoffer hexec)
  | ask | page | forget => exact .inl rfl
  | grant t hlater => exact .inr (.act t (.grant _) hlater trivial)

theorem Promised.step (h : Promised s) (ha : Accounted s.toJoint)
    (hs : IntakeStep H size Intake.Clear s s') : Promised s' := by
  cases hs with
  | act t act hlater _ hother =>
    obtain hidle | ⟨item, hgrant, -⟩ := act_cases (H := H) s.run t act
    · exact h.idle hidle (by rw [act_now]; exact hlater) (.refl _)
    · exact absurd hgrant (hother item)
  | read => exact { h with }
  | exec op c hoffer hclear hexec => exact h.exec ha hoffer hclear hexec
  | ask _ hempty =>
    refine { h with asked := ?_ }
    intro q hq
    obtain rfl := Option.some.inj hq
    exact ⟨hempty, rfl, rfl, fun r hr => ha.excludes hr⟩
  | page now hasked hpage => exact h.page hasked hpage
  | forget =>
    exact ⟨h.now, h.timed, h.distinct, nodup_nil, nofun, nofun, h.granted, nofun⟩
  | @grant t item rest hlater hoffered =>
    have hnow := act_now (H := H) s.run t (.grant item)
    obtain hrefused | hgrows := act_grant (H := H) s.run t item
    · rw [hrefused]
      obtain hidle | ⟨_, hgrant, -⟩ := act_cases (H := H) s.run t .refresh
      · exact h.idle hidle hlater (hoffered ▸ sublist_cons_self item rest)
      · cases hgrant
    · exact h.grant hoffered hlater hgrows hnow

theorem promised_of_reach (hr : (intake H size Intake.Clear).Reach s) : Promised s := by
  refine hr.invariant (P := Promised) ?_ ?_
  · rintro s ⟨⟨⟨pool, generation, policy, -, -, hgranted, -⟩, -⟩, hnow, hasked, hready⟩
    have hnone : ∀ r, ¬ s.Unreserved r := by
      rintro r ⟨hr, -⟩
      rw [hgranted] at hr
      cases hr
    refine ⟨hnow, by simp [hgranted], ?_, by simp [hready], by simp [hready], by simp [hasked], ?_,
      by simp [hready]⟩
    · exact fun r _ hr => absurd hr (hnone r)
    · exact fun r hr => absurd hr (hnone r)
  · intro s s' hr h hs
    exact h.step (accounted_of_reach (intake_joint.reach hr)) hs

/-! ## A promise can be kept -/

/-- **Nothing in the ledger stands in the way of an unreserved grant.** -/
theorem Accounted.noClash {s : Joint} (hr : (joint H size).Reach s) (h : s.Unreserved r)
    {a : Attempt} (hres : a.toReservation = r.stored)
    (hitem : r.kind = .job → ∃ i, s.db.items.get? r.ref = some i ∧ i.currentPermit = none
      ∧ a.ordinal = i.reservationOrdinal + 1)
    (hrequest : r.kind = .ordinary → ∃ w, s.db.waiters.get? r.requestID = some w
      ∧ w.permitID = "") : ∀ b ∈ s.db.attempts.rows, ¬ a.clashes b := by
  have hacc := accounted_of_reach hr
  have hledger := joint_ledger.reach hr
  have hpools := joint_pools.reach hr
  have hminted := minted_of_reach hpools
  have hsound := (sound_of_reach hpools).2 r h.1
  intro b hb hclash
  have hget := Table.get?_of_mem hb
  have hother : b.permitID ≠ r.permitID := by
    intro hid
    rw [hid, h.2] at hget
    cases hget
  obtain ⟨hworkflow, hgrant⟩ := hacc.rows _ b hget
  simp only [Attempt.clashes, hres] at hclash
  obtain hw | ⟨hpool, hseq⟩ | ⟨hk, hrk, href, hord⟩ | ⟨hk, hrk, -, -, hreq⟩ := hclash
  · -- a workflow is named after its permit
    have hname : b.workflowID = r.workflowID := hw
    rw [hworkflow, hsound.workflow] at hname
    exact hother (workflowFor_inj hname)
  · -- a sequence is granted once
    obtain ⟨p, hp, hstored⟩ := hgrant (hpool.trans (hminted.poolID r h.1))
    have hpseq : p.sequence = r.sequence := by
      rw [hstored] at hseq
      exact hseq
    have heq := hminted.eq_of_sequence hp h.1 hpseq
    exact hother (by rw [hstored, heq]; rfl)
  · obtain ⟨i, hi, hfree, hordinal⟩ := hitem hrk
    have href : b.ref = r.ref := href
    obtain hnum | hunsettled := hord
    · obtain ⟨i', hi', hle⟩ := (numbered_of_reach hledger).rows _ b hget hk
      rw [href] at hi'
      obtain rfl := mem_unique hi hi'
      omega
    · have hlease := lease_eq_some.2 ⟨b, hget, hk, hunsettled, href⟩
      obtain ⟨i', hi', hcur⟩ := holder_eq_some.1 ((leased_of_reach hledger _ _).2 hlease)
      obtain rfl := mem_unique hi hi'
      rw [hfree] at hcur
      cases hcur
  · obtain ⟨w, hw, hfree⟩ := hrequest hrk
    obtain ⟨hne, w', hw', hp⟩ := (attended_of_reach hledger).rows _ b hget hk
    have hreq : b.requestID = r.requestID := hreq
    rw [hreq] at hw'
    obtain rfl := mem_unique hw hw'
    exact hne (hp.symm.trans hfree)

/-- An insert that nothing stands in the way of. -/
theorem insertAttempt_ok {a : Attempt} (hfree : db.attempts.get? a.permitID = none)
    (hclash : ∀ b ∈ db.attempts.rows, ¬ a.clashes b) (hepoch : 0 ≤ a.epoch)
    (hwindow : 0 ≤ a.windowID) (hord : 0 < a.ordinal) : ∃ db₁, insertAttempt db a = .ok db₁ := by
  simp only [insertAttempt, require_seq, found_seq, pure_eq_ok]
  exact ⟨_, ⟨hclash, hepoch, hwindow, hord⟩, _, Table.insert?_eq_some.2 ⟨hfree, rfl⟩, rfl⟩

/-- **An item that waits is reserved.** -/
theorem reserveItem_ok {s : Joint} (hr : (joint H size).Reach s) (h : s.Unreserved r)
    (hk : r.kind = .job) (hdl : 0 < r.deadline) (hx : s.Serves r.item) :
    ∃ a db', reserveItem s.db r = .ok (a, db') ∧ a.state = .reserved := by
  have hledger := joint_ledger.reach hr
  have hsound := (sound_of_reach (joint_pools.reach hr)).2 r h.1
  have hpool := (minted_of_reach (joint_pools.reach hr)).poolID r h.1
  simp only [Joint.Serves, Awaits, Reservation.item, hk] at hx
  obtain ⟨i, j, hi, ⟨hopen, hfree⟩, hj, -, hjpool, hle, hbudget, hms⟩ := hx
  have hordinal := (numbered_of_reach hledger).items _ i hi
  have hsnap : reservationMatchesSnapshot r i.request j.deadline := ⟨hbudget, hms, by omega, hle⟩
  have hnoClash := Accounted.noClash hr h (a := r.row (i.reservationOrdinal + 1)) rfl
    (fun _ => ⟨i, hi, hfree, rfl⟩) (fun hord => by rw [hk] at hord; cases hord)
  obtain ⟨db₁, hins⟩ := insertAttempt_ok (a := r.row (i.reservationOrdinal + 1)) h.2 hnoClash
    hsound.epoch hsound.windowID (by change 0 < i.reservationOrdinal + 1; omega)
  simp only [reserveItem, bind_eq_ok, found_eq_ok, require_eq_ok, exists_const, pure_eq_ok,
    Prod.mk.injEq]
  exact ⟨_, _, ⟨i, hi, j, hj, hsnap, by simp [hfree], by simp [hjpool, hpool, hfree, hopen], db₁, hins,
    rfl, rfl⟩, rfl⟩

/-- **A request that waits is reserved**, or settled at once if it has
lapsed. -/
theorem reserveRequest_ok {s : Joint} (hr : (joint H size).Reach s) (h : s.Unreserved r)
    (hk : r.kind = .ordinary) (hx : s.Serves r.item) (c : Clock) :
    ∃ a db', reserveRequest s.db r c = .ok (a, db') ∧ (a.state = .reserved ∨ a.state = .settled
      ∧ ∃ o, a.observation = some o ∧ o.outcome.kind = .neverDispatched) := by
  have hattended := attended_of_reach (joint_ledger.reach hr)
  have hsound := (sound_of_reach (joint_pools.reach hr)).2 r h.1
  have hminted := minted_of_reach (joint_pools.reach hr)
  simp only [Joint.Serves, Awaits, Reservation.item, hk] at hx
  obtain ⟨w, hw, hfree, hpool, hgen, hscope, hbudget, hdl⟩ := hx
  obtain ⟨hord, hmicro⟩ := hattended.stored _ w hw
  have hmatches : requestMatchesReservation w r := by
    refine ⟨hpool.trans (hminted.poolID r h.1).symm, hgen.trans (hminted.generation r h.1).symm,
      hscope, Table.key_of_get? hw, hbudget, ?_⟩
    rw [← hdl, hmicro]
  have hres : (r.requestRow w.ordinal (w.lapsed c.guard) c.now).toReservation = r.stored := by
    unfold Reservation.requestRow
    split <;> rfl
  have hord' : (r.requestRow w.ordinal (w.lapsed c.guard) c.now).ordinal = w.ordinal := by
    unfold Reservation.requestRow
    split <;> rfl
  have hnoClash := Accounted.noClash hr h hres (fun hjob => by rw [hk] at hjob; cases hjob)
    (fun _ => ⟨w, hw, hfree⟩)
  obtain ⟨db₁, hins⟩ := insertAttempt_ok (by rw [hres]; exact h.2) hnoClash
    (by rw [hres]; exact hsound.epoch) (by rw [hres]; exact hsound.windowID)
    (by rw [hord']; omega)
  -- no other request can name a permit that has no row
  have hunnamed : ∀ v ∈ s.db.waiters.rows, v.requestID ≠ r.requestID → v.permitID ≠ r.permitID := by
    intro v hv _ hid
    have hne : v.permitID ≠ "" := by
      rw [hid]
      exact validPermitID_ne_empty hsound.wellFormed.1
    obtain ⟨a, ha⟩ := hattended.permits _ v (Table.get?_of_mem hv) hne
    rw [hid, h.2] at ha
    cases ha
  simp only [reserveRequest, readRequestWaiter, bind_eq_ok, found_eq_ok, require_eq_ok, exists_const,
    pure_eq_ok, Prod.mk.injEq]
  refine ⟨_, _, ⟨w, hw, ⟨hmatches, hfree⟩, db₁, hins, hunnamed, rfl, rfl⟩, ?_⟩
  unfold Reservation.requestRow
  split
  · exact .inr ⟨rfl, _, rfl, rfl⟩
  · exact .inl rfl

/-- **No grant is lost.** In every run in which no `Expire` commits while
an item of its job is granted without a row or offered in time, and while
the pool's generation is active, `ReserveAttempt` of every start intent
without a row succeeds: it stores the reservation, or stores it settled as
never dispatched. -/
theorem granted_permit_reserves (hr : (intake H size Intake.Clear).Reach s)
    (hintent : r ∈ s.run.pool.startIntents) (hnone : s.db.attempts.get? r.permitID = none)
    (hactive : PoolAdmits s.db s.run.pool.poolID s.run.pool.generation) (c : Clock) :
    ∃ a db', reserveAttempt s.db r c = .ok (a, db') ∧ (a.state = .reserved ∨ a.state = .settled
      ∧ ∃ o, a.observation = some o ∧ o.outcome.kind = .neverDispatched) := by
  have hjoint := intake_joint.reach hr
  have hminted := minted_of_reach (joint_pools.reach hjoint)
  have hmem := hminted.intents.subset hintent
  have hsound := (sound_of_reach (joint_pools.reach hjoint)).2 r hmem
  have hpromised := promised_of_reach hr
  have hun : s.Unreserved r := ⟨hmem, hnone⟩
  have hguard : guardPool s.db r.poolID r.generation = .ok () := by
    rw [guardPool_eq_ok, hminted.poolID r hmem, hminted.generation r hmem]
    exact hactive
  rw [reserveAttempt, require_bind_of_pos hsound.wellFormed, hguard]
  cases hk : r.kind with
  | job =>
    obtain ⟨a, db', hok, hstate⟩ := reserveItem_ok hjoint hun hk (hpromised.timed r hmem)
      (hpromised.granted r hun)
    refine ⟨a, db', ?_, .inl hstate⟩
    simp only [hnone]
    exact hok
  | ordinary =>
    obtain ⟨a, db', hok, hstate⟩ := reserveRequest_ok hjoint hun hk (hpromised.granted r hun) c
    refine ⟨a, db', ?_, hstate⟩
    simp only [hnone]
    exact hok

/-! ## A grant that `Expire` overtakes -/

/-- Transactions that may commit run as they do in the ledger. -/
theorem intake_of_execAll {script : List (Op × Clock)}
    (hoffer : ∀ s : Intake, ∀ e ∈ script, s.Offers e.1)
    (hclear : ∀ d, ∀ e ∈ script, clear { s with db := d } e.1)
    (hr : (intake H size clear).Reach s) (h : execAll size script s.db = .ok db') :
    (intake H size clear).Reach { s with db := db' } := by
  exact execAll_induction (P := fun d => (intake H size clear).Reach { s with db := d })
    (fun e he _ _ hd hx => hd.step (.exec e.1 e.2 (hoffer _ e he) (hclear _ e he) hx)) h hr

namespace Sample

/-- It grants the sample item one second before the deadline. -/
def granting : PoolRun := fresh.act hashes (1099 * second) (.grant readyItem)

/-- That grant. -/
def intent : Reservation := fresh.pool.reservationFor hashes (1099 * second) readyItem

theorem granting_intents : granting.pool.startIntents = [intent] := by decide +kernel

theorem granting_pool : granting.pool.poolID = "pool" ∧ granting.pool.generation = 2 := by
  decide +kernel

/-- The pool is active, and the sample permit has no row. -/
def pending (db : DB) : Bool :=
  (guardPool db "pool" 2).isOk && (db.attempts.get? intent.permitID).isNone

/-- So far, and the sample item is a candidate. -/
def selectable (db : DB) : Bool :=
  pending db && decide (readyItem ∈ fresh.pool.selection.candidates db (1000 * second))

/-- `Expire` fails the sample item, and its grant conflicts from then on. -/
def overtaken (db : DB) : Bool :=
  match expire db scope job with
  | .error _ => false
  | .ok db₁ => pending db₁
      && match reserveItem db₁ intent with
        | .error .conflict => true
        | _ => false

/-- Another job is submitted, and `Expire` ends it. -/
def otherExpires : List (Op × Clock) :=
  [(.create { submission with id := nonce, key := "other", keyHash := "other" }, clock 1000),
    (.expire scope nonce, clock 1100)]

end Sample

open Sample

/-- The sample item, offered and granted. -/
theorem Sample.granting_run (hclear : ∀ s, ∀ e ∈ submitted, clear s e.1)
    (hexec : execAll Sample.size submitted .empty = .ok db) (hdb : selectable db = true) :
    (intake hashes Sample.size clear).Reach ⟨⟨granting, db, []⟩, none, []⟩ := by
  simp only [selectable, pending, Bool.and_eq_true, decide_eq_true_eq] at hdb
  obtain ⟨⟨hguard, -⟩, hcandidate⟩ := hdb
  obtain ⟨u, hguard⟩ := exists_of_isOk hguard
  have hpage : fresh.pool.selection.Selects db (1000 * second) [readyItem] :=
    ⟨by decide +kernel, hguard, nodup_singleton _, by decide, by simpa using hcandidate⟩
  have hlater : fresh.now ≤ 1099 * second := by decide
  have hinit : (intake hashes Sample.size clear).Reach ⟨⟨fresh, .empty, []⟩, none, []⟩ :=
    .init ⟨⟨⟨"pool", 2, policy, by decide, rfl, rfl, rfl⟩, rfl, rfl⟩, by decide, rfl, rfl⟩
  have h₁ := intake_of_execAll (by simp [submitted, Joint.Offers]) (fun _ => hclear _) hinit hexec
  have h₂ := System.Reach.step h₁ (.ask rfl rfl)
  have h₃ := System.Reach.step h₂ (.page (1000 * second) rfl hpage)
  exact .step h₃ (.grant (1099 * second) hlater rfl)

/-- The sample pool is active in the database, and has the intent. -/
theorem Sample.granting_active (hguard : (guardPool db "pool" 2).isOk = true) :
    PoolAdmits db granting.pool.poolID granting.pool.generation := by
  obtain ⟨u, hguard⟩ := exists_of_isOk hguard
  rw [granting_pool.1, granting_pool.2]
  exact guardPool_eq_ok.1 hguard

theorem Sample.intent_mem : intent ∈ granting.pool.startIntents := by
  rw [granting_intents]
  exact mem_singleton.2 rfl

/-- **`Expire` overtakes a grant.** The item is granted one second before
its job's deadline and `Expire` commits before `ReserveAttempt` is called:
the intent stays, its permit has no row, and every call conflicts. -/
theorem granted_permit_conflicts :
    ∃ s r, (intake hashes Sample.size Intake.AnyTime).Reach s
      ∧ r ∈ s.run.pool.startIntents ∧ s.db.attempts.get? r.permitID = none
      ∧ PoolAdmits s.db s.run.pool.poolID s.run.pool.generation
      ∧ ∀ c, reserveAttempt s.db r c = .error .conflict := by
  have hlead : Leads Sample.size submitted .empty fun db =>
      selectable db = true ∧ overtaken db = true := by
    decide +kernel
  obtain ⟨db, hexec, hdb, hover⟩ := hlead
  have hreach : (intake hashes Sample.size Intake.AnyTime).Reach _ :=
    granting_run (fun _ _ _ => trivial) hexec hdb
  unfold overtaken at hover
  split at hover
  · cases hover
  rename_i db₁ hexpire
  simp only [pending, Bool.and_eq_true, isNone_iff_eq_none] at hover
  obtain ⟨⟨hguard, hnone⟩, hconflict⟩ := hover
  split at hconflict
  · rename_i hitem
    have hstep := System.Reach.step hreach
      (.exec (.expire scope job) (clock 1100) trivial trivial hexpire)
    refine ⟨_, intent, hstep, intent_mem, hnone, granting_active hguard, ?_⟩
    intro c
    obtain ⟨u, hguard⟩ := exists_of_isOk hguard
    have hpool : intent.poolID = "pool" ∧ intent.generation = 2 := by decide +kernel
    rw [reserveAttempt, require_bind_of_pos (by decide +kernel), hpool.1, hpool.2, hguard]
    simp only [hnone]
    exact hitem
  · cases hconflict

/-- The same grant, with an `Expire` of another job in between. -/
theorem granted_permit_reserves_sample :
    ∃ s, (intake hashes Sample.size Intake.Clear).Reach s
      ∧ intent ∈ s.run.pool.startIntents
      ∧ s.db.attempts.get? intent.permitID = none
      ∧ ∃ a db', reserveAttempt s.db intent (clock 1100) = .ok (a, db') := by
  have hlead : Leads Sample.size submitted .empty fun db => selectable db = true
      ∧ Leads Sample.size otherExpires db fun db' => pending db' = true := by
    decide +kernel
  obtain ⟨db, hexec, hdb, db', hexec', hdb'⟩ := hlead
  have hreach : (intake hashes Sample.size Intake.Clear).Reach _ :=
    granting_run (by simp [submitted, Intake.Clear]) hexec hdb
  -- the intent is of the first job, and nothing else is offered
  have hjob : intent.ref.job ≠ (scope, nonce) := by decide +kernel
  have hlater := intake_of_execAll (by simp [otherExpires, Joint.Offers])
    (by simp [otherExpires, Intake.Clear, granting_intents, hjob]) hreach hexec'
  simp only [pending, Bool.and_eq_true, isNone_iff_eq_none] at hdb'
  obtain ⟨a, db', hok, -⟩ := granted_permit_reserves hlater intent_mem hdb'.2
    (granting_active hdb'.1) (clock 1100)
  exact ⟨_, hlater, intent_mem, hdb'.2, a, db', hok⟩

end HardenLlm.Batch
