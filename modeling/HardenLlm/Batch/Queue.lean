import HardenLlm.Batch.Intake
import HardenLlm.Batch.Model.Queue
/-!
# Fair selection

What `SelectReady` offers is waiting, once each, and shared out evenly: no
scope is given two entries more than another that has more to offer, and
within a scope the owners take turns in the order they were enqueued, from
one page to the next.
-/

namespace HardenLlm.Batch

open List Rotation

variable {q q' : Queue} {sel : ReadySelection} {now : ℤ} {page : ReadyPage} {e f : Candidate × ℕ}

/-! ## Rows -/

theorem mem_jobRows {j : JobRow} {i : ItemRow} (h : i ∈ q.jobItems sel j) :
    i ∈ q.db.items.rows ∧ sel.itemReady j i := by
  have hmem := mem_of_mem_take h
  simpa using hmem

theorem jobItems_nodup (j : JobRow) : (q.jobItems sel j).Nodup := by
  have hrows : q.db.items.rows.Nodup := q.db.items.nodup.of_map
  have hperm := Pages.orderBy_perm (fun i : ItemRow => toLex (i.queuedAt, i.ref.index))
    (q.db.items.rows.filter fun i => sel.itemReady j i)
  exact (hperm.nodup_iff.2 (hrows.filter _)).sublist (take_sublist _ _)

/-- **What a row of `candidates` is.** -/
theorem mem_queueCandidates :
    e ∈ q.candidates sel now ↔
      (∃ j ∈ q.db.jobs.rows, sel.jobReady now j ∧ ∃ i n, (i, n) ∈ (q.jobItems sel j).zipIdx 1
        ∧ e = (.item i j, n))
      ∨ ∃ w ∈ q.db.waiters.rows, sel.requestReady now w ∧ e = (.request w, 1) := by
  simp only [Queue.candidates, mem_append, mem_flatMap, mem_filter, mem_map,
    decide_eq_true_eq, Prod.exists, and_assoc, eq_comm (a := e)]

/-- Each row may be offered. -/
theorem eligible_of_mem (h : e ∈ q.candidates sel now) : q.Eligible sel now e.1.ready := by
  obtain ⟨j, hj, hready, i, n, hi, rfl⟩ | ⟨w, hw, hready, rfl⟩ := mem_queueCandidates.1 h
  · obtain ⟨hrow, hitem⟩ := mem_jobRows (fst_mem_of_mem_zipIdx hi)
    exact .inl ⟨j, hj, i, hrow, hready, hitem, rfl⟩
  · exact .inr ⟨w, hw, hready, rfl⟩

/-- A row's scope and owner are those its item names. -/
theorem ready_of_mem (h : e ∈ q.candidates sel now) :
    e.1.ready.ref.scope = e.1.scope ∧ e.1.ready.enqueued = e.1.enqueued
      ∧ e.1.enqueued ∈ q.db.enqueued := by
  obtain ⟨j, hj, hready, i, n, hi, rfl⟩ | ⟨w, hw, hready, rfl⟩ := mem_queueCandidates.1 h
  · obtain ⟨hrow, hitem⟩ := mem_jobRows (fst_mem_of_mem_zipIdx hi)
    have hkey : i.ref.job = j.key := hitem.1
    refine ⟨congrArg Prod.fst hkey, ?_, ?_⟩
    · change Enqueued.job i.ref.job = Enqueued.job j.key
      rw [hkey]
    · exact mem_append_left _ (mem_map_of_mem (f := fun j => Enqueued.job j.key) hj)
  · refine ⟨rfl, rfl, ?_⟩
    exact mem_append_right _
      (mem_map_of_mem (f := fun w => Enqueued.request w.requestID) hw)

section

variable (he : e ∈ q.candidates sel now) (hf : f ∈ q.candidates sel now)
include he hf

/-- An owner's rows are items of one job, or one row. -/
theorem rows_of_owner (howner : e.1.enqueued = f.1.enqueued) :
    e = f ∨ ∃ j i n i' n', (i, n) ∈ (q.jobItems sel j).zipIdx 1
      ∧ (i', n') ∈ (q.jobItems sel j).zipIdx 1 ∧ e = (.item i j, n) ∧ f = (.item i' j, n') := by
  obtain ⟨j, hj, -, i, n, hi, rfl⟩ | ⟨w, hw, -, rfl⟩ := mem_queueCandidates.1 he <;>
    obtain ⟨j', hj', -, i', n', hi', rfl⟩ | ⟨w', hw', -, rfl⟩ := mem_queueCandidates.1 hf
  · have hkey : j.key = j'.key := Enqueued.job.inj howner
    obtain rfl : j = j' := inj_on_of_nodup_map q.db.jobs.nodup hj hj' hkey
    exact .inr ⟨j, i, n, i', n', hi, hi', rfl, rfl⟩
  -- a job is no request
  · cases howner
  · cases howner
  · have hid : w.requestID = w'.requestID := Enqueued.request.inj howner
    rw [inj_on_of_nodup_map q.db.waiters.nodup hw hw' hid]
    exact .inl rfl

/-- An owner's rows of one turn are one. -/
theorem row_unique (howner : e.1.enqueued = f.1.enqueued) (hturn : e.2 = f.2) : e = f := by
  obtain rfl | ⟨j, i, n, i', n', hi, hi', rfl, rfl⟩ := rows_of_owner he hf howner
  · rfl
  · have hsame := Pages.eq_of_mem_zipIdx hi hi' hturn
    obtain ⟨rfl, rfl⟩ := Prod.mk.inj hsame
    rfl

/-- An item offered names its row. -/
theorem row_of_ready (h : e.1.ready = f.1.ready) : e = f := by
  have howner : e.1.enqueued = f.1.enqueued := by
    rw [← (ready_of_mem he).2.1, ← (ready_of_mem hf).2.1, h]
  obtain rfl | ⟨j, i, n, i', n', hi, hi', rfl, rfl⟩ := rows_of_owner he hf howner
  · rfl
  · have href : i.ref = i'.ref := congrArg ReadyItem.ref h
    obtain rfl : i = i' := inj_on_of_nodup_map q.db.items.nodup
      (mem_jobRows (fst_mem_of_mem_zipIdx hi)).1 (mem_jobRows (fst_mem_of_mem_zipIdx hi')).1 href
    -- the item stands once among its job's
    obtain ⟨hlow, hlt, hget⟩ := mem_zipIdx hi
    obtain ⟨hlow', hlt', hget'⟩ := mem_zipIdx hi'
    have hidx := (Nodup.getElem_inj_iff (jobItems_nodup j)).1 (hget.symm.trans hget')
    obtain rfl : n = n' := by omega
    rfl

end

variable (q sel now) in
theorem queueCandidates_nodup : (q.candidates sel now).Nodup := by
  have hjobs : q.db.jobs.rows.Nodup := q.db.jobs.nodup.of_map
  have hwaiters : q.db.waiters.rows.Nodup := q.db.waiters.nodup.of_map
  refine List.Nodup.append ?_ ?_ ?_
  · refine nodup_flatMap.2 ⟨fun j _ => ?_, ?_⟩
    · refine Nodup.map_on ?_ ((Pages.pairwise_zipIdx _ 1).imp fun h heq => ?_)
      · rintro ⟨i, n⟩ - ⟨i', n'⟩ - h
        simp only [Prod.mk.injEq, Candidate.item.injEq, and_true] at h
        rw [h.1, h.2]
      · exact absurd h (by simp [heq])
    · refine (hjobs.filter _).imp_of_mem fun {j j'} _ _ hne => ?_
      rintro ⟨c, n⟩ h h'
      obtain ⟨e, -, he⟩ := mem_map.1 h
      obtain ⟨e', -, he'⟩ := mem_map.1 h'
      have hrow := congrArg Prod.fst (he.trans he'.symm)
      exact hne (Candidate.item.inj hrow).2
  · refine Nodup.map_on ?_ (hwaiters.filter _)
    rintro w - w' - h
    exact Candidate.request.inj (congrArg Prod.fst h)
  · intro e h h'
    obtain ⟨j, -, hj⟩ := mem_flatMap.1 h
    obtain ⟨i, -, rfl⟩ := mem_map.1 hj
    obtain ⟨w, -, hw⟩ := mem_map.1 h'
    exact Candidate.noConfusion (congrArg Prod.fst hw)

/-! ## Within a scope -/

/-- A scope's rows, in the order pages take them. -/
def Queue.turns (q : Queue) (sel : ReadySelection) (now : ℤ) (scope : String) :
    List (Candidate × ℕ) :=
  Pages.lane (fun e => e.1.scope) (q.turnKey sel) scope (q.candidates sel now)

theorem mem_turns {scope : String} :
    e ∈ q.turns sel now scope ↔ e ∈ q.candidates sel now ∧ e.1.scope = scope :=
  Pages.mem_lane

/-- Numbers tell owners apart. -/
theorem enqueued_of_sequence (he : e ∈ q.candidates sel now) (hf : f ∈ q.candidates sel now)
    (h : q.sequence e.1 = q.sequence f.1) : e.1.enqueued = f.1.enqueued :=
  q.distinct _ (ready_of_mem he).2.2 _ (ready_of_mem hf).2.2 h

variable (q sel now) in
/-- **A scope's rows are laid out in turns**, each from the cursor on. -/
theorem turns_laid (scope : String) :
    Laid (q.cursor sel.poolID scope)
      ((q.turns sel now scope).map fun e => (e.2, q.sequence e.1)) := by
  have hscope : ∀ e ∈ q.turns sel now scope, q.turnKey sel e
      = entryKey (q.cursor sel.poolID scope) (e.2, q.sequence e.1) := by
    intro e he
    rw [← (mem_turns.1 he).2]
    rfl
  refine ⟨?_, ?_, ?_⟩
  · have hstrict : (q.turns sel now scope).Pairwise fun e f => q.turnKey sel e < q.turnKey sel f := by
      refine Pages.orderBy_strict ((queueCandidates_nodup q sel now).filter _) fun e he f hf h => ?_
      have he' : e ∈ q.turns sel now scope := Pages.mem_orderBy.2 he
      have hf' : f ∈ q.turns sel now scope := Pages.mem_orderBy.2 hf
      rw [hscope e he', hscope f hf'] at h
      obtain ⟨hturn, hseq⟩ := Prod.mk.inj (entryKey_injective _ h)
      have hmem := (mem_turns.1 he').1
      have hmem' := (mem_turns.1 hf').1
      exact row_unique hmem hmem' (enqueued_of_sequence hmem hmem' hseq) hturn
    refine pairwise_map.2 (hstrict.imp_of_mem fun {e f} he hf h => ?_)
    rwa [← hscope e he, ← hscope f hf]
  · intro e he
    obtain ⟨f, hf, rfl⟩ := mem_map.1 he
    obtain ⟨j, -, -, i, n, hi, rfl⟩ | ⟨w, -, -, rfl⟩ :=
      mem_queueCandidates.1 (mem_turns.1 hf).1
    · exact (mem_zipIdx hi).1
    · exact le_rfl
  · intro e he m hm hle
    obtain ⟨f, hf, rfl⟩ := mem_map.1 he
    obtain ⟨hmem, hs⟩ := mem_turns.1 hf
    obtain ⟨j, hj, hready, i, n, hi, rfl⟩ | ⟨w, hw, hready, rfl⟩ := mem_queueCandidates.1 hmem
    · have hlen : m ≤ (q.jobItems sel j).length := by
        have := (mem_zipIdx hi).2.1
        simp only at hle
        omega
      obtain ⟨i', hi'⟩ := Pages.exists_mem_zipIdx hm hlen
      have hrow : (Candidate.item i' j, m) ∈ q.turns sel now scope :=
        mem_turns.2 ⟨mem_queueCandidates.2 (.inl ⟨j, hj, hready, i', m, hi', rfl⟩), hs⟩
      exact mem_map_of_mem (f := fun e => (e.2, q.sequence e.1)) hrow
    · obtain rfl : m = 1 := le_antisymm hle hm
      exact mem_map_of_mem (f := fun e => (e.2, q.sequence e.1)) hf

/-- What may be offered stands in the rows, unless its job fills a page by
itself. -/
theorem row_or_full {x : ReadyItem} (h : q.Eligible sel now x) :
    (∃ e ∈ q.turns sel now x.ref.scope, e.1.ready = x)
      ∨ ∃ j ∈ q.db.jobs.rows, sel.jobReady now j ∧ x.enqueued = .job j.key ∧ x.ref.scope = j.scope
        ∧ (q.jobItems sel j).length = sel.limit.toNat := by
  obtain ⟨j, hj, i, hi, hready, hitem, rfl⟩ | ⟨w, hw, hready, rfl⟩ := h
  · have hkey : i.ref.job = j.key := hitem.1
    have hscope : i.ref.scope = j.scope := congrArg Prod.fst hkey
    by_cases hin : i ∈ q.jobItems sel j
    · obtain ⟨n, hn, hget⟩ := mem_iff_getElem.1 hin
      have hzip : (i, 1 + n) ∈ (q.jobItems sel j).zipIdx 1 := by
        refine mem_iff_getElem?.2 ⟨n, ?_⟩
        rw [List.getElem?_zipIdx, List.getElem?_eq_getElem hn, hget]
        rfl
      refine .inl ⟨(.item i j, 1 + n), mem_turns.2 ⟨?_, hscope.symm⟩, rfl⟩
      exact mem_queueCandidates.2 (.inl ⟨j, hj, hready, i, 1 + n, hzip, rfl⟩)
    · refine .inr ⟨j, hj, hready, congrArg Enqueued.job hkey, hscope, ?_⟩
      refine length_take_of_le (le_of_lt (not_le.1 fun hshort => hin ?_))
      rw [Queue.jobItems, take_of_length_le hshort]
      simpa using ⟨hi, hitem⟩
  · exact .inl ⟨(.request w, 1), mem_turns.2 ⟨mem_queueCandidates.2 (.inr ⟨w, hw, hready, rfl⟩), rfl⟩,
      rfl⟩

/-! ## A page -/

theorem of_scan {c : Candidate} {x : ReadyItem} (h : c.scan = .ok x) : x = c.ready := by
  cases c <;> obtain ⟨-, h⟩ := seq_eq_ok.1 h <;> exact (pure_eq_ok.1 h).symm

/-- **What a selection did.** -/
theorem of_selectReady (h : q.selectReady sel now = .ok (page, q')) :
    sel.accepted ∧ guardPool q.db sel.poolID sel.generation = .ok ()
      ∧ page.items = (q.readyPage sel now).map (fun e => e.1.ready)
      ∧ (∀ e ∈ q.readyPage sel now, e.1.scan = .ok e.1.ready)
      ∧ q' = q.advance sel (q.readyPage sel now) := by
  obtain ⟨haccepted, h⟩ := seq_eq_ok.1 h
  obtain ⟨hguard, h⟩ := seq_eq_ok.1 h
  obtain ⟨items, hitems, h⟩ := bind_eq_ok.1 h
  obtain ⟨rfl, rfl⟩ := Prod.mk.inj (pure_eq_ok.1 h)
  obtain ⟨heq, hscan⟩ := mapM_eq_ok (fun e x => of_scan) hitems
  exact ⟨require_eq_ok.1 haccepted, hguard, heq, hscan, rfl⟩

theorem mem_of_mem_readyPage (h : e ∈ q.readyPage sel now) : e ∈ q.candidates sel now :=
  Pages.mem_of_mem_page h

variable (q sel now)

theorem readyPage_length_le : (q.readyPage sel now).length ≤ sel.limit.toNat :=
  Pages.page_length_le _ _

/-- The entries of one scope on a page. -/
theorem filter_readyPage (scope : String) :
    ((q.readyPage sel now).map fun e => e.1.ready).filter (fun x => x.ref.scope = scope)
      = ((q.readyPage sel now).filter fun e => e.1.scope = scope).map fun e => e.1.ready := by
  rw [filter_map]
  congr 1
  refine filter_congr fun e he => ?_
  simp [(ready_of_mem (mem_of_mem_readyPage he)).1]

/-- **A page holds the first of a scope's rows.** -/
theorem readyPage_initial (scope : String) :
    ((q.readyPage sel now).filter fun e => e.1.scope = scope) <+: q.turns sel now scope :=
  Pages.filter_page_initial _ _ _ _ _ scope

variable {q sel now}

/-- Distinct rows offer distinct items. -/
theorem nodup_ready {l : List (Candidate × ℕ)} (hl : l.Nodup)
    (hmem : ∀ e ∈ l, e ∈ q.candidates sel now) : (l.map fun e => e.1.ready).Nodup :=
  hl.map_on fun e he f hf h => row_of_ready (hmem e he) (hmem f hf) h

/-- A job that fills a page by itself has a row outside any shorter list. -/
theorem exists_row_of_full {j : JobRow} (hj : j ∈ q.db.jobs.rows) (hready : sel.jobReady now j)
    (taken : List ReadyItem) (hshort : taken.length < (q.jobItems sel j).length) :
    ∃ e ∈ q.turns sel now j.scope, e.1.enqueued = .job j.key ∧ e.1.ready ∉ taken := by
  have hrows : ∀ e ∈ ((q.jobItems sel j).zipIdx 1).map fun e => (Candidate.item e.1 j, e.2),
      e ∈ q.candidates sel now := by
    intro e he
    obtain ⟨⟨i, n⟩, hi, rfl⟩ := mem_map.1 he
    exact mem_queueCandidates.2 (.inl ⟨j, hj, hready, i, n, hi, rfl⟩)
  have hnodup : (((q.jobItems sel j).zipIdx 1).map fun e => (Candidate.item e.1 j, e.2)).Nodup := by
    have hall := (nodup_append.1 (queueCandidates_nodup q sel now)).1
    exact (nodup_flatMap.1 hall).1 j
      (mem_filter.2 ⟨hj, by simpa using hready⟩)
  by_contra hnone
  have hsub : (((q.jobItems sel j).zipIdx 1).map fun e => (Candidate.item e.1 j, e.2)).map
      (fun e => e.1.ready) ⊆ taken := by
    intro x hx
    obtain ⟨e, he, rfl⟩ := mem_map.1 hx
    obtain ⟨⟨i, n⟩, -, rfl⟩ := mem_map.1 he
    exact Classical.not_not.1 fun hx => hnone ⟨_, mem_turns.2 ⟨hrows _ he, rfl⟩, rfl, hx⟩
  have hle := (subperm_of_subset (nodup_ready hnodup hrows) hsub).length_le
  simp only [length_map, length_zipIdx] at hle
  omega

/-- **Scopes are served evenly.** -/
theorem served_evenly (h : q.selectReady sel now = .ok (page, q')) {s t : String}
    (hmore : (page.items.filter fun x => x.ref.scope = s).length + 2
      ≤ (page.items.filter fun x => x.ref.scope = t).length) {x : ReadyItem}
    (hx : q.Eligible sel now x) (hscope : x.ref.scope = s) : x ∈ page.items := by
  obtain ⟨haccepted, -, hitems, -, -⟩ := of_selectReady h
  subst hscope
  rw [hitems] at hmore ⊢
  by_contra hout
  -- so the page leaves a row of the scope out
  have hleft : ((q.readyPage sel now).filter fun e => e.1.scope = x.ref.scope).length
      < (q.turns sel now x.ref.scope).length := by
    refine lt_of_not_ge fun hge => ?_
    have hall := (readyPage_initial q sel now x.ref.scope).eq_of_length_le hge
    obtain ⟨e, he, rfl⟩ | ⟨j, hj, hready, -, hs, hfull⟩ := row_or_full hx
    · rw [← hall] at he
      exact hout (mem_map_of_mem (f := fun e => e.1.ready) (mem_of_mem_filter he))
    · have hlen : ((q.readyPage sel now).filter fun e => e.1.scope = x.ref.scope).length
          < (q.jobItems sel j).length := by
        have htotal := readyPage_length_le q sel now
        have hpart := length_filter_le (fun x => decide (x.ref.scope = t))
          ((q.readyPage sel now).map fun e => e.1.ready)
        rw [filter_readyPage, length_map] at hmore
        rw [length_map] at hpart
        omega
      obtain ⟨e, he, -, hnot⟩ := exists_row_of_full hj hready
        (((q.readyPage sel now).filter fun e => e.1.scope = x.ref.scope).map fun e => e.1.ready)
        (by rwa [length_map])
      rw [← hs, ← hall] at he
      exact hnot (mem_map_of_mem (f := fun e => e.1.ready) he)
  have heven := Pages.page_even hleft t
  change ((q.readyPage sel now).filter fun e => e.1.scope = t).length
    ≤ ((q.readyPage sel now).filter fun e => e.1.scope = x.ref.scope).length + 1 at heven
  simp only [filter_readyPage, length_map] at hmore
  omega

/-! ## Turns -/

/-- An upsert row by row leaves the last row of each scope. -/
theorem foldl_upsert (pool scope : String) (f : Candidate × ℕ → ℤ) (rows : List (Candidate × ℕ))
    (m : String × String → Option ℤ) :
    rows.foldl (fun m e => Function.update m (pool, e.1.scope) (some (f e))) m (pool, scope)
      = ((rows.filter fun e => e.1.scope = scope).getLast?.map f).or (m (pool, scope)) := by
  induction rows generalizing m with
  | nil => rfl
  | cons e rest ih =>
    rw [foldl_cons, ih]
    by_cases hs : e.1.scope = scope
    · subst hs
      rw [Function.update_self, filter_cons_of_pos (by simp), List.getLast?_cons]
      cases (rest.filter fun f => f.1.scope = e.1.scope).getLast? <;> rfl
    · have hkey : (pool, scope) ≠ (pool, e.1.scope) := fun h => hs (congrArg Prod.snd h).symm
      rw [Function.update_of_ne hkey, filter_cons_of_neg (by simpa using hs)]

/-- The cursor after a page stands at the scope's last entry. -/
theorem cursor_advance (rows : List (Candidate × ℕ)) (scope : String) :
    (q.advance sel rows).cursor sel.poolID scope
      = ((rows.filter fun e => e.1.scope = scope).getLast?.map fun e => q.sequence e.1).getD
        (q.cursor sel.poolID scope) := by
  have hcursors : (q.advance sel rows).cursors (sel.poolID, scope) = _ :=
    foldl_upsert sel.poolID scope (fun e => q.sequence e.1) rows q.cursors
  rw [Queue.cursor, hcursors]
  cases (rows.filter fun e => e.1.scope = scope).getLast? <;> rfl

/-- Whoever may be offered and is not among fewer entries than a page has
room for has a row that is not. -/
theorem exists_row_left {scope : String} {x : ReadyItem} (hx : q.Eligible sel now x)
    (hscope : x.ref.scope = scope) {taken : List ReadyItem}
    (hshort : taken.length < sel.limit.toNat) (hnew : x ∉ taken) :
    ∃ e ∈ q.turns sel now scope, e.1.ready ∉ taken ∧ e.1.enqueued = x.enqueued := by
  subst hscope
  obtain ⟨e, he, rfl⟩ | ⟨j, hj, hready, howner, hs, hfull⟩ := row_or_full hx
  · exact ⟨e, he, hnew, (ready_of_mem (mem_turns.1 he).1).2.1.symm⟩
  · obtain ⟨e, he, hkey, hnot⟩ := exists_row_of_full hj hready taken (by omega)
    exact ⟨e, hs ▸ he, hnot, hkey.trans howner.symm⟩

theorem place_of_mem {scope : String} (he : e ∈ q.turns sel now scope) :
    q.enqueueSequence e.1.ready.enqueued = q.sequence e.1 := by
  rw [(ready_of_mem (mem_turns.1 he).1).2.1, Queue.sequence]

/-- **A page goes on with the round** from where the cursor stands. -/
theorem choices_follow (h : q.selectReady sel now = .ok (page, q')) (scope : String) :
    Follows (q.cursor sel.poolID scope) (q.choices sel now scope page.items) := by
  obtain ⟨-, -, hitems, -, -⟩ := of_selectReady h
  have hinitial := readyPage_initial q sel now scope
  set rows := (q.readyPage sel now).filter fun e => e.1.scope = scope with hrows
  have hentries : ((q.turns sel now scope).map fun e => (e.2, e.1.ready)).map Prod.snd
      = (q.turns sel now scope).map fun e => e.1.ready := by
    rw [map_map]
    rfl
  rw [Queue.choices, hitems, filter_readyPage, ← hrows]
  have hnodup : ((q.turns sel now scope).map fun e => e.1.ready).Nodup :=
    nodup_ready (Pages.lane_nodup (queueCandidates_nodup q sel now)) fun e he =>
      (mem_turns.1 he).1
  refine follows_picks ?_ (hentries ▸ hnodup) (hentries ▸ hinitial.map _) ?_ ?_
  · rw [map_map]
    have hlaid := turns_laid q sel now scope
    rwa [← map_congr_left fun e he => congrArg (Prod.mk e.2) (place_of_mem he)] at hlaid
  · intro x hx
    obtain ⟨e, he, rfl⟩ := mem_map.1 hx
    obtain ⟨hmem, hs⟩ := mem_turns.1 (hinitial.subset he)
    exact ⟨eligible_of_mem hmem, (ready_of_mem hmem).1.trans hs⟩
  · rintro pre x rest hsplit y ⟨hy, hs⟩ hnew
    have hshort : pre.length < sel.limit.toNat := by
      have htotal := readyPage_length_le q sel now
      have hpart : rows.length ≤ (q.readyPage sel now).length := length_filter_le _ _
      have hlen := congrArg List.length hsplit
      simp only [length_map, length_append, length_cons] at hlen
      omega
    obtain ⟨e, he, hnot, howner⟩ := exists_row_left hy hs hshort hnew
    refine ⟨(e.2, e.1.ready), mem_map_of_mem he, hnot, ?_⟩
    rw [place_of_mem he, Queue.sequence, howner]

/-- The cursor is left at the last choice. -/
theorem cursor_of_choices (h : q.selectReady sel now = .ok (page, q')) (scope : String) :
    q'.cursor sel.poolID scope
      = stop (q.cursor sel.poolID scope) (q.choices sel now scope page.items) := by
  obtain ⟨-, -, hitems, -, rfl⟩ := of_selectReady h
  rw [cursor_advance, Queue.choices, stop_picks, hitems, filter_readyPage, List.getLast?_map,
    Option.map_map]
  congr 1
  refine Option.map_congr fun e he => ?_
  exact (place_of_mem ((readyPage_initial q sel now scope).subset (mem_of_getLast? he))).symm

/-- **Pages go round**: over any selections, whatever else happens to the
rows in between. -/
theorem rota_follows {pool scope : String} {s : Rota} (hr : (rota pool scope).Reach s) :
    Follows s.start s.made ∧ s.queue.cursor pool scope = stop s.start s.made := by
  refine System.Reach.invariant
    (P := fun s => Follows s.start s.made ∧ s.queue.cursor pool scope = stop s.start s.made)
    ?_ ?_ hr
  · rintro s ⟨hstart, hmade⟩
    rw [hmade]
    exact ⟨trivial, hstart.symm⟩
  · rintro s s' - ⟨hfollows, hcursor⟩ hstep
    cases hstep with
    | select sel now asked selected =>
      subst asked
      refine ⟨follows_append.2 ⟨hfollows, hcursor ▸ choices_follow selected scope⟩, ?_⟩
      rw [stop_append, ← hcursor]
      exact cursor_of_choices selected scope
    | other kept => exact ⟨hfollows, kept.trans hcursor⟩

/-- **The pages of the pool's intake are these**, at the limit its workflow
asks with. -/
theorem selects_of_selectReady (h : q.selectReady sel now = .ok (page, q'))
    (hlimit : sel.limit ≤ 64) : sel.toQueueSelection.Selects q.db now page.items := by
  obtain ⟨haccepted, hguard, hitems, hscan, -⟩ := of_selectReady h
  have hlength := readyPage_length_le q sel now
  refine ⟨haccepted.1, hguard, ?_, ?_, ?_⟩
  · rw [hitems]
    exact nodup_ready (Pages.page_nodup _ (queueCandidates_nodup q sel now)) fun e =>
      mem_of_mem_readyPage
  · rw [hitems, length_map]
    omega
  · intro x hx
    rw [hitems] at hx
    obtain ⟨e, he, rfl⟩ := mem_map.1 hx
    have hbudget := hscan e he
    refine mem_candidates.2 ?_
    obtain ⟨j, hj, hready, i, n, hi, rfl⟩ | ⟨w, hw, hready, rfl⟩ :=
      mem_queueCandidates.1 (mem_of_mem_readyPage he)
    · obtain ⟨hrow, hkey, hopen, hfree, hex⟩ := mem_jobRows (fst_mem_of_mem_zipIdx hi)
      refine .inl ⟨i, hrow, j, ?_, ⟨hopen, hfree, hex, hready.1, hready.2, ?_⟩, rfl⟩
      · rw [hkey]
        exact Table.get?_of_mem hj
      · exact require_eq_ok.1 (seq_eq_ok.1 hbudget).1
    · obtain ⟨hpool, hgen, hdeadline, hlive, hclosed, hfree, hex⟩ := hready
      obtain ⟨hlow, hhigh⟩ := require_eq_ok.1 (seq_eq_ok.1 hbudget).1
      exact .inr ⟨w, hw, ⟨hpool, hgen, hdeadline, hlive, hclosed, hfree, hex, hlow, hhigh⟩, rfl⟩

/-! ## Fair selection -/

/-- **Selection is fair.** A page is within its limit and offers distinct
eligible entries; a scope that is given two entries fewer than another has
no more to offer. Over any selections the choices in a scope go round from
the stored cursor, each to the next owner with something to offer that the
page does not hold yet; so nobody is chosen twice before one who has
something left throughout. -/
theorem selection_fair :
    (∀ (q q' : Queue) (sel : ReadySelection) (now : ℤ) (page : ReadyPage),
      q.selectReady sel now = .ok (page, q') →
        page.items.length ≤ sel.limit ∧ page.items.Nodup
          ∧ (∀ x ∈ page.items, q.Eligible sel now x)
          ∧ ∀ s t : String,
            (page.items.filter fun x => x.ref.scope = s).length + 2
                ≤ (page.items.filter fun x => x.ref.scope = t).length →
              ∀ x, q.Eligible sel now x → x.ref.scope = s → x ∈ page.items)
      ∧ ∀ (pool scope : String) (s : Rota), (rota pool scope).Reach s →
          Follows s.start s.made ∧ s.queue.cursor pool scope = stop s.start s.made
            ∧ ∀ before stretch after, s.made = before ++ stretch ++ after →
              ∀ n, (∀ p ∈ stretch, p.free n ∧ p.choice ≠ n) →
                (stretch.map Pick.choice).Nodup := by
  refine ⟨fun q q' sel now page h => ?_, fun pool scope s hr => ?_⟩
  · obtain ⟨haccepted, -, hitems, -, -⟩ := of_selectReady h
    have hlength := readyPage_length_le q sel now
    refine ⟨?_, ?_, ?_, fun s t hmore x hx hs => served_evenly h hmore hx hs⟩
    · rw [hitems, length_map]
      have := haccepted.2.1
      omega
    · rw [hitems]
      exact nodup_ready (Pages.page_nodup _ (queueCandidates_nodup q sel now)) fun e =>
        mem_of_mem_readyPage
    · intro x hx
      rw [hitems] at hx
      obtain ⟨e, he, rfl⟩ := mem_map.1 hx
      exact eligible_of_mem (mem_of_mem_readyPage he)
  · obtain ⟨hfollows, hcursor⟩ := rota_follows hr
    refine ⟨hfollows, hcursor, fun before stretch after hsplit n hfree => ?_⟩
    rw [hsplit] at hfollows
    have hstretch := (follows_append.1 (follows_append.1 hfollows).1).2
    exact hstretch.nodup hfree

namespace Sample

def otherScope : String := "bbbbbbbbbbbbbbbbbbbbbbbbbbbbbbbbbbbbbbbbbbbbbbbbbbbbbbbbbbbbbbbb"

def queuedItem (ref : Ref) : ItemRow where
  ref := ref
  customID := "a"
  request := { content := "", timeoutMS := 300000 }
  queuedAt := 1000 * second

def queuedJob (scope id : String) (count : ℤ) : JobRow where
  scope := scope
  id := id
  idempotencyHash := "hash"
  inputDigest := "digest"
  itemCount := count
  workflowID := "workflow"
  createdAt := 1000 * second
  deadline := 1100 * second
  poolID := "pool"

def queuedRequest : RequestWaiter where
  requestID := permit
  poolID := "pool"
  generation := 2
  scope := scope
  ownerID := nonce
  executionID := nonce
  ordinal := 1
  createdAt := 1000 * second
  deadline := 1100 * second
  budgetMS := 300000
  liveUntil := 1030 * second

/-- A job with three items and, after it, a request, of one caller, and a
job with one item of another. -/
def queue : Queue where
  db :=
    { jobs := ⟨[queuedJob scope job 3, queuedJob otherScope nonce 1], by decide⟩
      items := ⟨[queuedItem ⟨scope, job, 0⟩, queuedItem ⟨scope, job, 1⟩,
        queuedItem ⟨scope, job, 2⟩, queuedItem ⟨otherScope, nonce, 0⟩], by decide⟩
      pools := ⟨[⟨"pool", 2, .active, 1⟩], by decide⟩
      waiters := ⟨[queuedRequest], by decide⟩
      attempts := .empty }
  enqueueSequence
    | .job key => if key.1 = scope then 1 else 3
    | .request _ => 2
  cursors _ := none
  distinct := by decide

def selection (limit : ℤ) : ReadySelection :=
  { poolID := "pool", generation := 2, exclude := [], excludeRequests := [], limit := limit }

/-- The request may be offered. -/
theorem queuedRequest_eligible (limit : ℤ) :
    queue.Eligible (selection limit) (1001 * second) queuedRequest.ready :=
  .inr ⟨queuedRequest, by simp [queue], by simp only [ReadySelection.requestReady, selection]; decide, rfl⟩

end Sample

open Sample

theorem selects_of_selectReady_sample :
    ∃ page q', queue.selectReady (selection 5) (1001 * second) = .ok (page, q')
      ∧ (selection 5).toQueueSelection.Selects queue.db (1001 * second) page.items :=
  ⟨_, _, rfl, selects_of_selectReady rfl (by decide)⟩

/-- With room for all, the job is chosen again right after itself, though
the request still waits: the page holds the request already. -/
theorem selection_passes_over :
    ∃ page q', queue.selectReady (selection 5) (1001 * second) = .ok (page, q')
      ∧ (page.items.filter fun x => x.ref.scope = scope).map
          (fun x => queue.enqueueSequence x.enqueued) = [1, 2, 1, 1]
      ∧ queue.Eligible (selection 5) (1001 * second) queuedRequest.ready
      ∧ Between (1 : ℤ) (queue.enqueueSequence queuedRequest.ready.enqueued) 1 := by
  refine ⟨_, _, rfl, ?_, queuedRequest_eligible 5, ?_⟩
  · decide
  · decide

/-- That page, and the choices it makes. -/
theorem selection_fair_sample :
    ∃ page q', queue.selectReady (selection 5) (1001 * second) = .ok (page, q')
      ∧ page.items.length = 5 ∧ page.items.Nodup
      ∧ (∀ x, queue.Eligible (selection 5) (1001 * second) x →
          x.ref.scope = otherScope → x ∈ page.items)
      ∧ ∃ s, (rota "pool" scope).Reach s ∧ s.made.map Pick.choice = [1, 2, 1, 1]
        ∧ Follows 0 s.made ∧ ((s.made.take 1).map Pick.choice).Nodup := by
  refine ⟨_, _, rfl, ?_⟩
  obtain ⟨-, hnodup, -, heven⟩ := selection_fair.1 queue _ (selection 5)
    (1001 * second) _ rfl
  refine ⟨by decide, hnodup, heven otherScope scope (by decide), ?_⟩
  have hinit : (rota "pool" scope).Reach ⟨queue, 0, []⟩ := .init ⟨rfl, rfl⟩
  have hselect := hinit.step (.select (selection 5) (1001 * second) rfl rfl)
  obtain ⟨hfollows, -, hstretch⟩ := selection_fair.2 _ _ _ hselect
  refine ⟨_, hselect, by decide, hfollows, hstretch [] _ _ (take_append_drop 1 _).symm 2 ?_⟩
  -- while the job is chosen first, the request is free
  intro p hp
  obtain rfl := mem_singleton.1 hp
  exact ⟨⟨_, ⟨queuedRequest_eligible 5, rfl⟩, not_mem_nil, rfl⟩, by decide⟩

end HardenLlm.Batch
