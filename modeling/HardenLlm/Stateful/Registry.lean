import HardenLlm.Stateful.Model.Registry
import HardenLlm.Stateful.Tracking
/-!
# One row, many writers

The row of a request is the newest of what its owner's session sent and
what arrived; a finished row stays as it is for as long as it is retained;
of all who race for an identifier at most one is told that it succeeded
while its row is retained; and who owned an identifier before has no
effect on the row of its present owner.
-/

namespace HardenLlm.Stateful

open Registry

open TrackingRow

open HardenLlm.Gateway

variable {A : Type} {d : Deployment A} {hash hash' id : String} {r q : TrackingRecord} {now : ℤ}
  {db db' : Database} {t t' : TrackingRow}

/-! ## Updates -/

/-- The row is open to a snapshot. -/
def TrackingRow.opens (hash : String) (r : TrackingRecord) (now : ℤ) (t : TrackingRow) : Bool :=
  t.hash = hash && t.record.id = r.id && t.record.ownerID = r.ownerID
    && t.record.revision < r.revision && t.record.finishedAt.isNone
    && now < t.record.retentionExpiresAt

theorem TrackingRow.opens_iff : t.opens hash r now = true ↔ t.Of hash r.id
    ∧ t.record.ownerID = r.ownerID ∧ t.record.revision < r.revision ∧ t.record.finishedAt = none
    ∧ now < t.record.retentionExpiresAt := by
  simp [opens, TrackingRow.Of, and_assoc]

/-- The row with the snapshot. -/
def TrackingRow.advance (r : TrackingRecord) (t : TrackingRow) : TrackingRow := (advanceTracking r).1 t

/-- The row after an update: it takes the snapshot, if it is open to it and
the table admits it. -/
def TrackingRow.after (applied : Bool) (hash : String) (r : TrackingRecord) (now : ℤ)
    (t : TrackingRow) : TrackingRow :=
  if applied && t.opens hash r now then t.advance r else t

variable {applied : Bool}

theorem TrackingRow.of_after : (t.after applied hash' r now).Of hash id ↔ t.Of hash id := by
  unfold after
  split
  · exact Iff.rfl
  · exact Iff.rfl

theorem TrackingRow.after_of_closed (h : t.opens hash r now = false) :
    t.after applied hash r now = t := by
  rw [after, h, Bool.and_false]
  rfl

/-- A snapshot that its table admits. -/
def Admitted (d : Deployment A) (hash : String) (r : TrackingRecord) (now : ℤ) (db : Database) :
    Prop :=
  (validKeyHash hash = true ∧ validTrackingID r.id = true ∧ validTrackingID r.ownerID = true)
    ∧ ∀ t ∈ (db .requestTracking).rows, opens hash r now t = true →
      d.check .requestTracking (advance r t) = true

theorem readOnly_retained (hash id : String) (now : ℤ) : (retained hash id now).ReadOnly :=
  .bind (.reads _) fun _ => .lift _

/-- What an update that returned did. -/
theorem of_updateTracking (h : (updateTracking d hash r now).exec db = (.ok (), db')) :
    Admitted d hash r now db
      ∧ ∀ t', t' ∈ (db' .requestTracking).rows ↔ ∃ t ∈ (db .requestTracking).rows,
        after true hash r now t = t' := by
  unfold updateTracking at h
  obtain ⟨_, _, hensure, hrest⟩ := Op.exec_bind_eq_ok.1 h
  obtain ⟨hvalid, rfl⟩ := Op.exec_ensure_eq_ok.1 hensure
  rw [Op.exec_mapError_eq_ok, Op.exec_atomically_eq_ok] at hrest
  obtain ⟨rows, _, hselect, hrest₁⟩ := Op.exec_bind_eq_ok.1 hrest
  obtain rfl := congrArg Prod.snd hselect
  obtain ⟨_, _, hcheck, hrest₂⟩ := Op.exec_bind_eq_ok.1 hrest₁
  obtain ⟨hchecks, rfl⟩ := Op.exec_ensure_eq_ok.1 hcheck
  obtain ⟨affected, db₁, hupdate, hrest₃⟩ := Op.exec_bind_eq_ok.1 hrest₂
  have hadmitted : Admitted d hash r now db := by
    refine ⟨hvalid, fun t ht hopens => ?_⟩
    have hmem := (Schema.mem_of_exec_selectFrom (congrArg Prod.fst hselect)).2 ⟨ht, hopens⟩
    exact List.all_eq_true.1 hchecks t hmem
  refine ⟨hadmitted, fun t' => ?_⟩
  -- What comes after the update only looks.
  have hdb : db' = db₁ := by
    split at hrest₃
    · cases hrest₃
      rfl
    · obtain ⟨saved, db₂, hsaved, hrest₄⟩ := Op.exec_bind_eq_ok.1 hrest₃
      obtain rfl : db₂ = db₁ := (congrArg Prod.snd hsaved).symm.trans (readOnly_retained _ _ _ db₁)
      split at hrest₄
      · cases hrest₄
      · exact (Op.exec_ensure_eq_ok.1 hrest₄).2.symm
  rw [hdb]
  exact Schema.mem_of_exec_updateIn hupdate

/-- An open row takes a snapshot that the table admits. -/
theorem updateTracking_returns (hadmitted : Admitted d hash r now db)
    (ht : t ∈ (db .requestTracking).rows) (hopens : t.opens hash r now = true) :
    ∃ db', (updateTracking d hash r now).exec db = (.ok (), db') := by
  have hchecks {rows : List TrackingRow}
      (hselect : (schema.selectFrom .requestTracking (opens hash r now) : Action _).exec db
        = (.ok rows, db)) :
      rows.all (fun t => d.check .requestTracking ((advanceTracking r).1 t)) = true := by
    refine List.all_eq_true.2 fun t ht => ?_
    obtain ⟨ht, hopens⟩ := (Schema.mem_of_exec_selectFrom (congrArg Prod.fst hselect)).1 ht
    exact hadmitted.2 t ht hopens
  obtain ⟨affected, db', haffected, hupdate⟩ := Schema.updateIn_returns (D := schema)
    (ε := Failure) (n := .requestTracking) (p := opens hash r now)
    (f := advanceTracking r) ht hopens
  refine ⟨db', Op.exec_bind_eq_ok.2 ⟨(), db, Op.exec_ensure_eq_ok.2 ⟨hadmitted.1, rfl⟩, ?_⟩⟩
  rw [Op.exec_mapError_eq_ok, Op.exec_atomically_eq_ok]
  refine Op.exec_bind_eq_ok.2 ⟨_, db, rfl, Op.exec_bind_eq_ok.2
    ⟨(), db, Op.exec_ensure_eq_ok.2 ⟨hchecks rfl, rfl⟩, Op.exec_bind_eq_ok.2
      ⟨affected, db', hupdate, ?_⟩⟩⟩
  rw [if_pos haffected]
  rfl

theorem clean_updateTracking : (updateTracking d hash r now).Clean :=
  .after fun _ => .mapError .atomically

/-- **What an update does**: the open row takes the snapshot, if the table
admits it. -/
theorem rows_updateTracking (d : Deployment A) (hash : String) (r : TrackingRecord) (now : ℤ)
    (db : Database) :
    ∃ applied : Bool, (Admitted d hash r now db → applied = true)
      ∧ ∀ t', t' ∈ (((updateTracking d hash r now).exec db).2 .requestTracking).rows
        ↔ ∃ t ∈ (db .requestTracking).rows, after applied hash r now t = t' := by
  rcases hexec : (updateTracking d hash r now).exec db with ⟨e | _, db'⟩
  · obtain rfl := clean_updateTracking hexec
    -- It failed for want of an open row, or because the snapshot is not admitted.
    by_cases hadmitted : Admitted d hash r now db'
    · refine ⟨true, fun _ => rfl, fun t' => ?_⟩
      have hclosed : ∀ t ∈ (db' .requestTracking).rows, opens hash r now t = false := by
        intro t ht
        rw [← Bool.not_eq_true]
        intro hopens
        obtain ⟨db₁, hok⟩ := updateTracking_returns hadmitted ht hopens
        cases hok.symm.trans hexec
      constructor
      · exact fun ht => ⟨t', ht, after_of_closed (hclosed t' ht)⟩
      · rintro ⟨t, ht, rfl⟩
        rwa [after_of_closed (hclosed t ht)]
    · refine ⟨false, fun h => absurd h hadmitted, fun t' => ?_⟩
      exact ⟨fun ht => ⟨t', ht, rfl⟩, fun ⟨t, ht, hsame⟩ => hsame ▸ ht⟩
  · obtain ⟨-, hrows⟩ := of_updateTracking hexec
    exact ⟨true, fun _ => rfl, hrows⟩

theorem clean_reserveTracking : (reserveTracking d hash r now).Clean :=
  .after fun _ => .mapError .atomically

/-! ## The row -/

/-- The table has this row of the request. -/
def Stored (hash id : String) (db : Database) (t : TrackingRow) : Prop :=
  t ∈ (db .requestTracking).rows ∧ t.Of hash id

/-- It has one row of a request at most. -/
theorem Stored.unique (h : Stored hash id db t) (h' : Stored hash id db t') : t = t' :=
  List.inj_on_of_nodup_map (db .requestTracking).nodup h.1 h'.1
    (Prod.ext (h.2.1.trans h'.2.1.symm) (h.2.2.trans h'.2.2.symm))

theorem of_retained (h : ((retained hash id now).exec db).1 = .ok (some r)) :
    ∃ t, Stored hash id db t ∧ t.record = r := by
  obtain ⟨rows, hselect, hrest⟩ := (Op.ReadOnly.reads _).of_exec_bind h
  have hhead : rows.head?.map (fun t : TrackingRow => t.record) = some r := Except.ok.inj hrest
  obtain ⟨t, ht, rfl⟩ := Option.map_eq_some_iff.1 hhead
  have hmem := (Schema.mem_of_exec_selectFrom hselect).1 (List.mem_of_head? ht)
  simp only [Bool.and_eq_true, decide_eq_true_eq] at hmem
  exact ⟨t, ⟨hmem.1, hmem.2.1⟩, rfl⟩

theorem readOnly_lookupTracking (hash id : String) (now : ℤ) : (lookupTracking hash id now).ReadOnly := by
  refine .bind (.lift _) fun _ => .bind (readOnly_retained hash id now) fun saved => ?_
  cases saved with
  | none | some => exact .lift _

/-- What a read back sees. -/
theorem of_lookupTracking (h : (lookupTracking hash id now).exec db = (.ok r, db')) :
    ∃ t, Stored hash id db t ∧ t.record = r := by
  obtain ⟨_, -, h₁⟩ := Op.ReadOnly.of_exec_bind_lift (congrArg Prod.fst h)
  obtain ⟨saved, hsaved, h₂⟩ := (readOnly_retained hash id now).of_exec_bind h₁
  cases saved with
  | none => cases h₂
  | some =>
    cases h₂
    exact of_retained hsaved

/-- An update of another request leaves the row alone. -/
theorem stored_updateOther (d : Deployment A) (now : ℤ) (db : Database)
    (hother : ¬ (hash' = hash ∧ r.id = id)) (t : TrackingRow) :
    Stored hash id ((updateTracking d hash' r now).exec db).2 t ↔ Stored hash id db t := by
  obtain ⟨applied, -, hrows⟩ := rows_updateTracking d hash' r now db
  have hclosed (t : TrackingRow) (h : t.Of hash id) : t.opens hash' r now = false := by
    rw [← Bool.not_eq_true, opens_iff]
    exact fun hopens => hother ⟨hopens.1.1.symm.trans h.1, hopens.1.2.symm.trans h.2⟩
  constructor
  · rintro ⟨ht, htof⟩
    obtain ⟨t₀, ht₀, rfl⟩ := (hrows t).1 ht
    have h₀ := of_after.1 htof
    rw [after_of_closed (hclosed t₀ h₀)]
    exact ⟨ht₀, h₀⟩
  · rintro ⟨ht, htof⟩
    exact ⟨(hrows t).2 ⟨t, ht, after_of_closed (hclosed t htof)⟩, htof⟩

/-- A snapshot that arrives: the row takes it, or stays. -/
theorem stored_update (d : Deployment A) (hash id : String) (r : TrackingRecord) (now : ℤ)
    (db : Database) :
    ∃ applied : Bool, (Admitted d hash r now db → applied = true)
      ∧ ∀ t', Stored hash id ((updateTracking d hash r now).exec db).2 t'
        ↔ ∃ t, Stored hash id db t ∧ t.after applied hash r now = t' := by
  obtain ⟨applied, happlied, hrows⟩ := rows_updateTracking d hash r now db
  refine ⟨applied, happlied, fun t' => ?_⟩
  constructor
  · rintro ⟨ht, htof⟩
    obtain ⟨t₀, ht₀, rfl⟩ := (hrows t').1 ht
    exact ⟨t₀, ⟨ht₀, of_after.1 htof⟩, rfl⟩
  · rintro ⟨t, ⟨ht, htof⟩, rfl⟩
    exact ⟨(hrows _).2 ⟨t, ht, rfl⟩, of_after.2 htof⟩

/-- A reservation of another request takes the row away only once it has
expired. -/
theorem stored_reserveOther (d : Deployment A) (now : ℤ) (db : Database)
    (hother : ¬ (hash' = hash ∧ r.id = id)) (t : TrackingRow) :
    (Stored hash id ((reserveTracking d hash' r now).exec db).2 t → Stored hash id db t)
      ∧ (Stored hash id db t → (hash' = hash → now < t.record.retentionExpiresAt) →
        Stored hash id ((reserveTracking d hash' r now).exec db).2 t) := by
  rcases hexec : (reserveTracking d hash' r now).exec db with ⟨e | _, db'⟩
  · obtain rfl := clean_reserveTracking hexec
    exact ⟨fun h => h, fun h _ => h⟩
  · have hregisters := of_reserveTracking hexec
    refine ⟨fun ⟨ht, hof⟩ => ⟨hregisters.others t ht fun hof' => hother ?_, hof⟩,
      fun ⟨ht, hof⟩ hretained => ⟨hregisters.kept t ht fun hscope => hretained ?_, hof⟩⟩
    · exact ⟨hof'.1.symm.trans hof.1, hof'.2.symm.trans hof.2⟩
    · exact hscope.symm.trans hof.1

/-! ## Owners -/

variable {s : Registry} {e : RegistryEvent}

/-- A record that was registered. -/
structure Reserved (hash id : String) (r : TrackingRecord) : Prop where
  id : r.id = id
  validHash : validKeyHash hash = true
  validID : validTrackingID r.id = true
  validOwner : validTrackingID r.ownerID = true
  checks : checks ⟨hash, reservation r⟩ = true

/-- **Who owns the row**: whoever registered it, and that until a
reservation finds it expired. -/
structure Owned (hash id : String) (s : Registry) : Prop where
  reserved : ∀ r ∈ s.registered, Reserved hash id r
  distinct : (s.registered.map (·.ownerID)).Nodup
  present : ∀ r ∈ s.registered, r.ownerID ∈ s.concluded
    ∨ ∃ t, Stored hash id s.db t ∧ t.record.ownerID = r.ownerID
  told : ∀ n ∈ s.told, ∃ r ∈ s.registered, r.ownerID = n
  stored : ∀ t, Stored hash id s.db t → ∃ r ∈ s.registered, SameRequest (reservation r) t.record

/-- An owner registers once. -/
theorem Owned.unique (h : Owned hash id s) {r r' : TrackingRecord} (hr : r ∈ s.registered)
    (hr' : r' ∈ s.registered) (howner : r.ownerID = r'.ownerID) : r = r' :=
  List.inj_on_of_nodup_map h.distinct hr hr' howner

theorem mem_expired {n : String} (h : Stored hash id s.db t) (hexpired : t.record.retentionExpiresAt ≤ now)
    (howner : t.record.ownerID = n) : n ∈ s.expired hash id now := by
  refine List.mem_map.2 ⟨t, List.mem_filter.2 ⟨h.1, ?_⟩, howner⟩
  simp [h.2.1, h.2.2, hexpired]

theorem owned_reserve (hcheck : d.check .requestTracking = checks)
    (h : Owned hash id s) (ha : s.Allows hash id (.reserve r now)) :
    Owned hash id (s.next d hash id (.reserve r now)) := by
  simp only [next]
  rcases hexec : (reserveTracking d hash r now).exec s.db with ⟨e | _, db'⟩
  · obtain rfl := clean_reserveTracking hexec
    exact h
  · have hregisters := of_reserveTracking hexec
    obtain ⟨hid, hfresh⟩ := ha
    have hrow : Stored hash id db' ⟨hash, reservation r⟩ := ⟨hregisters.registered, rfl, hid⟩
    refine ⟨?_, ?_, ?_, ?_, ?_⟩
    · rintro r' (_ | ⟨_, hr'⟩)
      · exact ⟨hid, hregisters.validHash, hregisters.validID, hregisters.validOwner,
          hcheck ▸ hregisters.checks⟩
      · exact h.reserved r' hr'
    · refine List.nodup_cons.2 ⟨fun hmem => ?_, h.distinct⟩
      obtain ⟨r', hr', howner⟩ := List.mem_map.1 hmem
      exact hfresh r' hr' howner
    · rintro r' (_ | ⟨_, hr'⟩)
      · exact .inr ⟨_, hrow, rfl⟩
      · -- The row that was there had expired.
        left
        obtain hover | ⟨t, ht, howner⟩ := h.present r' hr'
        · exact List.mem_append_right _ hover
        · exact List.mem_append_left _
            (mem_expired ht (hregisters.expired t ht.1 (hid ▸ ht.2)) howner)
    · intro n hn
      obtain ⟨r', hr', rfl⟩ := h.told n hn
      exact ⟨r', List.mem_cons_of_mem _ hr', rfl⟩
    · rintro t ht
      obtain rfl := ht.unique hrow
      exact ⟨r, List.mem_cons_self, .refl _⟩

theorem TrackingRow.sameRequest_after :
    SameRequest t.record (t.after applied hash r now).record := by
  unfold after
  split
  · exact ⟨rfl, rfl, rfl, rfl, rfl, rfl⟩
  · exact .refl _

theorem owned_deliver (h : Owned hash id s) :
    Owned hash id (s.next d hash id (.deliver r now)) := by
  obtain ⟨applied, -, hstored⟩ := stored_update d hash id r now s.db
  refine ⟨h.reserved, h.distinct, fun r' hr' => (h.present r' hr').imp_right ?_, h.told, ?_⟩
  · rintro ⟨t, ht, howner⟩
    exact ⟨_, (hstored _).2 ⟨t, ht, rfl⟩, sameRequest_after.ownerID.trans howner⟩
  · intro t' ht'
    obtain ⟨t, ht, rfl⟩ := (hstored t').1 ht'
    obtain ⟨r', hr', hsame⟩ := h.stored t ht
    exact ⟨r', hr', hsame.trans sameRequest_after⟩

theorem owned_reserveOther (h : Owned hash id s)
    (ha : s.Allows hash id (.reserveOther hash' r now)) :
    Owned hash id (s.next d hash id (.reserveOther hash' r now)) := by
  have hrow := stored_reserveOther d now s.db ha
  simp only [next]
  rcases hexec : (reserveTracking d hash' r now).exec s.db with ⟨e | _, db'⟩
  · obtain rfl := clean_reserveTracking hexec
    exact h
  rw [hexec] at hrow
  refine ⟨h.reserved, h.distinct, fun r' hr' => ?_, h.told, fun t ht => h.stored t ((hrow t).1 ht)⟩
  dsimp only
  obtain hover | ⟨t, ht, howner⟩ := h.present r' hr'
  · left
    split
    · exact List.mem_append_right _ hover
    · exact hover
  · by_cases hexpired : hash' = hash ∧ t.record.retentionExpiresAt ≤ now
    · left
      rw [if_pos hexpired.1]
      exact List.mem_append_left _ (mem_expired ht hexpired.2 howner)
    · right
      refine ⟨t, (hrow t).2 ht fun hscope => ?_, howner⟩
      exact not_le.1 fun hle => hexpired ⟨hscope, hle⟩

variable (d id) in
/-- A read back tells an owner, at most, that the row is theirs. -/
theorem next_readback (s : Registry) (q : TrackingRecord) (now : ℤ) :
    s.next d hash id (.readback q now) = s
      ∨ s.next d hash id (.readback q now) = { s with told := q.ownerID :: s.told }
        ∧ ∃ t, Stored hash q.id s.db t ∧ t.record.ownerID = q.ownerID := by
  have hreadOnly := readOnly_lookupTracking hash q.id now s.db
  simp only [next]
  rcases hexec : (lookupTracking hash q.id now).exec s.db with ⟨e | saved, db'⟩ <;>
    obtain rfl : db' = s.db := by rwa [hexec] at hreadOnly
  · exact .inl rfl
  · dsimp only
    split
    · rename_i howner
      obtain ⟨t, ht, rfl⟩ := of_lookupTracking hexec
      exact .inr ⟨rfl, t, ht, howner⟩
    · exact .inl rfl

/-- **One event**: who owns the row is known afterwards. -/
theorem owned_next (hcheck : d.check .requestTracking = checks) (h : Owned hash id s)
    (ha : s.Allows hash id e) : Owned hash id (s.next d hash id e) := by
  cases e with
  | reserve => exact owned_reserve hcheck h ha
  | acknowledge r =>
    refine { h with told := ?_ }
    rintro n (_ | ⟨_, hn⟩)
    · exact ⟨r, ha, rfl⟩
    · exact h.told n hn
  | readback r now =>
    obtain rfl : r.id = id := ha
    obtain hnext | ⟨hnext, t, ht, howner⟩ := next_readback d r.id s r now
    · rwa [hnext]
    · rw [hnext]
      refine { h with told := ?_ }
      rintro n (_ | ⟨_, hn⟩)
      · obtain ⟨r', hr', hsame⟩ := h.stored t ht
        exact ⟨r', hr', hsame.ownerID.symm.trans howner⟩
      · exact h.told n hn
  | start => exact { h with }
  | hear | take =>
    simp only [next]
    split
    · exact h
    · exact { h with }
  | deliver => exact owned_deliver h
  | reserveOther => exact owned_reserveOther h ha
  | updateOther hash' r now =>
    have hrow := stored_updateOther d now s.db ha
    refine ⟨h.reserved, h.distinct, fun r' hr' => (h.present r' hr').imp_right ?_, h.told,
      fun t ht => h.stored t ((hrow t).1 ht)⟩
    rintro ⟨t, ht, howner⟩
    exact ⟨t, (hrow t).2 ht, howner⟩

/-! ## Snapshots -/

/-- The session of an owner began with what they registered. -/
structure Began (hash : String) (s : Registry) (n : String) (x : Tracked) (r : TrackingRecord) :
    Prop where
  registered : r ∈ s.registered
  owner : r.ownerID = n
  whole : reservation r = r
  sound : Sound hash r
  reach : (tracked r).Reach x
  advances : Advances r x.session.record

/-- A snapshot is of a session, which has gone on since. -/
structure Snapped (hash : String) (s : Registry) (q : TrackingRecord) (r : TrackingRecord)
    (x : Tracked) : Prop where
  registered : r ∈ s.registered
  whole : reservation r = r
  same : SameRequest r q
  advances : Advances r q
  checks : checks ⟨hash, q⟩ = true
  session : s.session q.ownerID = some x
  since : Advances q x.session.record

/-- What has been in the table: a snapshot, or what was registered. -/
def Known (s : Registry) (q : TrackingRecord) : Prop :=
  q ∈ s.taken ∨ ∃ r ∈ s.registered, q = reservation r

/-- **What was sent**: the snapshots of a session follow one another, and
the row is the newest of those that arrived. -/
structure Sent (hash id : String) (s : Registry) : Prop where
  session : ∀ n x, s.session n = some x → ∃ r, Began hash s n x r
  taken : ∀ q ∈ s.taken, ∃ r x, Snapped hash s q r x
  ordered : ∀ q ∈ s.taken, ∀ q' ∈ s.taken, q.ownerID = q'.ownerID → Advances q q' ∨ Advances q' q
  known : ∀ q ∈ s.delivered, Known s q
  newest : ∀ t, Stored hash id s.db t → t.record ∈ s.delivered
    ∧ ∀ q ∈ s.delivered, q.ownerID = t.record.ownerID → q.revision ≤ t.record.revision

theorem Advances.revision_le {r r' : TrackingRecord} (h : Advances r r') : r.revision ≤ r'.revision := by
  obtain rfl | hlt := h.revision
  · exact le_rfl
  · exact hlt.le

/-- Of two records of one owner, one came after the other. -/
theorem Sent.comparable (ho : Owned hash id s) (h : Sent hash id s) {q q' : TrackingRecord}
    (hq : Known s q) (hq' : Known s q') (howner : q.ownerID = q'.ownerID) :
    Advances q q' ∨ Advances q' q := by
  -- A snapshot comes after what its session began with.
  have hfirst {q r : TrackingRecord} (hq : q ∈ s.taken) (hr : r ∈ s.registered)
      (howner : q.ownerID = r.ownerID) : Advances (reservation r) q := by
    obtain ⟨r', x, hsnapped⟩ := h.taken q hq
    obtain rfl := ho.unique hsnapped.registered hr (hsnapped.same.ownerID.symm.trans howner)
    rw [hsnapped.whole]
    exact hsnapped.advances
  obtain hq | ⟨r, hr, rfl⟩ := hq
  · obtain hq' | ⟨r', hr', rfl⟩ := hq'
    · exact h.ordered q hq q' hq' howner
    · exact .inr (hfirst hq hr' howner)
  · obtain hq' | ⟨r', hr', rfl⟩ := hq'
    · exact .inl (hfirst hq' hr howner.symm)
    · obtain rfl := ho.unique hr hr' howner
      exact .inl (.refl _)

/-- Nothing of the snapshots changes, and the rows there are, were. -/
theorem Sent.of_rows {s' : Registry} (h : Sent hash id s) (hsession : s'.session = s.session)
    (hregistered : s'.registered = s.registered) (htaken : s'.taken = s.taken)
    (hdelivered : s'.delivered = s.delivered)
    (hrows : ∀ t, Stored hash id s'.db t → Stored hash id s.db t) : Sent hash id s' := by
  refine ⟨fun n x hx => ?_, fun q hq => ?_, ?_, ?_, fun t ht => ?_⟩
  · obtain ⟨r, hbegan⟩ := h.session n x (hsession ▸ hx)
    exact ⟨r, { hbegan with registered := hregistered ▸ hbegan.registered }⟩
  · obtain ⟨r, x, hsnapped⟩ := h.taken q (htaken ▸ hq)
    exact ⟨r, x, { hsnapped with
      registered := hregistered ▸ hsnapped.registered, session := hsession ▸ hsnapped.session }⟩
  · rw [htaken]
    exact h.ordered
  · unfold Known
    rw [hdelivered, htaken, hregistered]
    exact h.known
  · rw [hdelivered]
    exact h.newest t (hrows t ht)

theorem sent_reserve (hfresh : ∀ r' ∈ s.registered, r'.ownerID ≠ r.ownerID) (hid : r.id = id)
    (h : Sent hash id s) : Sent hash id (s.next d hash id (.reserve r now)) := by
  simp only [next]
  rcases hexec : (reserveTracking d hash r now).exec s.db with ⟨e | _, db'⟩
  · obtain rfl := clean_reserveTracking hexec
    exact h.of_rows rfl rfl rfl rfl fun _ ht => ht
  · have hregisters := of_reserveTracking hexec
    have hrow : Stored hash id db' ⟨hash, reservation r⟩ := ⟨hregisters.registered, rfl, hid⟩
    refine ⟨fun n x hx => ?_, fun q hq => ?_, h.ordered, ?_, fun t ht => ?_⟩
    · obtain ⟨r', hbegan⟩ := h.session n x hx
      exact ⟨r', { hbegan with registered := List.mem_cons_of_mem _ hbegan.registered }⟩
    · obtain ⟨r', x, hsnapped⟩ := h.taken q hq
      exact ⟨r', x, { hsnapped with registered := List.mem_cons_of_mem _ hsnapped.registered }⟩
    · rintro q (_ | ⟨_, hq⟩)
      · exact .inr ⟨r, List.mem_cons_self, rfl⟩
      · exact (h.known q hq).imp_right fun ⟨r', hr', hq'⟩ => ⟨r', List.mem_cons_of_mem _ hr', hq'⟩
    · -- No earlier record is of this owner.
      obtain rfl := ht.unique hrow
      refine ⟨List.mem_cons_self, ?_⟩
      rintro q (_ | ⟨_, hq⟩) howner
      · exact le_rfl
      · exfalso
        obtain hq | ⟨r', hr', rfl⟩ := h.known q hq
        · obtain ⟨r', x, hsnapped⟩ := h.taken q hq
          exact hfresh r' hsnapped.registered (hsnapped.same.ownerID.symm.trans howner)
        · exact hfresh r' hr' howner

theorem sent_start (hnew : ∃ endpoint now deadline owner,
      newTrackingRecord id endpoint now deadline owner = some r)
    (hr : r ∈ s.registered) (hnone : s.session r.ownerID = none)
    (ho : Owned hash id s) (h : Sent hash id s) : Sent hash id (s.next d hash id (.start r)) := by
  obtain ⟨endpoint, created, deadline, owner, hnew⟩ := hnew
  obtain ⟨-, -, hwhole, -⟩ := of_newTrackingRecord hnew
  have hreserved := ho.reserved r hr
  have hchecks := hreserved.checks
  rw [hwhole] at hchecks
  have hsound := sound_of_new hnew hreserved.validHash hreserved.validID hreserved.validOwner hchecks
  refine ⟨fun n x hx => ?_, fun q hq => ?_, h.ordered, h.known, h.newest⟩
  · by_cases hn : n = r.ownerID
    · subst hn
      simp only [next, Function.update_self, Option.some.injEq] at hx
      subst hx
      exact ⟨r, hr, rfl, hwhole, hsound, .init rfl, .refl r⟩
    · simp only [next, Function.update_of_ne hn] at hx
      obtain ⟨r', hbegan⟩ := h.session n x hx
      exact ⟨r', { hbegan with }⟩
  · obtain ⟨r', x, hsnapped⟩ := h.taken q hq
    have hne : q.ownerID ≠ r.ownerID := fun heq => by
      have hx := hsnapped.session
      rw [heq, hnone] at hx
      cases hx
    exact ⟨r', x, { hsnapped with
      session := (Function.update_of_ne hne _ _).trans hsnapped.session }⟩

theorem sent_hear {n : String} {e : TrackedEvent} (ha : s.Allows hash id (.hear n e))
    (h : Sent hash id s) : Sent hash id (s.next d hash id (.hear n e)) := by
  obtain ⟨x, hx, hallows⟩ := ha
  have hnext : s.next d hash id (.hear n e)
      = { s with session := Function.update s.session n (some (x.next e)) } := by
    simp only [next, hx]
  rw [hnext]
  obtain ⟨r, hbegan⟩ := h.session n x hx
  have hstep : (tracked r).step x (x.next e) := ⟨e, hallows, rfl⟩
  have hadvances := hbegan.sound.advances x (x.next e) hbegan.reach (.single hstep)
  refine ⟨fun n' x' hx' => ?_, fun q hq => ?_, h.ordered, h.known, h.newest⟩
  · by_cases hn : n' = n
    · subst hn
      simp only [Function.update_self, Option.some.injEq] at hx'
      subst hx'
      exact ⟨r, { hbegan with
        reach := .step hbegan.reach hstep, advances := hbegan.advances.trans hadvances }⟩
    · simp only [Function.update_of_ne hn] at hx'
      obtain ⟨r', hbegan'⟩ := h.session n' x' hx'
      exact ⟨r', { hbegan' with }⟩
  · obtain ⟨r', x', hsnapped⟩ := h.taken q hq
    by_cases hn : q.ownerID = n
    · -- The session has gone on once more.
      have hsession := hsnapped.session
      rw [hn, hx] at hsession
      cases hsession
      refine ⟨r', x.next e, { hsnapped with
        session := ?_, since := hsnapped.since.trans hadvances }⟩
      simp only [hn, Function.update_self]
    · exact ⟨r', x', { hsnapped with
        session := (Function.update_of_ne hn _ _).trans hsnapped.session }⟩

theorem sent_take (n : String) (h : Sent hash id s) : Sent hash id (s.next d hash id (.take n)) := by
  cases hx : s.session n with
  | none =>
    have hnext : s.next d hash id (.take n) = s := by simp only [next, hx]
    rw [hnext]
    exact h
  | some x =>
    have hnext : s.next d hash id (.take n) = { s with taken := x.session.record :: s.taken } := by
      simp only [next, hx]
    rw [hnext]
    obtain ⟨r, hbegan⟩ := h.session n x hx
    have hsame := hbegan.sound.same x hbegan.reach
    have howner : x.session.record.ownerID = n := hsame.ownerID.trans hbegan.owner
    -- What was taken of this session before came before.
    have hbefore (q : TrackingRecord) (hq : q ∈ s.taken) (heq : q.ownerID = x.session.record.ownerID) :
        Advances q x.session.record := by
      obtain ⟨r', x', hsnapped⟩ := h.taken q hq
      have hsession := hsnapped.session
      rw [heq, howner, hx] at hsession
      cases hsession
      exact hsnapped.since
    refine ⟨fun n' x' hx' => ?_, ?_, ?_, ?_, h.newest⟩
    · obtain ⟨r', hbegan'⟩ := h.session n' x' hx'
      exact ⟨r', { hbegan' with }⟩
    · rintro q (_ | ⟨_, hq⟩)
      · exact ⟨r, x, hbegan.registered, hbegan.whole, hsame, hbegan.advances,
          hbegan.sound.checks x hbegan.reach, howner ▸ hx, .refl _⟩
      · obtain ⟨r', x', hsnapped⟩ := h.taken q hq
        exact ⟨r', x', { hsnapped with }⟩
    · rintro q (_ | ⟨_, hq⟩) q' (_ | ⟨_, hq'⟩) heq
      · exact .inl (.refl _)
      · exact .inr (hbefore q' hq' heq.symm)
      · exact .inl (hbefore q hq heq)
      · exact h.ordered q hq q' hq' heq
    · exact fun q hq => (h.known q hq).imp_left (List.mem_cons_of_mem _)

/-- A row with a snapshot of its own request is the snapshot. -/
theorem TrackingRow.advance_of_same (hhash : t.hash = hash) (hsame : SameRequest t.record q) :
    t.advance q = ⟨hash, q⟩ := by
  obtain ⟨h1, h2, h3, h4, h5, h6⟩ := hsame
  cases t
  cases q
  simp_all [advance, advanceTracking]

section

variable (hcheck : d.check .requestTracking = checks)
include hcheck

theorem sent_deliver (hq : q ∈ s.taken)
    (ho : Owned hash id s) (h : Sent hash id s) :
    Sent hash id (s.next d hash id (.deliver q now)) := by
  obtain ⟨r, x, hsnapped⟩ := h.taken q hq
  have hreserved := ho.reserved r hsnapped.registered
  -- A row of this owner is of the request that the snapshot is of.
  have hsame (t : TrackingRow) (ht : Stored hash id s.db t)
      (howner : t.record.ownerID = q.ownerID) : SameRequest t.record q := by
    obtain ⟨r', hr', hstored⟩ := ho.stored t ht
    obtain rfl := ho.unique hsnapped.registered hr'
      (hsnapped.same.ownerID.symm.trans (howner.symm.trans hstored.ownerID))
    rw [hsnapped.whole] at hstored
    exact hstored.symm.trans hsnapped.same
  have hid : q.id = id := hsnapped.same.id.trans hreserved.id
  have hadmitted : Admitted d hash q now s.db := by
    refine ⟨⟨hreserved.validHash, ?_, ?_⟩, fun t ht hopens => ?_⟩
    · rw [hsnapped.same.id]
      exact hreserved.validID
    · rw [hsnapped.same.ownerID]
      exact hreserved.validOwner
    · obtain ⟨hof, howner, -⟩ := opens_iff.1 hopens
      rw [advance_of_same hof.1 (hsame t ⟨ht, hid ▸ hof⟩ howner), hcheck]
      exact hsnapped.checks
  obtain ⟨applied, happlied, hstored⟩ := stored_update d hash id q now s.db
  obtain rfl := happlied hadmitted
  have hdelivered {p : TrackingRecord} : p ∈ (s.next d hash id (.deliver q now)).delivered
      ↔ p = q ∧ now < q.retentionExpiresAt ∨ p ∈ s.delivered := by
    simp only [next]
    split <;> simp [*]
  refine ⟨fun n x hx => ?_, fun q' hq' => ?_, h.ordered, fun p hp => ?_, fun t' ht' => ?_⟩
  · obtain ⟨r', hbegan⟩ := h.session n x hx
    exact ⟨r', { hbegan with }⟩
  · obtain ⟨r', x', hsnapped'⟩ := h.taken q' hq'
    exact ⟨r', x', { hsnapped' with }⟩
  · obtain ⟨rfl, -⟩ | hp := hdelivered.1 hp
    · exact .inl hq
    · exact h.known p hp
  · obtain ⟨t, ht, rfl⟩ := (hstored t').1 ht'
    obtain ⟨hmem, hnewest⟩ := h.newest t ht
    by_cases hopens : t.opens hash q now = true
    · -- The row takes the snapshot, which is newer than all before.
      obtain ⟨hof, howner, hlt, -, hretained⟩ := opens_iff.1 hopens
      have hsame' := hsame t ht howner
      have hafter : t.after true hash q now = ⟨hash, q⟩ := by
        rw [after, hopens, Bool.and_self, if_pos rfl, advance_of_same hof.1 hsame']
      rw [hafter]
      refine ⟨hdelivered.2 (.inl ⟨rfl, hsame'.retentionExpiresAt ▸ hretained⟩), fun p hp hp' => ?_⟩
      obtain ⟨rfl, -⟩ | hp := hdelivered.1 hp
      · exact le_rfl
      · exact (hnewest p hp (hp'.trans howner.symm)).trans hlt.le
    · rw [after_of_closed (Bool.not_eq_true _ ▸ hopens)]
      refine ⟨hdelivered.2 (.inr hmem), fun p hp hp' => ?_⟩
      obtain ⟨rfl, hretained⟩ | hp := hdelivered.1 hp
      · -- It is closed to the snapshot because it has as new a record, or is finished.
        by_contra hlt
        have hsame' := hsame t ht hp'.symm
        have hfinished : t.record.finishedAt ≠ none := fun hopen => hopens
          (opens_iff.2 ⟨⟨ht.2.1, ht.2.2.trans hid.symm⟩, hp'.symm, not_le.1 hlt, hopen,
            hsame'.retentionExpiresAt ▸ hretained⟩)
        obtain hadvances | hadvances := h.comparable ho (h.known _ hmem) (.inl hq) hp'.symm
        · exact hlt (hadvances.finished hfinished ▸ le_rfl)
        · exact hlt hadvances.revision_le
      · exact hnewest p hp hp'

/-- **One event**: the row is the newest of what arrived afterwards. -/
theorem sent_next (ho : Owned hash id s)
    (h : Sent hash id s) (ha : s.Allows hash id e) : Sent hash id (s.next d hash id e) := by
  cases e with
  | reserve => exact sent_reserve ha.2 ha.1 h
  | acknowledge => exact h.of_rows rfl rfl rfl rfl fun _ ht => ht
  | readback r now =>
    obtain hnext | ⟨hnext, -⟩ := next_readback d id s r now
    · rwa [hnext]
    · rw [hnext]
      exact h.of_rows rfl rfl rfl rfl fun _ ht => ht
  | start => exact sent_start ha.2.2.2 ha.1 ha.2.2.1 ho h
  | hear => exact sent_hear ha h
  | take n => exact sent_take n h
  | deliver => exact sent_deliver hcheck ha ho h
  | reserveOther hash' r now =>
    have hrow := stored_reserveOther d now s.db ha
    simp only [next]
    split <;> rename_i hexec <;> rw [hexec] at hrow
    · exact h.of_rows rfl rfl rfl rfl fun t ht => (hrow t).1 ht
    · exact h.of_rows rfl rfl rfl rfl fun t ht => (hrow t).1 ht
  | updateOther hash' r now =>
    exact h.of_rows rfl rfl rfl rfl fun t ht => (stored_updateOther d now s.db ha t).1 ht

theorem owned_sent_of_reach
    (h : (registry d hash id).Reach s) : Owned hash id s ∧ Sent hash id s := by
  refine System.Reach.invariant (P := fun s => Owned hash id s ∧ Sent hash id s) ?_ ?_ h
  · rintro _ ⟨db, rfl, hnone⟩
    have hnone' (t : TrackingRow) (ht : Stored hash id db t) : False := hnone t ht.1 ht.2
    refine ⟨⟨?_, List.nodup_nil, ?_, ?_, fun t ht => (hnone' t ht).elim⟩,
      ⟨(fun n x hx => by cases hx), ?_, ?_, ?_, fun t ht => (hnone' t ht).elim⟩⟩
    all_goals
      intro _ hmem
      cases hmem
  · rintro s₁ s₂ - ⟨ho, hs⟩ ⟨e, ha, rfl⟩
    exact ⟨owned_next hcheck ho ha, sent_next hcheck ho hs ha⟩

end

/-! ## The registry -/

/-- **What holds of the row of a request.** -/
structure Converges (d : Deployment A) (hash id : String) : Prop where
  /-- It is the newest of what arrived, from its registration on. -/
  newest : ∀ s, (registry d hash id).Reach s → ∀ t, Stored hash id s.db t →
    t.record ∈ s.delivered ∧ ∀ q ∈ s.delivered, q.ownerID = t.record.ownerID →
      q.revision ≤ t.record.revision ∧ (q.revision = t.record.revision → q = t.record)
  /-- A finished row stays while it is retained. -/
  final : ∀ s s' t, Stored hash id s.db t → t.record.finishedAt ≠ none →
    Relation.ReflTransGen (StepBefore d hash id t.record.retentionExpiresAt) s s' →
    ∀ t', Stored hash id s'.db t' ↔ t' = t
  /-- Who was told owns the row, as long as no reservation found it
  expired; so there is one at most. -/
  owns : ∀ s, (registry d hash id).Reach s → ∀ n ∈ s.told, n ∉ s.concluded →
    ∃ t, Stored hash id s.db t ∧ t.record.ownerID = n
  exclusive : ∀ s, (registry d hash id).Reach s → ∀ n ∈ s.told, ∀ m ∈ s.told, n ∉ s.concluded →
    m ∉ s.concluded → n = m
  /-- Others do nothing to the row, and are not told that it is theirs. -/
  fenced : ∀ s, (registry d hash id).Reach s → ∀ t, Stored hash id s.db t → ∀ q now,
    q.ownerID ≠ t.record.ownerID →
    (∀ t', Stored hash id (s.next d hash id (.deliver q now)).db t' ↔ t' = t)
      ∧ (q.id = id → (s.next d hash id (.readback q now)).db = s.db
        ∧ (s.next d hash id (.readback q now)).told = s.told)

/-- A row that is there is the only one. -/
theorem Stored.iff_eq (h : Stored hash id db t) : Stored hash id db t' ↔ t' = t :=
  ⟨fun h' => h'.unique h, fun heq => heq ▸ h⟩

/-- A row that is closed to a snapshot stays. -/
theorem stored_closed (ht : Stored hash id s.db t) (hclosed : t.opens hash q now = false) :
    Stored hash id (s.next d hash id (.deliver q now)).db t := by
  obtain ⟨applied, -, hstored⟩ := stored_update d hash id q now s.db
  exact (hstored t).2 ⟨t, ht, after_of_closed hclosed⟩

theorem db_readback (s : Registry) (q : TrackingRecord) (now : ℤ) :
    (s.next d hash id (.readback q now)).db = s.db := by
  obtain hnext | ⟨hnext, -⟩ := next_readback d id s q now <;> rw [hnext]

/-- A finished row stays while it is retained. -/
theorem stored_finished (ha : s.Allows hash id e) (ht : Stored hash id s.db t)
    (hfinished : t.record.finishedAt ≠ none)
    (hclock : ∀ now, e.clock? = some now → now < t.record.retentionExpiresAt) :
    Stored hash id (s.next d hash id e).db t := by
  cases e with
  | reserve r now =>
    simp only [next]
    rcases hexec : (reserveTracking d hash r now).exec s.db with ⟨e | _, db'⟩
    · obtain rfl := clean_reserveTracking hexec
      exact ht
    · exact absurd ((of_reserveTracking hexec).expired t ht.1 (ha.1 ▸ ht.2))
        (not_le.2 (hclock now rfl))
  | acknowledge => exact ht
  | readback =>
    rw [db_readback]
    exact ht
  | start => exact ht
  | hear | take =>
    simp only [next]
    split
    · exact ht
    · exact ht
  | deliver =>
    refine stored_closed ht ?_
    rw [← Bool.not_eq_true, opens_iff]
    exact fun hopens => hfinished hopens.2.2.2.1
  | reserveOther hash' r now =>
    have hrow := (stored_reserveOther d now s.db ha t).2 ht fun _ => hclock now rfl
    simp only [next]
    split <;> rename_i hexec <;> rwa [hexec] at hrow
  | updateOther hash' r now => exact (stored_updateOther d now s.db ha t).2 ht

/-- Who does not own the row is not told that they do. -/
theorem told_readback (ht : Stored hash id s.db t) (hid : q.id = id)
    (howner : q.ownerID ≠ t.record.ownerID) :
    (s.next d hash id (.readback q now)).told = s.told := by
  obtain hnext | ⟨-, t', ht', howner'⟩ := next_readback d id s q now
  · rw [hnext]
  · obtain rfl := (hid ▸ ht').unique ht
    exact absurd howner'.symm howner

/-- **Many writers, one row.** -/
theorem registry_converges (hcheck : d.check .requestTracking = checks) : Converges d hash id := by
  have hkept {s : Registry} (h : (registry d hash id).Reach s) := owned_sent_of_reach hcheck h
  have howns : ∀ s, (registry d hash id).Reach s → ∀ n ∈ s.told, n ∉ s.concluded →
      ∃ t, Stored hash id s.db t ∧ t.record.ownerID = n := by
    intro s h n hn hover
    obtain ⟨r, hr, rfl⟩ := (hkept h).1.told n hn
    exact ((hkept h).1.present r hr).resolve_left hover
  refine ⟨fun s h t ht => ?_, fun s s' t ht hfinished hrun t' => ?_, howns, ?_, ?_⟩
  · obtain ⟨ho, hs⟩ := hkept h
    obtain ⟨hmem, hnewest⟩ := hs.newest t ht
    refine ⟨hmem, fun q hq howner => ⟨hnewest q hq howner, fun hrevision => ?_⟩⟩
    obtain hadvances | hadvances := hs.comparable ho (hs.known q hq) (hs.known _ hmem) howner
    · exact (hadvances.revision.resolve_right hrevision.not_lt).symm
    · exact hadvances.revision.resolve_right hrevision.not_gt
  · refine Stored.iff_eq ?_
    induction hrun with
    | refl => exact ht
    | tail _ hstep ih =>
      obtain ⟨e, ha, hclock, rfl⟩ := hstep
      exact stored_finished ha ih hfinished hclock
  · intro s h n hn m hm hover hover'
    obtain ⟨t, ht, rfl⟩ := howns s h n hn hover
    obtain ⟨t', ht', rfl⟩ := howns s h m hm hover'
    rw [ht.unique ht']
  · intro s h t ht q now howner
    refine ⟨fun t' => (stored_closed ht ?_).iff_eq,
      fun hid => ⟨db_readback s q now, told_readback ht hid howner⟩⟩
    rw [← Bool.not_eq_true, opens_iff]
    exact fun hopens => howner hopens.2.1.symm

namespace Sample

/-- The request is registered and its owner is told. -/
def acknowledged : Registry :=
  ((({ db := database } : Registry).next tracking keyHash requestID (.reserve request 1)).next
    tracking keyHash requestID (.acknowledge request))

end Sample

open Sample

/-- One owner registers, and converges with whoever comes later. -/
theorem registry_converges_request :
    (registry tracking keyHash requestID).Reach acknowledged ∧ acknowledged.told = [nonce]
      ∧ Converges tracking keyHash requestID := by
  have hregistered : (({ db := database } : Registry).next tracking keyHash requestID
      (.reserve request 1)).registered = [request] := rfl
  refine ⟨.step (.step (.init ⟨database, rfl, ?_⟩) ⟨.reserve request 1, ⟨rfl, ?_⟩, rfl⟩)
    ⟨.acknowledge request, ?_, rfl⟩, rfl, registry_converges rfl⟩
  · intro t ht
    cases ht
  · intro r hr
    cases hr
  · simp only [Registry.Allows, hregistered, List.mem_singleton]

end HardenLlm.Stateful
