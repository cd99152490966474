import HardenLlm.Stateful.Model.Tracking
/-!
# The row of a request and who writes it

Everything that reaches one row of `request_tracking`, over any length of
time: `ReserveTracking` calls that race for the identifier, each with an
owner of its own, whose commits are acknowledged, or not and then read
back; the sessions of those that were told they had succeeded; and their
snapshots, which arrive late, repeatedly, in another order or never. Every
operation reads a clock of its own.
-/

namespace HardenLlm.Stateful

open HardenLlm.Gateway

/-- **The registry of one request.** All but the database and the sessions
is what has happened so far, newest first. -/
structure Registry where
  db : Database
  session : String → Option Tracked := fun _ => none
  /-- The records whose reservation took effect. -/
  registered : List TrackingRecord := []
  /-- The owners who were told that they had succeeded. -/
  told : List String := []
  /-- The owners whose row had expired when a reservation took effect. -/
  concluded : List String := []
  /-- The snapshots of all sessions. -/
  taken : List TrackingRecord := []
  /-- The records that reached the table before they expired. -/
  delivered : List TrackingRecord := []

inductive RegistryEvent
  /-- The transaction of a reservation takes effect. -/
  | reserve (r : TrackingRecord) (now : ℤ)
  /-- Its commit is acknowledged. -/
  | acknowledge (r : TrackingRecord)
  /-- Its commit is not, and the row is read back. -/
  | readback (r : TrackingRecord) (now : ℤ)
  /-- The call begins. -/
  | start (r : TrackingRecord)
  | hear (owner : String) (e : TrackedEvent)
  | take (owner : String)
  /-- A snapshot arrives. -/
  | deliver (r : TrackingRecord) (now : ℤ)
  /-- Another request, of this or another scope, is registered. -/
  | reserveOther (hash : String) (r : TrackingRecord) (now : ℤ)
  | updateOther (hash : String) (r : TrackingRecord) (now : ℤ)

namespace Registry

variable {A : Type} (d : Deployment A) (hash id : String) (s : Registry)

/-- What may happen. Every reservation has an owner of its own; what is
acknowledged has taken effect; a call begins once it was told. A read back
may come at any time, for an effect may be late. -/
def Allows : RegistryEvent → Prop
  | .reserve r _ => r.id = id ∧ ∀ r' ∈ s.registered, r'.ownerID ≠ r.ownerID
  | .acknowledge r => r ∈ s.registered
  | .readback r _ => r.id = id
  | .start r => r ∈ s.registered ∧ r.ownerID ∈ s.told ∧ s.session r.ownerID = none
      ∧ ∃ endpoint now deadline owner, newTrackingRecord id endpoint now deadline owner = some r
  | .hear owner e => ∃ x, s.session owner = some x ∧ x.Allows e
  | .take _ => True
  | .deliver r _ => r ∈ s.taken
  | .reserveOther hash' r _ | .updateOther hash' r _ => ¬ (hash' = hash ∧ r.id = id)

/-- The owner whose row has expired when a reservation reads its clock. -/
def expired (now : ℤ) : List String :=
  let rows : List TrackingRow := (s.db .requestTracking).rows
  (rows.filter fun t => t.hash = hash && t.record.id = id && t.record.retentionExpiresAt ≤ now).map
    (·.record.ownerID)

/-- The registry after an event. -/
def next : RegistryEvent → Registry
  | .reserve r now =>
    match (reserveTracking d hash r now).exec s.db with
    | (.ok _, db) =>
      { s with
        db := db
        concluded := s.expired hash id now ++ s.concluded
        registered := r :: s.registered
        delivered := reservation r :: s.delivered }
    | (.error _, db) => { s with db := db }
  | .acknowledge r => { s with told := r.ownerID :: s.told }
  | .readback r now =>
    match (lookupTracking hash r.id now).exec s.db with
    | (.ok saved, db) =>
      { s with db := db, told := if saved.ownerID = r.ownerID then r.ownerID :: s.told else s.told }
    | (.error _, db) => { s with db := db }
  | .start r =>
    { s with
      session := Function.update s.session r.ownerID (some { session := { record := r } }) }
  | .hear owner e =>
    match s.session owner with
    | none => s
    | some x => { s with session := Function.update s.session owner (some (x.next e)) }
  | .take owner =>
    match s.session owner with
    | none => s
    | some x => { s with taken := x.session.record :: s.taken }
  | .deliver r now =>
    { s with
      db := ((updateTracking d hash r now).exec s.db).2
      delivered := if now < r.retentionExpiresAt then r :: s.delivered else s.delivered }
  | .reserveOther hash' r now =>
    match (reserveTracking d hash' r now).exec s.db with
    | (.ok _, db) =>
      { s with
        db := db
        concluded := if hash' = hash then s.expired hash id now ++ s.concluded else s.concluded }
    | (.error _, db) => { s with db := db }
  | .updateOther hash' r now => { s with db := ((updateTracking d hash' r now).exec s.db).2 }

end Registry

/-- The clock that an event reads at the table. -/
def RegistryEvent.clock? : RegistryEvent → Option ℤ
  | .reserve _ now | .readback _ now | .deliver _ now | .reserveOther _ _ now
  | .updateOther _ _ now => some now
  | _ => none

/-- **The registry as a system**, from a table that has no row of the
request. -/
def registry {A : Type} (d : Deployment A) (hash id : String) : System Registry where
  init s := ∃ db : Database, s = { db := db }
    ∧ ∀ t ∈ (db .requestTracking).rows, ¬ ((t : TrackingRow).hash = hash ∧ t.record.id = id)
  step s s' := ∃ e, s.Allows hash id e ∧ s' = s.next d hash id e

/-- One event, at the table before `limit`. -/
def Registry.StepBefore {A : Type} (d : Deployment A) (hash id : String) (limit : ℤ)
    (s s' : Registry) : Prop :=
  ∃ e, s.Allows hash id e ∧ (∀ now, e.clock? = some now → now < limit) ∧ s' = s.next d hash id e

end HardenLlm.Stateful
