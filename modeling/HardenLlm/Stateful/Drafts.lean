import HardenLlm.Common.System
import HardenLlm.Stateful.Cache
/-!
# Drafts of concurrent clients

Any number of clients read and save one draft, over any length of time.
The revision a client has seen is all it sends along, and a draft that
expired is created anew from revision one: a number may stand for another
content than the one it was seen with. Where no client saves with a
revision that it saw before the draft was last created, a save replaces the
content its client knows.
-/

namespace HardenLlm.Stateful

open Bindings List

variable {A : Type} {d : Deployment A} {hash key : String} {input : SaveDraftInput} {now : ℤ}
  {db db' : Database} {draft : Draft}

/-! ## What a save does -/

/-- The row is the draft of this key. -/
def DraftRow.Of (hash key : String) (r : DraftRow) : Prop := r.hash = hash ∧ r.draftKey = key

theorem DraftRow.Of.key_eq {r r' : DraftRow} (h : r.Of hash key) (h' : r'.Of hash key) :
    schema.key .drafts r = schema.key .drafts r' :=
  Prod.ext (h.1.trans h'.1.symm) (h.2.trans h'.2.symm)

/-- One draft has one row. -/
theorem DraftRow.Of.unique {r r' : DraftRow} (h : r.Of hash key) (h' : r'.Of hash key)
    (hr : r ∈ (db .drafts).rows) (hr' : r' ∈ (db .drafts).rows) : r = r' :=
  inj_on_of_nodup_map (db .drafts).nodup hr hr' (h.key_eq h')

/-- **What a save did** that left the draft at this revision: nothing else
is new, and with an expected revision the draft was there at it. -/
structure Saved (hash key : String) (input : SaveDraftInput) (now : ℤ) (db db' : Database)
    (revision : ℤ) : Prop where
  rows : ∀ r ∈ (db' .drafts).rows, r.Of hash key ∧ r.revision = revision ∧ r.payload = input.payload
    ∨ ¬ r.Of hash key ∧ r ∈ (db .drafts).rows
  expected : input.revision = 0 ∧ revision = 1
    ∨ revision = input.revision + 1 ∧ ∃ old ∈ (db .drafts).rows, old.Of hash key
      ∧ old.revision = input.revision ∧ now < old.expiresAt

theorem of_upsertDraftTx {revision : ℤ}
    (h : (upsertDraftTx d hash key input now).exec db = (.ok (some revision), db')) :
    Saved hash key input now db db' revision := by
  unfold upsertDraftTx at h
  obtain ⟨current, _, hselect, hrest⟩ := Op.exec_bind_eq_ok.1 h
  clear h
  obtain rfl := congrArg Prod.snd hselect
  split at hrest
  · rename_i hmay
    simp only [Op.exec_bind_eq_ok] at hrest
    obtain ⟨_, db₁, hcheck, added, db₂, hinsert, hrest⟩ := hrest
    obtain rfl : db = db₁ := congrArg Prod.snd hcheck
    rcases Schema.of_exec_insertInto hinsert with ⟨rfl, hrows, hfree⟩ | ⟨rfl, rfl, -⟩
    · simp only [↓reduceIte] at hrest
      cases hrest
      refine ⟨fun r hr => ?_, ?_⟩
      · rw [hrows] at hr
        rcases mem_cons.1 hr with rfl | hr
        · exact .inl ⟨⟨rfl, rfl⟩, rfl, rfl⟩
        · exact .inr ⟨fun hof => hfree r hr (hof.key_eq ⟨rfl, rfl⟩), hr⟩
      · rcases hmay with hzero | hcurrent
        · exact .inl ⟨hzero, by rw [hzero]; rfl⟩
        · obtain ⟨old, hold⟩ := exists_mem_of_ne_nil _ hcurrent
          obtain ⟨hmem, hp⟩ :=
            (Schema.mem_of_exec_selectFrom (congrArg Prod.fst hselect)).1 hold
          simp only [Bool.and_eq_true, decide_eq_true_eq] at hp
          exact .inr ⟨rfl, old, hmem, hp.1.1, hp.1.2, hp.2⟩
    · simp only [Bool.false_eq_true, ↓reduceIte] at hrest
      obtain ⟨affected, db₃, hupdate, hread⟩ := Op.exec_bind_eq_ok.1 hrest
      obtain ⟨rows, db₄, hrows, hreturn⟩ := Op.exec_bind_eq_ok.1 hread
      obtain rfl : db₃ = db₄ := congrArg Prod.snd hrows
      obtain rfl : db₃ = db' := congrArg Prod.snd hreturn
      have hmem (r : DraftRow) := Schema.mem_of_exec_updateIn hupdate (r := r)
      obtain ⟨haffected, hhead⟩ : affected ≠ 0 ∧ rows.head?.map (·.revision) = some revision := by
        by_cases hzero : affected = 0
        · rw [if_pos hzero] at hreturn
          cases hreturn
        · rw [if_neg hzero] at hreturn
          exact ⟨hzero, Except.ok.inj (congrArg Prod.fst hreturn)⟩
      obtain ⟨new, hnew, hrevision⟩ := Option.map_eq_some_iff.1 hhead
      obtain ⟨hnewMem, hnewOf⟩ := (Schema.mem_of_exec_selectFrom
        (congrArg Prod.fst hrows)).1 (mem_of_head? hnew)
      obtain ⟨old, hold, hp⟩ := Schema.exists_of_exec_updateIn hupdate haffected
      simp only [Bool.and_eq_true, Bool.or_eq_true, decide_eq_true_eq] at hmem hnewOf hp
      -- The row that was counted is the draft's, and so is the one that is read back.
      obtain ⟨before, hbefore, hsaved⟩ := (hmem new).1 hnewMem
      have hbeforeOf : DraftRow.Of hash key before := by
        have hkey : schema.key .drafts before = schema.key .drafts new := by
          rw [← hsaved]
          split
          · exact ((overwriteDraft _).2 before).symm
          · rfl
        exact ⟨(congrArg Prod.fst hkey).trans hnewOf.1, (congrArg Prod.snd hkey).trans hnewOf.2⟩
      obtain rfl := hbeforeOf.unique hp.1 hbefore hold
      rw [if_pos hp] at hsaved
      refine ⟨fun r hr => ?_, ?_⟩
      · by_cases hof : DraftRow.Of hash key r
        · obtain rfl := hof.unique hnewOf hr hnewMem
          exact .inl ⟨hof, hrevision, by rw [← hsaved]; rfl⟩
        · obtain ⟨r', hr', hkept⟩ := (hmem r).1 hr
          split at hkept
          · rename_i hp'
            rw [← hkept] at hof
            exact absurd hp'.1 hof
          · exact .inr ⟨hof, hkept ▸ hr'⟩
      · rw [← hrevision, ← hsaved]
        rcases hp.2 with ⟨hzero, hexpired⟩ | ⟨⟨-, hsame⟩, hlive⟩
        · exact .inl ⟨hzero, if_pos hexpired⟩
        · refine .inr ⟨?_, before, hbefore, hbeforeOf, hsame, hlive⟩
          rw [← hsame]
          exact if_neg (not_le.2 hlive)
  · cases hrest

theorem of_saveDraft (h : (saveDraft d hash key input now).exec db = (.ok draft, db')) :
    draft.payload = input.payload ∧ Saved hash key input now db db' draft.revision := by
  unfold saveDraft stored at h
  obtain ⟨_, _, hscope, h₁⟩ := Op.exec_bind_eq_ok.1 h
  obtain rfl : db = _ := congrArg Prod.snd hscope
  obtain ⟨_, _, hkey, h₂⟩ := Op.exec_bind_eq_ok.1 h₁
  obtain rfl : db = _ := congrArg Prod.snd hkey
  obtain ⟨_, _, hinput, h₃⟩ := Op.exec_bind_eq_ok.1 h₂
  obtain rfl : db = _ := congrArg Prod.snd hinput
  rw [Op.exec_mapError_eq_ok, Op.exec_atomically_eq_ok] at h₃
  obtain ⟨expired, _, hexpired, h₄⟩ := Op.exec_bind_eq_ok.1 h₃
  have hreads : (expiredDrafts hash now).ReadOnly := .bind (.reads _) fun _ => .lift _
  obtain rfl : db = _ := (hreads db).symm.trans (congrArg Prod.snd hexpired)
  obtain ⟨_, db₁, hdelete, h₅⟩ := Op.exec_bind_eq_ok.1 h₄
  obtain ⟨saved, db₂, hupsert, hreturn⟩ := Op.exec_bind_eq_ok.1 h₅
  have hkept (r : DraftRow) (hr : r ∈ (db₁ .drafts).rows) : r ∈ (db .drafts).rows :=
    Schema.of_exec_deleteFrom hdelete hr
  cases saved with
  | none =>
    obtain ⟨_, _, -, hfail⟩ := Op.exec_bind_eq_ok.1 hreturn
    cases hfail
  | some =>
    cases hreturn
    obtain ⟨hrows, hrevision⟩ := of_upsertDraftTx hupsert
    refine ⟨rfl, fun r hr => ?_, ?_⟩
    · rcases hrows r hr with hnew | ⟨hother, hold⟩
      · exact .inl hnew
      · exact .inr ⟨hother, hkept r hold⟩
    · rcases hrevision with hzero | ⟨hnext, old, hold, hfound⟩
      · exact .inl hzero
      · exact .inr ⟨hnext, old, hkept old hold, hfound⟩

theorem clean_saveDraft : (saveDraft d hash key input now).Clean :=
  .after fun _ => .after fun _ => .after fun _ => .mapError .atomically

/-- **What a read returned**: the draft there is, or none. -/
theorem of_getDraft (h : ((getDraft hash key now).exec db).1 = .ok draft) :
    draft.revision = 0 ∨ ∃ r ∈ (db .drafts).rows, r.Of hash key
      ∧ r.revision = draft.revision ∧ r.payload = draft.payload := by
  unfold getDraft stored at h
  obtain ⟨_, -, h₁⟩ := Op.ReadOnly.of_exec_bind_lift h
  obtain ⟨_, -, h₂⟩ := Op.ReadOnly.of_exec_bind_lift h₁
  obtain ⟨rows, hrows, hreturn⟩ :=
    (Op.ReadOnly.reads _).of_exec_bind (Op.of_exec_atomically (Op.of_exec_mapError h₂))
  cases hhead : rows.head? with
  | none =>
    rw [hhead] at hreturn
    cases hreturn
    exact .inl rfl
  | some r =>
    rw [hhead] at hreturn
    cases hreturn
    obtain ⟨hmem, hp⟩ := (Schema.mem_of_exec_selectFrom hrows).1 (mem_of_head? hhead)
    simp only [Bool.and_eq_true, decide_eq_true_eq] at hp
    exact .inr ⟨r, hmem, hp.1, rfl, rfl⟩

/-! ## The clients -/

/-- The content of a draft, expired or not. -/
def draftContent (db : Database) (hash key : String) : Option Json :=
  ((db .drafts).rows.find? fun (r : DraftRow) => r.hash = hash && r.draftKey = key).map (·.payload)

theorem draftContent_of_mem {r : DraftRow} (hr : r ∈ (db .drafts).rows) (hof : r.Of hash key) :
    draftContent db hash key = some r.payload := by
  unfold draftContent
  cases hfind : (db .drafts).rows.find? fun (r : DraftRow) => r.hash = hash && r.draftKey = key with
  | none =>
    have hnot := List.find?_eq_none.1 hfind r hr
    simp only [Bool.and_eq_true, decide_eq_true_eq] at hnot
    exact absurd hof hnot
  | some =>
    have hfound := List.find?_some hfind
    simp only [Bool.and_eq_true, decide_eq_true_eq] at hfound
    rw [DraftRow.Of.unique hfound hof (mem_of_find?_eq_some hfind) hr]
    rfl

/-- A save with an expected revision that took effect: what its client had
last read or saved under it, and what the save replaced. -/
structure Replacement where
  known : Option Json
  content : Option Json

/-- **The database and its clients**: what each has last seen under each
revision, and how often the draft had been created by then. -/
structure Drafting where
  db : Database
  seen : ℕ → ℤ → Option (Json × ℕ)
  created : ℕ
  replaced : List Replacement

/-- **What happens.** The acknowledgement of a save may be lost; saves of
other drafts clean up this one too. -/
inductive DraftEvent
  | get (client : ℕ) (now : ℤ)
  | save (client : ℕ) (input : SaveDraftInput) (now : ℤ) (acknowledged : Bool)
  | saveOther (hash key : String) (input : SaveDraftInput) (now : ℤ)

namespace Drafting

/-- A client sees a draft. -/
def sees (s : Drafting) (client : ℕ) (draft : Draft) : ℕ → ℤ → Option (Json × ℕ) := fun c r =>
  if c = client ∧ r = draft.revision then some (draft.payload, s.created) else s.seen c r

/-- The state after an event. -/
def next (d : Deployment A) (hash key : String) (s : Drafting) : DraftEvent → Drafting
  | .get client now =>
    match ((getDraft hash key now).exec s.db).1 with
    | .ok draft => { s with seen := s.sees client draft }
    | .error _ => s
  | .save client input now acknowledged =>
    match (saveDraft d hash key input now).exec s.db with
    | (.ok draft, db') =>
      let saved : Drafting :=
        { s with
          db := db'
          created := if input.revision = 0 then s.created + 1 else s.created
          replaced := if 0 < input.revision then
              ⟨(s.seen client input.revision).map (·.1), draftContent s.db hash key⟩ :: s.replaced
            else s.replaced }
      if acknowledged then { saved with seen := saved.sees client draft } else saved
    | (.error _, db') => { s with db := db' }
  | .saveOther hash' key' input now =>
    if hash' = hash ∧ key' = key then s
    else { s with db := ((saveDraft d hash' key' input now).exec s.db).2 }

/-- **No update is lost**: a save replaced what its client had seen. -/
def Faithful (s : Drafting) : Prop :=
  ∀ x ∈ s.replaced, ∀ known, x.known = some known → x.content = some known

/-- **The condition**: a client saves with a revision that it saw since the
draft was last created. -/
def Current (s : Drafting) : DraftEvent → Prop
  | .save client input _ _ => 0 < input.revision →
    ∀ known n, s.seen client input.revision = some (known, n) → n = s.created
  | _ => True

/-- What is seen of the present draft is at most its revision, and is its
content at it. -/
structure Tracks (hash key : String) (s : Drafting) : Prop where
  bound : ∀ c r x n, s.seen c r = some (x, n) → n ≤ s.created
  current : ∀ row ∈ (s.db .drafts).rows, DraftRow.Of hash key row →
    ∀ c r x, s.seen c r = some (x, s.created) → r ≠ 0 →
      r ≤ row.revision ∧ (r = row.revision → row.payload = x)
  faithful : s.Faithful

end Drafting

/-- **Any number of clients of one draft**, from any database, whose steps
all meet a condition. -/
def drafting (d : Deployment A) (hash key : String) (allows : Drafting → DraftEvent → Prop) :
    System Drafting where
  init s := (∀ c r, s.seen c r = none) ∧ s.replaced = []
  step s s' := ∃ e, allows s e ∧ s' = s.next d hash key e

namespace Drafting

variable {s s' : Drafting} {e : DraftEvent} {allows : Drafting → DraftEvent → Prop} {client : ℕ}

theorem tracks_init (h : (drafting d hash key allows).init s) : s.Tracks hash key where
  bound c r x n hseen := by
    rw [h.1 c r] at hseen
    cases hseen
  current row _ _ c r x hseen := by
    rw [h.1 c r] at hseen
    cases hseen
  faithful x hx := by
    rw [h.2] at hx
    cases hx

/-- What a client sees once it has seen a draft. -/
theorem of_sees {c : ℕ} {r : ℤ} {x : Json} {n : ℕ} (h : s.sees client draft c r = some (x, n)) :
    (r = draft.revision ∧ x = draft.payload ∧ n = s.created) ∨ s.seen c r = some (x, n) := by
  unfold sees at h
  split at h
  · rename_i hsame
    cases h
    exact .inl ⟨hsame.2, rfl, rfl⟩
  · exact .inr h

variable (h : s.Tracks hash key)
include h

/-- A change of the database that brings no new row for the draft. -/
theorem Tracks.keeps
    (hrows : ∀ r ∈ (db' .drafts).rows, DraftRow.Of hash key r → r ∈ (s.db .drafts).rows) :
    { s with db := db' }.Tracks hash key :=
  ⟨h.bound, fun row hrow hof => h.current row (hrows row hrow hof) hof, h.faithful⟩

theorem Tracks.get
    (hget : ((getDraft hash key now).exec s.db).1 = .ok draft) :
    { s with seen := s.sees client draft }.Tracks hash key where
  bound c r x n hseen := by
    obtain ⟨-, -, rfl⟩ | hold := of_sees hseen
    · exact le_rfl
    · exact h.bound c r x n hold
  current row hrow hof c r x hseen hr := by
    obtain ⟨rfl, rfl, -⟩ | hold := of_sees hseen
    · obtain hzero | ⟨found, hfound, hfoundOf, hrevision, hpayload⟩ := of_getDraft hget
      · exact absurd hzero hr
      · obtain rfl := hof.unique hfoundOf hrow hfound
        exact ⟨hrevision.ge, fun _ => hpayload⟩
    · exact h.current row hrow hof c r x hold hr
  faithful := h.faithful

/-- **A save that succeeded**, whether or not its client learns of it. -/
theorem Tracks.saved
    (hsave : (saveDraft d hash key input now).exec s.db = (.ok draft, db'))
    (seen : ℕ → ℤ → Option (Json × ℕ)) {created : ℕ} {replaced : List Replacement}
    (hcreated : created = if input.revision = 0 then s.created + 1 else s.created)
    (hseen : ∀ c r x n, seen c r = some (x, n) →
      (r = draft.revision ∧ x = draft.payload ∧ n = created) ∨ s.seen c r = some (x, n))
    (hreplaced : ∀ x ∈ replaced, ∀ known, x.known = some known → x.content = some known) :
    Tracks hash key ⟨db', seen, created, replaced⟩ := by
  obtain ⟨hpayload, hrows, hrevision⟩ := of_saveDraft hsave
  have hle : s.created ≤ created := by
    rw [hcreated]
    split <;> omega
  refine ⟨fun c r x n hs => ?_, fun row hrow hof c r x hs hr => ?_, hreplaced⟩
  · obtain ⟨-, -, rfl⟩ | hold := hseen c r x n hs
    · exact le_rfl
    · exact (h.bound c r x n hold).trans hle
  · obtain ⟨-, hnow, hcontent⟩ | ⟨hother, -⟩ := hrows row hrow
    · obtain ⟨rfl, rfl, -⟩ | hold := hseen c r x created hs
      · exact ⟨hnow.ge, fun _ => hcontent.trans hpayload.symm⟩
      · -- Seen before: not of a draft that was just created, and below the new revision.
        obtain hzero | ⟨hnext, old, hmem, holdOf, hsame, -⟩ := hrevision
        · have hbound := h.bound c r x created hold
          rw [if_pos hzero.1] at hcreated
          omega
        · have hne : input.revision ≠ 0 := by
            intro hzero
            have hbound := h.bound c r x created hold
            rw [if_pos hzero] at hcreated
            omega
          rw [if_neg hne] at hcreated
          obtain ⟨hbelow, -⟩ := h.current old hmem holdOf c r x (hcreated ▸ hold) hr
          constructor
          · omega
          · intro heq
            omega
    · exact absurd hof hother

/-- **What a save with an expected revision replaced**, when its client saw
the revision since the draft was created. -/
theorem Tracks.replaces {known : Json}
    (hsave : (saveDraft d hash key input now).exec s.db = (.ok draft, db'))
    (hpos : 0 < input.revision) (hseen : s.seen client input.revision = some (known, s.created)) :
    draftContent s.db hash key = some known := by
  obtain ⟨-, -, hzero | ⟨-, old, hmem, hof, hsame, -⟩⟩ := of_saveDraft hsave
  · omega
  · obtain ⟨-, hcontent⟩ := h.current old hmem hof client _ known hseen (by omega)
    rw [draftContent_of_mem hmem hof, hcontent hsame.symm]

/-- **A step that meets the condition.** -/
theorem Tracks.next (hcurrent : s.Current e) : (s.next d hash key e).Tracks hash key := by
  cases e with
  | get =>
    unfold Drafting.next
    dsimp only
    split
    · rename_i draft hget
      exact h.get hget
    · exact h
  | save client input now acknowledged =>
    unfold Drafting.next
    dsimp only
    split
    · rename_i draft db' hsave
      have hreplaced : ∀ x ∈ if 0 < input.revision then
            ⟨(s.seen client input.revision).map (·.1), draftContent s.db hash key⟩ :: s.replaced
          else s.replaced, ∀ known, x.known = some known → x.content = some known := by
        intro x hx known hknown
        split at hx
        · rename_i hpos
          obtain rfl | hx := mem_cons.1 hx
          · obtain ⟨⟨_, n⟩, hseen, rfl⟩ := Option.map_eq_some_iff.1 hknown
            obtain rfl := hcurrent hpos _ n hseen
            exact h.replaces hsave hpos hseen
          · exact h.faithful x hx known hknown
        · exact h.faithful x hx known hknown
      cases acknowledged with
      | false => exact h.saved hsave s.seen rfl (fun c r x n hs => .inr hs) hreplaced
      | true => exact h.saved hsave _ rfl (fun c r x n hs => of_sees hs) hreplaced
    · rename_i failure db' hsave
      rw [clean_saveDraft hsave]
      exact h
  | saveOther hash' key' input now =>
    unfold Drafting.next
    dsimp only
    split
    · exact h
    · rename_i hother
      refine h.keeps fun r hr hof => ?_
      rcases hsave : (saveDraft d hash' key' input now).exec s.db with ⟨failure | draft, db'⟩
      · rw [hsave, clean_saveDraft hsave] at hr
        exact hr
      · rw [hsave] at hr
        obtain ⟨-, hrows, -⟩ := of_saveDraft hsave
        obtain ⟨hof', -⟩ | ⟨-, hmem⟩ := hrows r hr
        · exact absurd ⟨hof'.1.symm.trans hof.1, hof'.2.symm.trans hof.2⟩ hother
        · exact hmem

end Drafting

/-- **Draft saves never lose an update**, in every run in which clients
save with revisions they saw since the draft was last created. -/
theorem save_replaces_seen {s : Drafting}
    (h : (drafting d hash key Drafting.Current).Reach s) : s.Faithful := by
  have htracks : s.Tracks hash key := by
    refine h.invariant (fun _ hinit => Drafting.tracks_init hinit) ?_
    rintro s₁ s₂ - ih ⟨e, hcurrent, rfl⟩
    exact ih.next hcurrent
  exact htracks.faithful

namespace Sample

def keyHash : String := "0123456789abcdef0123456789abcdef0123456789abcdef0123456789abcdef"

/-- A draft with one prompt. -/
def prompt (text : String) : Json := .obj [("userPrompt", .str text)]

/-- No draft and no clients yet. -/
def untouched : Drafting := ⟨fun _ => .empty, fun _ _ => none, 0, []⟩

/-- The first client creates the draft. -/
def created : Drafting :=
  untouched.next deployment keyHash "workspace" (.save 0 ⟨0, prompt "first"⟩ 0 true)

/-- It saves again with the revision it got. -/
def savedAgain : Drafting :=
  created.next deployment keyHash "workspace" (.save 0 ⟨1, prompt "second"⟩ 1 true)

/-- Instead, the draft expires and another client creates it anew. -/
def recreated : Drafting :=
  created.next deployment keyHash "workspace" (.save 1 ⟨0, prompt "other"⟩ draftLifetime true)

/-- Then the first client saves with the revision it has. -/
def overwritten : Drafting :=
  recreated.next deployment keyHash "workspace"
    (.save 0 ⟨1, prompt "second"⟩ (draftLifetime + 1) true)

end Sample

open Sample

/-- A client that saves twice replaces what it saved first. -/
theorem save_replaces_seen_again :
    savedAgain.replaced = [⟨some (prompt "first"), some (prompt "first")⟩] ∧ savedAgain.Faithful := by
  have hreach : (drafting deployment keyHash "workspace" Drafting.Current).Reach savedAgain := by
    refine .step (.step (.init ⟨fun _ _ => rfl, rfl⟩) ⟨_, ?_, rfl⟩) ⟨_, ?_, rfl⟩
    · intro hpos
      cases hpos
    · intro _ known n hseen
      have hknown : created.seen 0 1 = some (prompt "first", 1) := rfl
      cases hknown.symm.trans hseen
      rfl
  exact ⟨rfl, save_replaces_seen hreach⟩

/-- **A number that comes back**: the draft expired and was created anew by
another client, and the first client's old revision overwrites it. -/
theorem recreated_draft_overwritten :
    ¬ ∀ s, (drafting deployment keyHash "workspace" fun _ _ => True).Reach s → s.Faithful := by
  intro hall
  have hreach : (drafting deployment keyHash "workspace" fun _ _ => True).Reach overwritten :=
    .step (.step (.step (.init ⟨fun _ _ => rfl, rfl⟩) ⟨_, trivial, rfl⟩) ⟨_, trivial, rfl⟩)
      ⟨_, trivial, rfl⟩
  have hreplaced : overwritten.replaced = [⟨some (prompt "first"), some (prompt "other")⟩] := rfl
  have hfaithful := hall overwritten hreach
  unfold Drafting.Faithful at hfaithful
  rw [hreplaced] at hfaithful
  have hsame := hfaithful _ mem_cons_self _ rfl
  simp [prompt] at hsame

end HardenLlm.Stateful
