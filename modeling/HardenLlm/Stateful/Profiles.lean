import HardenLlm.Stateful.Model.Profiles
/-!
# Profiles of one scope

What the service does with profiles, credentials and bundles is confined to
the scope it is called with: every statement asks for its hash, and every
row that is inserted has it.
-/

namespace HardenLlm

open Stateful in
theorem Op.Confined.stored {α : Type} {agree follows : Database → Database → Prop}
    [IsPreorder Database follows] {x : Action α} (hx : x.Confined agree follows) :
    (Stateful.stored x).Confined agree follows :=
  hx.atomically.mapError storageFailure

end HardenLlm

namespace HardenLlm.Stateful

open List Bindings
open Schema (Within)

variable {A : Type} {d : Deployment A} {hash : String}

/-! ## Profiles -/

theorem within_joinedRevision {p : ProfileRow} (hp : p.hash = hash) :
    Within hash (joinedRevision p) :=
  .returns (Within.selectFrom fun _ h => (of_decide_and h).trans hp)

theorem within_profileViews {rows : List ProfileRow} (h : ∀ r ∈ rows, r.hash = hash) :
    Within hash (profileViews d rows) := by
  induction rows with
  | nil => exact .pure _
  | cons r rest ih =>
    refine .bind (within_joinedRevision (h r mem_cons_self)) fun _ => ?_
    exact .returns (ih (forall_mem_cons.1 h).2)

theorem within_listProfilesTx : Within hash (listProfilesTx d hash) := by
  refine .bind (Within.selectFrom fun _ => of_decide_eq_true) fun hidden => ?_
  refine Within.bind_select (fun _ => of_decide_eq_true) fun rows hrows => ?_
  refine .returns (within_profileViews fun r hr => ?_)
  exact of_decide_eq_true (hrows r ((perm_insertionSort _ rows).mem_iff.1 hr))

theorem within_listProfiles : Within hash (listProfiles d hash) :=
  .after fun _ => .stored within_listProfilesTx

variable {id : String}

theorem within_savedDraftTx : Within hash (savedDraftTx d hash id) := by
  refine .after fun _ => Within.bind_select (fun _ => of_decide_and) fun rows hrows => ?_
  split
  · exact .lift _
  · rename_i r hr
    have hscope := of_decide_and (hrows r (mem_of_mem_head? hr))
    exact .returns (within_joinedRevision hscope)

theorem within_profileDraftTx : Within hash (profileDraftTx d hash id) := by
  unfold profileDraftTx
  split
  · exact .bind (Within.selectFrom fun _ => of_decide_and) fun _ => .after fun _ => .pure _
  · exact within_savedDraftTx

theorem within_getProfile : Within hash (getProfile d hash id) :=
  .after fun _ => .stored within_profileDraftTx

theorem within_readCredentialTx : Within hash (readCredentialTx hash id) :=
  .returns (Within.selectFrom fun _ => of_decide_and)

variable {candidate : Option CredentialRecord}

theorem within_candidateTx : Within hash (candidateTx hash id candidate) := by
  cases candidate with
  | none => exact within_readCredentialTx
  | some => exact .pure _

theorem within_resolveDraftTx {draft : ProfileDraft} :
    Within hash (resolveDraftTx d hash draft candidate) := by
  refine .after fun definition => ?_
  split
  · exact .lift _
  · split
    · exact .after fun _ => .pure _
    · exact .bind within_candidateTx fun _ => .after fun _ => .pure _
    · exact .lift _

theorem within_credentialConflictTx {b : CredentialBinding} (hb : b.apiKeyHash = hash) :
    Within hash (credentialConflictTx b) :=
  .bind (Within.selectFrom fun _ h => (of_decide_and h).trans hb) fun _ => .lift _

variable {record : CredentialRecord} {now : ℤ}

theorem within_insertCredentialTx (hrecord : record.binding.apiKeyHash = hash) :
    Within hash (insertCredentialTx d record now) := by
  refine .after fun _ => .bind (Within.insertInto hrecord) fun added => ?_
  split
  · exact .pure _
  · exact within_credentialConflictTx hrecord

theorem within_saveCredentialTx {expected : ℤ} (hrecord : record.binding.apiKeyHash = hash) :
    Within hash (saveCredentialTx d record expected now) := by
  unfold saveCredentialTx
  split
  · exact within_insertCredentialTx hrecord
  · refine .bind (Within.updateIn (fun _ => ?_) _) fun affected => ?_
    · exact of_and_left fun h => (of_decide_and h).trans hrecord
    · split
      · exact within_credentialConflictTx hrecord
      · exact .pure _

theorem within_insertRow {n : schema.Name} {r : schema.Row n} (hr : (schema.key n r).1 = hash) :
    Within hash (insertRow d n r) :=
  .after fun _ => .bind (Within.insertInto hr) fun _ => .ensure _ _

theorem within_insertProfileTx {r : ProfileRow} (hr : r.hash = hash) :
    Within hash (insertProfileTx d r) := by
  refine .bind ?_ fun _ => within_insertRow hr
  unfold credentialReferenceTx
  split
  · exact .pure _
  · exact .bind (Within.selectFrom fun _ h => (of_decide_and h).trans hr) fun _ => .ensure _ _

variable {input : SaveProfileInput} {credentials : Dict String CredentialRecord}

/-- A credential that comes with a profile is bound to the scope. -/
theorem hash_of_sealedCandidate {nonce : ByteArray}
    (h : sealedCandidate d hash input nonce = .ok candidate) :
    ∀ record ∈ candidate, record.binding.apiKeyHash = hash := by
  unfold sealedCandidate at h
  split at h
  · cases h
    exact fun record hrecord => absurd hrecord (Option.not_mem_none record)
  · split at h
    · cases h
    · split at h
      · cases h
      · simp only at h
        split at h
        · cases h
        · cases h
          intro record hrecord
          cases Option.mem_some.1 hrecord
          rfl

theorem within_expectRevisionTx : Within hash (expectRevisionTx hash input) := by
  unfold expectRevisionTx
  split
  · exact .pure _
  · exact .bind within_readCredentialTx fun _ => .ensure _ _

theorem within_saveProfile {w : Saving A} : Within hash (saveProfile d hash input w) := by
  refine .after fun _ => .after fun input => .bind_lift fun candidate hcandidate => ?_
  refine .bind (.stored (.bind within_expectRevisionTx fun _ => within_resolveDraftTx))
    fun profile => ?_
  refine .after fun _ => ?_
  split
  · exact .lift _
  · refine .after fun snapshot => ?_
    refine .returns (.stored ?_)
    refine .bind ?_ fun _ => within_insertProfileTx rfl
    unfold saveCandidateTx
    split
    · exact within_saveCredentialTx (hash_of_sealedCandidate hcandidate _ rfl)
    · exact .pure _

theorem within_deleteProfile : Within hash (deleteProfile d hash id now) := by
  refine .after fun _ => .stored ?_
  split
  · exact .after fun _ => .bind (Within.insertInto rfl) fun _ => .pure _
  · exact .after fun _ => .bind (Within.deleteFrom fun _ => of_decide_and) fun _ => .ensure _ _

/-! ## Bundles -/

theorem within_bundleProfiles {views : List ProfileView} :
    Within hash (bundleProfiles d hash views) := by
  induction views with
  | nil => exact .pure _
  | cons view rest ih =>
    unfold bundleProfiles
    split
    · exact .bind within_profileDraftTx fun _ => ih.returns
    · exact ih

theorem within_exportBundle {newID : Option String} :
    Within hash (exportBundle d hash newID now) := by
  refine .after fun _ => ?_
  split
  · exact .lift _
  · refine .bind (.stored ?_) fun _ => .after fun _ => .pure _
    refine .bind within_listProfilesTx fun _ => .bind within_bundleProfiles fun _ => ?_
    refine .bind (Within.selectFrom fun _ => of_decide_eq_true) fun _ => ?_
    exact .returns (Within.selectFrom fun _ => of_decide_eq_true)

theorem validKeyHash_of_checkScope {u : Unit} (h : checkScope hash = .ok u) :
    validKeyHash hash = true := by
  unfold checkScope at h
  split at h
  · assumption
  · cases h

/-- A valid hash has no space around it. -/
theorem trimSpace_of_validKeyHash (h : validKeyHash hash = true) :
    HardenLlm.Runtime.trimSpace hash = hash := by
  simp only [validKeyHash, Bool.and_eq_true, all_eq_true] at h
  have hspace : ∀ c ∈ hash.toList, Batch.isSpace c = false := by
    intro c hc
    have hhex := h.2 c hc
    have hle (a b : Char) : a ≤ b ↔ a.toNat ≤ b.toNat :=
      Char.le_def.trans UInt32.le_iff_toNat_le
    have hdigits : ('0' : Char).toNat = 48 ∧ ('9' : Char).toNat = 57 ∧ ('a' : Char).toNat = 97
        ∧ ('f' : Char).toNat = 102 := by decide
    simp only [Bool.or_eq_true, Bool.and_eq_true, decide_eq_true_eq, hle, hdigits] at hhex
    simp only [Batch.isSpace, mem_cons, not_mem_nil, or_false, Bool.or_eq_false_iff,
      decide_eq_false_iff_not, Bool.and_eq_false_iff]
    omega
  have hdrop (cs : List Char) (h : ∀ c ∈ cs, Batch.isSpace c = false) :
      cs.dropWhile Batch.isSpace = cs := by
    cases cs with
    | nil => rfl
    | cons c => rw [dropWhile_cons, h c mem_cons_self]; rfl
  rw [HardenLlm.Runtime.trimSpace, hdrop _ hspace,
    hdrop _ fun c hc => hspace c (mem_reverse.1 hc), reverse_reverse,
    String.ofList_toList]

theorem hash_of_bundleCredentialRecord (hhash : validKeyHash hash = true) {c : BundleCredential}
    (h : bundleCredentialRecord d hash c = .ok record) : record.binding.apiKeyHash = hash := by
  unfold bundleCredentialRecord at h
  split at h
  · rename_i nonce ciphertext binding _ _ hbinding
    simp only [normalizeCredentialBinding] at hbinding
    split at hbinding
    · cases hbinding
    · obtain ⟨origin, -, rfl⟩ := Option.map_eq_some_iff.1 hbinding
      split at h
      · cases h
      · cases h
        exact trimSpace_of_validKeyHash hhash
  · cases h

/-- The credentials of a bundle are bound to the scope it is for. -/
theorem hash_of_bundleCredentials (hhash : validKeyHash hash = true)
    {seen : Dict String CredentialRecord} {cs : List BundleCredential}
    (hseen : ∀ e ∈ seen.entries, e.2.binding.apiKeyHash = hash)
    (h : bundleCredentials d hash seen cs = .ok credentials) :
    ∀ e ∈ credentials.entries, e.2.binding.apiKeyHash = hash := by
  induction cs generalizing seen with
  | nil =>
    cases h
    exact hseen
  | cons c cs ih =>
    rw [bundleCredentials, bind_eq_ok] at h
    obtain ⟨record, hrecord, h⟩ := h
    simp only [bind_eq_ok] at h
    obtain ⟨-, -, vault, -, payload, -, h⟩ := h
    refine ih (fun e he => ?_) h
    rw [← Dict.get?_eq_some_iff (m := seen.put c.id record), Dict.get?_put] at he
    split at he
    · cases he
      exact hash_of_bundleCredentialRecord hhash hrecord
    · exact hseen e (Dict.get?_eq_some_iff.1 he)

theorem within_bundleRecords {ids : List String} {entries : List BundleProfile} :
    Within hash (bundleRecords d hash credentials ids entries) := by
  induction entries generalizing ids with
  | nil => exact .pure _
  | cons entry rest ih =>
    unfold bundleRecords
    split
    · exact .lift _
    · refine .after fun _ => .bind (.mapError (.lift _) _) fun _ => ?_
      refine .after fun _ => .bind (.mapError within_resolveDraftTx _) fun _ => ?_
      exact ih.returns

/-- The rows of a bundle are in the scope it is for. -/
theorem hash_of_bundleRecords {ids : List String} {entries : List BundleProfile} {db : Database}
    {records : List (ProfileRow × ResolvedProfile A)}
    (h : ((bundleRecords d hash credentials ids entries).exec db).1 = .ok records) :
    ∀ e ∈ records, e.1.hash = hash := by
  induction entries generalizing ids db records with
  | nil =>
    cases h
    exact fun e he => absurd he not_mem_nil
  | cons entry rest ih =>
    unfold bundleRecords at h
    split at h
    · cases h
    · obtain ⟨-, -, h⟩ := Op.of_exec_bind h
      obtain ⟨input, -, h⟩ := Op.of_exec_bind h
      obtain ⟨candidate, -, h⟩ := Op.of_exec_bind h
      obtain ⟨profile, -, h⟩ := Op.of_exec_bind h
      obtain ⟨records, hrest, h⟩ := Op.of_exec_bind h
      cases h
      exact forall_mem_cons.2 ⟨rfl, ih hrest⟩

theorem within_replaceBundle {data : String} {w : Replacing A} :
    Within hash (replaceBundle d hash data w) := by
  refine .bind_lift fun _ hscope => .after fun bundle => ?_
  refine .bind_lift fun credentials hcredentials => ?_
  refine .bind_of within_bundleRecords fun db records hrecords => ?_
  refine .after fun _ => .bind (.each fun _ _ => .lift _) fun _ => .stored ?_
  refine .bind (Within.deleteFrom fun _ => of_decide_eq_true) fun _ => ?_
  refine .bind (Within.deleteFrom fun _ => of_decide_eq_true) fun _ => ?_
  refine .bind (Within.deleteFrom fun _ => of_decide_eq_true) fun _ => ?_
  refine .bind (.each fun record hrecord => within_insertCredentialTx ?_) fun _ => ?_
  · obtain ⟨e, he, rfl⟩ := mem_map.1 ((w.perm _).mem_iff.1 hrecord)
    exact hash_of_bundleCredentials (validKeyHash_of_checkScope hscope)
      (fun e he => absurd he not_mem_nil) hcredentials e he
  refine .bind (.each fun e he => within_insertProfileTx (hash_of_bundleRecords hrecords e he))
    fun _ => ?_
  exact .each fun id _ => within_insertRow rfl

end HardenLlm.Stateful
