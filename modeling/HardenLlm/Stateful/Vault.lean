import HardenLlm.Stateful.Drafts
import HardenLlm.Stateful.Model.Vault
import HardenLlm.Stateful.Profiles
/-!
# What a credential is bound to

A sealed credential opens for the scope, the identifier and the origin it
was sealed for, and for no other; so whatever is copied from row to row, a
profile that resolves uses a credential that was sealed for it.
-/

namespace HardenLlm.Stateful

open CredentialRow Json List

open Bindings

variable {A : Type} {d : Deployment A} {cipher : Cipher} {key nonce : ByteArray}
  {p p' : CredentialPayload} {b b' normal : CredentialBinding} {e : EncryptedCredential}

/-! ## Documents -/

/-- The decoder keeps what names each field once. -/
theorem decoded_obj_of_nodup {fields : List (String × Json)} (h : (fields.map Prod.fst).Nodup) :
    (Json.obj fields).decoded = .obj (mapValues Json.decoded fields) := by
  rw [decoded_obj, collect_of_nodup]
  rwa [keys_mapValues]

/-- **Additional data is of one binding.** -/
theorem credentialAAD_injective {keyID : String} (h : credentialAAD b keyID = credentialAAD b' keyID) :
    b = b' := by
  have hencode := toUTF8_injective h
  have hnames : ["schemaVersion", "algorithm", "keyId", "apiKeyHash", "credentialId", "origin"].Nodup := by
    decide
  have hdecoded := decoded_eq_of_encode_eq (by rfl) (by rfl) hencode
  rw [decoded_obj_of_nodup (by exact hnames), decoded_obj_of_nodup (by exact hnames)] at hdecoded
  simp only [mapValues, Json.decoded, map_cons, map_nil, Json.obj.injEq, List.cons.injEq,
    Prod.mk.injEq, Json.str.injEq, true_and, and_true] at hdecoded
  obtain ⟨hhash, hid, horigin⟩ := hdecoded
  cases b
  cases b'
  simp_all

/-- The headers of a payload in order. -/
def CredentialPayload.inOrder (p : CredentialPayload) : CredentialPayload :=
  ⟨p.apiKey, ⟨sortByKey p.headers.entries, nodup_sortByKey p.headers.nodup⟩⟩

theorem decodeHeaders_texts (m : Dict String String) (l : List (String × String)) :
    decodeHeaders m (mapValues Json.str l) = some (l.foldl (fun m e => m.put e.1 e.2) m) := by
  induction l generalizing m with
  | nil => rfl
  | cons e rest ih => exact ih (m.put e.1 e.2)

theorem entries_foldl_put (m : Dict String String) (l : List (String × String)) :
    (l.foldl (fun m e => m.put e.1 e.2) m).entries
      = l.foldl (fun acc e => Bindings.put e.1 e.2 acc) m.entries := by
  induction l generalizing m with
  | nil => rfl
  | cons e rest ih => exact ih (m.put e.1 e.2)

theorem decodeHeaders_inOrder (p : CredentialPayload) :
    decodeHeaders .empty (mapValues Json.str (sortByKey p.headers.entries)) = some p.inOrder.headers := by
  rw [decodeHeaders_texts]
  have hentries := entries_foldl_put .empty (sortByKey p.headers.entries)
  have hcollect := collect_of_nodup (nodup_sortByKey p.headers.nodup)
  have heq {m m' : Dict String String} (h : m.entries = m'.entries) : m = m' := by
    cases m
    cases m'
    cases h
    rfl
  exact congrArg some (heq (hentries.trans hcollect))

theorem validate_inOrder (p : CredentialPayload) :
    validateCredentialPayload p.inOrder = validateCredentialPayload p := by
  have hperm := sortByKey_perm p.headers.entries
  unfold validateCredentialPayload CredentialPayload.inOrder
  simp only [hperm.length_eq, hperm.all_eq, (hperm.map _).nodup_iff]

theorem fromUTF8?_toUTF8 (s : String) : String.fromUTF8? s.toUTF8 = some s :=
  dif_pos s.isValidUTF8

/-! A map of texts holds no number, is flat, and is decoded as it is. -/

section Texts

variable (l : List (String × String))

theorem numeric_texts : (Json.obj (mapValues Json.str l)).numeric = true := by
  refine numeric_obj.2 fun e he => ?_
  obtain ⟨s, -, hs⟩ := mem_mapValues.1 he
  rw [← hs]
  rfl

theorem depth_texts : (Json.obj (mapValues Json.str l)).depth ≤ 1 := by
  refine depth_obj_le.2 fun e he => ?_
  obtain ⟨s, -, hs⟩ := mem_mapValues.1 he
  rw [← hs]
  exact le_rfl

theorem decoded_texts (h : (l.map Prod.fst).Nodup) :
    (Json.obj (mapValues Json.str l)).decoded = .obj (mapValues Json.str l) := by
  rw [decoded_obj_of_nodup (by rwa [keys_mapValues])]
  simp [mapValues, Json.decoded]

end Texts

variable (p)

theorem numeric_payloadDocument : (payloadDocument p).numeric = true := by
  refine numeric_obj.2 fun e he => ?_
  unfold payloadFields at he
  split at he
  · obtain rfl := mem_singleton.1 he
    rfl
  · rcases mem_cons.1 he with rfl | he
    · rfl
    · obtain rfl := mem_singleton.1 he
      exact numeric_texts _

theorem depth_payloadDocument : (payloadDocument p).depth ≤ Json.maxNestingDepth := by
  have hflat : (payloadDocument p).depth ≤ 1 + 1 := by
    refine depth_obj_le.2 fun e he => ?_
    unfold payloadFields at he
    split at he
    · obtain rfl := mem_singleton.1 he
      exact Nat.zero_le 1
    · rcases mem_cons.1 he with rfl | he
      · exact Nat.zero_le 1
      · obtain rfl := mem_singleton.1 he
        exact depth_texts _
  exact hflat.trans (by decide)

theorem decoded_payloadDocument : (payloadDocument p).decoded = payloadDocument p := by
  have hnodup := nodup_sortByKey p.headers.nodup
  unfold payloadDocument payloadFields
  split
  · rfl
  · have hnames : ["apiKey", "headers"].Nodup := by decide
    rw [decoded_obj_of_nodup (by exact hnames)]
    simp only [mapValues, map_cons, map_nil, Json.decoded]
    have htexts := decoded_texts _ hnodup
    simp only [mapValues, Json.decoded] at htexts
    rw [htexts]

theorem decodePayloadFields_payloadFields :
    decodePayloadFields ⟨"", .empty⟩ (payloadFields p) = some p.inOrder := by
  have hkey : decodePayloadField ⟨"", .empty⟩ "apiKey" (.str p.apiKey)
      = some ⟨p.apiKey, .empty⟩ := if_pos rfl
  unfold payloadFields
  rw [decodePayloadFields, hkey, Option.bind_some]
  split
  · rename_i hempty
    have hinOrder : p.inOrder = ⟨p.apiKey, .empty⟩ := by
      simp [CredentialPayload.inOrder, hempty, sortByKey, Dict.empty]
    rw [hinOrder]
    rfl
  · have hheaders : decodePayloadField ⟨p.apiKey, .empty⟩ "headers"
        (.obj (mapValues Json.str (sortByKey p.headers.entries))) = some p.inOrder := by
      unfold decodePayloadField
      rw [if_neg (by decide), if_pos rfl]
      dsimp only
      rw [decodeHeaders_inOrder]
      rfl
    rw [decodePayloadFields, hheaders, Option.bind_some]
    rfl

variable {p}

/-- A payload that was encoded is read. -/
theorem readPayload_document (h : validateCredentialPayload p = true) :
    readPayload (payloadDocument p).encode.toUTF8 = some p.inOrder := by
  have hdecode : Json.decode (payloadDocument p).encode = some (payloadDocument p, []) := by
    rw [decode_encode (numeric_payloadDocument p) (depth_payloadDocument p),
      decoded_payloadDocument]
  simp only [readPayload, fromUTF8?_toUTF8, hdecode, Option.bind_eq_bind, Option.bind_some]
  simp [payloadDocument, decodePayloadFields_payloadFields, validate_inOrder, h]

/-! ## Opening -/

theorem sealCredential_eq_some (h : sealCredential d cipher key p b nonce = some e) :
    ∃ normal, normalizeCredentialBinding d b = some normal
      ∧ validateCredentialPayload p = true ∧ nonce.size = cipher.nonceSize
      ∧ e = ⟨"primary", nonce,
        cipher.seals key nonce (payloadDocument p).encode.toUTF8 (credentialAAD normal "primary")⟩ := by
  unfold sealCredential at h
  obtain ⟨normal, hnormal, hrest⟩ := Option.bind_eq_some_iff.1 h
  split at hrest
  · rename_i hvalid
    rw [Bool.and_eq_true, decide_eq_true_eq] at hvalid
    cases hrest
    exact ⟨normal, hnormal, hvalid.1, hvalid.2, rfl⟩
  · cases hrest

/-- **A sealed credential opens where it was sealed for**, and nowhere
else. -/
theorem openCredential_sealed (hideal : cipher.Ideal)
    (h : sealCredential d cipher key p b nonce = some e) (b' : CredentialBinding) :
    openCredential d cipher key e b'
      = if normalizeCredentialBinding d b' = normalizeCredentialBinding d b then some p.inOrder
        else none := by
  obtain ⟨normal, hnormal, hvalid, hsize, rfl⟩ := sealCredential_eq_some h
  have hoverhead := hideal.overhead_le key nonce (payloadDocument p).encode.toUTF8
    (credentialAAD normal "primary")
  unfold openCredential
  rw [if_neg (by simp), if_neg (by simpa [hsize] using hoverhead), hnormal]
  cases hnormal' : normalizeCredentialBinding d b' with
  | none => simp
  | some normal' =>
    simp only [Option.bind_eq_bind, Option.bind_some, Option.some.injEq]
    split
    · rename_i hsame
      rw [hsame, hideal.opens_seals, Option.bind_some, readPayload_document hvalid]
    · rename_i hother
      have hclosed : cipher.opens key nonce (cipher.seals key nonce (payloadDocument p).encode.toUTF8
          (credentialAAD normal "primary")) (credentialAAD normal' "primary") = none := by
        refine Option.eq_none_iff_forall_ne_some.2 fun q hq => hother ?_
        exact credentialAAD_injective (hideal.opens_seals_eq_some.1 hq).2.2.1
      rw [hclosed, Option.bind_none]

/-! ## Custody

Every encrypted column was sealed. An operation draws the columns it
leaves from those that were there and from a set that it was given. -/

variable {E : Set EncryptedCredential} {α : Type} {n : schema.Name}

/-- The encrypted columns afterwards were there before, or are in `E`. -/
def Draws (E : Set EncryptedCredential) (db db' : Database) : Prop :=
  ∀ r ∈ (db' .credentials).rows, encrypted r ∈ E
    ∨ ∃ r₀ ∈ (db .credentials).rows, encrypted r₀ = encrypted r

instance : IsPreorder Database (Draws E) where
  refl _ r hr := .inr ⟨r, hr, rfl⟩
  trans db db₁ db₂ h h' r hr := by
    obtain hE | ⟨r₁, hr₁, hsame⟩ := h' r hr
    · exact .inl hE
    · rw [← hsame]
      exact h r₁ hr₁

/-- An operation that draws from `E`. -/
abbrev Drawing (E : Set EncryptedCredential) (x : Action α) : Prop := x.Confined (· = ·) (Draws E)

namespace Drawing

theorem reads (f : Database → α) : Drawing E (.reads f : Action α) :=
  Op.Confined.reads fun _ _ h => congrArg f h

theorem change {f : Database → Database} (h : ∀ db, Draws E db (f db)) :
    Drawing E (.change f : Action Unit) :=
  Op.Confined.change (fun _ _ heq => congrArg f heq) h

/-- A change of another table. -/
theorem draws_other (hn : n ≠ TableName.credentials) (db : Database) (t : Table (schema.key n)) :
    Draws E db (Function.update db n t) := by
  have hsame : Function.update db n t .credentials = db .credentials :=
    Function.update_of_ne (Ne.symm hn) _ _
  intro r hr
  rw [hsame] at hr
  exact .inr ⟨r, hr, rfl⟩

theorem deleteFrom (n : schema.Name) (p : schema.Row n → Bool) :
    Drawing E (schema.deleteFrom n p : Action ℕ) := by
  by_cases hn : n = TableName.credentials
  · subst hn
    exact ⟨fun _ _ h => h ▸ rfl, fun _ _ h => h ▸ rfl, fun db r hr =>
      .inr ⟨r, Schema.of_exec_deleteFrom (ε := Failure) rfl hr, rfl⟩⟩
  · exact .bind (reads _) fun rows => .returns (change fun db => draws_other hn db _)

theorem insertInto {row : schema.Row n} (hn : n ≠ TableName.credentials) :
    Drawing E (schema.insertInto n row : Action Bool) := by
  refine ⟨fun _ _ h => h ▸ rfl, fun _ _ h => h ▸ rfl, fun db => ?_⟩
  simp only [Op.exec, Schema.insertInto]
  split
  · exact draws_other hn db _
  · exact refl_of (Draws E) db

/-- A credential is inserted. -/
theorem insertCredential {row : CredentialRow} (hrow : row.encrypted ∈ E) :
    Drawing E (schema.insertInto .credentials row : Action Bool) := by
  refine ⟨fun _ _ h => h ▸ rfl, fun _ _ h => h ▸ rfl, fun db r hr => ?_⟩
  obtain ⟨added, db', hexec⟩ := Schema.insertInto_returns (D := schema)
    (ε := Failure) .credentials row db
  rw [hexec] at hr
  obtain ⟨-, hrows, -⟩ | ⟨-, rfl, -⟩ := Schema.of_exec_insertInto hexec
  · rw [hrows] at hr
    rcases mem_cons.1 hr with rfl | hr
    · exact .inl hrow
    · exact .inr ⟨r, hr, rfl⟩
  · exact .inr ⟨r, hr, rfl⟩

/-- The encrypted columns of some credentials are overwritten. -/
theorem updateIn {p : CredentialRow → Bool} {f : Table.Assignment (schema.key .credentials)}
    (hf : ∀ r : CredentialRow, encrypted (f.1 r) ∈ E) :
    Drawing E (schema.updateIn .credentials p f : Action ℕ) := by
  refine ⟨fun _ _ h => h ▸ rfl, fun _ _ h => h ▸ rfl, fun db r hr => ?_⟩
  obtain ⟨r₀, hr₀, rfl⟩ := (Schema.mem_of_exec_updateIn (ε := Failure) rfl).1 hr
  split
  · exact .inl (hf r₀)
  · exact .inr ⟨r₀, hr₀, rfl⟩

end Drawing

theorem drawing_readCredentialTx (hash id : String) : Drawing E (readCredentialTx hash id) :=
  .returns (Drawing.reads _)

theorem drawing_resolveDraftTx (hash : String) (draft : ProfileDraft)
    (candidate : Option CredentialRecord) : Drawing E (resolveDraftTx d hash draft candidate) := by
  refine .after fun definition => ?_
  split
  · exact .lift _
  split
  · exact .after fun _ => .pure _
  · refine .bind ?_ fun candidate => .after fun _ => .pure _
    cases candidate with
    | none => exact drawing_readCredentialTx _ _
    | some => exact .pure _
  · exact .lift _

theorem drawing_credentialConflictTx (binding : CredentialBinding) :
    Drawing E (credentialConflictTx binding) :=
  .bind (Drawing.reads _) fun _ => .lift _

variable {record : CredentialRecord}

theorem drawing_insertCredentialTx (h : record.encrypted ∈ E) (now : ℤ) :
    Drawing E (insertCredentialTx d record now) := by
  refine .after fun _ => .bind (Drawing.insertCredential h) fun added => ?_
  split
  · exact .pure _
  · exact drawing_credentialConflictTx _

theorem drawing_saveCredentialTx (h : record.encrypted ∈ E)
    (expected now : ℤ) : Drawing E (saveCredentialTx d record expected now) := by
  unfold saveCredentialTx
  split
  · exact drawing_insertCredentialTx h now
  · refine .bind (Drawing.updateIn fun _ => h) fun affected => ?_
    split
    · exact drawing_credentialConflictTx _
    · exact .pure _

theorem drawing_insertRow (hn : n ≠ TableName.credentials) (row : schema.Row n) :
    Drawing E (insertRow d n row) :=
  .after fun _ => .bind (Drawing.insertInto hn) fun _ => .ensure _ _

theorem drawing_insertProfileTx (r : ProfileRow) : Drawing E (insertProfileTx d r) := by
  refine .bind ?_ fun _ => drawing_insertRow (by rintro ⟨⟩) _
  unfold credentialReferenceTx
  split
  · exact .pure _
  · exact .bind (Drawing.reads _) fun _ => .ensure _ _

/-- **A save draws on what it seals.** -/
theorem drawing_saveProfile (hash : String) (input : SaveProfileInput) (w : Saving A)
    (hE : ∀ x ∈ Custody.sealing d hash input w.nonce, x.encrypted ∈ E) :
    Drawing E (saveProfile d hash input w) := by
  refine .bind_lift fun _ hscope => .bind_lift fun input' hinput => .bind_lift fun candidate hcandidate => ?_
  refine .bind (.stored ?_) fun profile => .after fun _ => ?_
  · refine .bind ?_ fun _ => drawing_resolveDraftTx _ _ _
    unfold expectRevisionTx
    split
    · exact .pure _
    · exact .bind (drawing_readCredentialTx _ _) fun _ => .ensure _ _
  split
  · exact .lift _
  refine .after fun snapshot => .bind (.stored (.bind ?_ fun _ => drawing_insertProfileTx _))
    fun _ => .pure _
  unfold saveCandidateTx
  split
  · rename_i record entered hentered
    refine drawing_saveCredentialTx ?_ _ _
    refine hE ⟨entered.payload, record.binding, record.encrypted⟩ ?_
    simp only [Custody.sealing, hscope, hinput, hcandidate, hentered, mem_singleton]
  · exact .pure _

theorem drawing_deleteProfile (hash id : String) (now : ℤ) : Drawing E (deleteProfile d hash id now) := by
  refine .after fun _ => .stored ?_
  split
  · exact .after fun _ => .returns (Drawing.insertInto (by rintro ⟨⟩))
  · exact .after fun _ => .bind (Drawing.deleteFrom _ _) fun _ => .ensure _ _

variable {vault : Vault} {hash : String} {s : Custody}

/-- A credential of a bundle was read from it, and opened. -/
theorem of_bundleCredentials (hvault : d.vault = some vault)
    {seen credentials : Dict String CredentialRecord} {l : List BundleCredential}
    (h : bundleCredentials d hash seen l = .ok credentials) {entry : String × CredentialRecord}
    (hentry : entry ∈ credentials.entries) :
    entry ∈ seen.entries ∨ ∃ c ∈ l, bundleCredentialRecord d hash c = .ok entry.2
      ∧ vault.opens entry.2.encrypted entry.2.binding ≠ none := by
  induction l generalizing seen with
  | nil =>
    cases h
    exact .inl hentry
  | cons c rest ih =>
    obtain ⟨record, hrecord, h₁⟩ := bind_eq_ok.1 h
    obtain ⟨_, -, h₂⟩ := bind_eq_ok.1 h₁
    obtain ⟨vault', hvault', h₃⟩ := bind_eq_ok.1 h₂
    obtain ⟨payload, hpayload, h₄⟩ := bind_eq_ok.1 h₃
    obtain rfl : vault = vault' := Option.some.inj (hvault.symm.trans (found_eq_ok.1 hvault'))
    obtain hseen | ⟨c', hc', hrecord'⟩ := ih h₄
    · rcases mem_append.1 hseen with hseen | hnew
      · exact .inl (mem_filter.1 hseen).1
      · obtain rfl := mem_singleton.1 hnew
        refine .inr ⟨c, mem_cons_self, hrecord, ?_⟩
        rw [found_eq_ok.1 hpayload]
        exact Option.some_ne_none _
    · exact .inr ⟨c', mem_cons_of_mem _ hc', hrecord'⟩

theorem drawing_bundleRecords (hash : String) (credentials : Dict String CredentialRecord)
    (ids : List String) (l : List BundleProfile) :
    Drawing E (bundleRecords d hash credentials ids l) := by
  induction l generalizing ids with
  | nil => exact .pure _
  | cons entry rest ih =>
    unfold bundleRecords
    split
    · exact .lift _
    · refine .after fun _ => .bind (.mapError (.lift _) _) fun input =>
        .after fun candidate => .bind (.mapError (drawing_resolveDraftTx _ _ _) _)
          fun profile => .returns (ih _)

/-- **A bundle draws on what it brings along**, which opens. -/
theorem drawing_replaceBundle (hvault : d.vault = some vault) (hash data : String) (w : Replacing A)
    (hE : ∀ bundle, readBundle d hash data = .ok bundle → ∀ c ∈ bundle.credentials, ∀ record,
      bundleCredentialRecord d hash c = .ok record →
      vault.opens record.encrypted record.binding ≠ none → record.encrypted ∈ E) :
    Drawing E (replaceBundle d hash data w) := by
  refine .after fun _ => .bind_lift fun bundle hbundle =>
    .bind_lift fun credentials hcredentials => .bind (drawing_bundleRecords _ _ _ _) fun records =>
    .after fun _ => .bind (.each fun _ _ => .lift _) fun _ => .stored ?_
  refine .bind (Drawing.deleteFrom _ _) fun _ => .bind (Drawing.deleteFrom _ _) fun _ =>
    .bind (Drawing.deleteFrom _ _) fun _ => .bind (.each fun record hrecord => ?_) fun _ =>
    .bind (.each fun _ _ => drawing_insertProfileTx _) fun _ =>
    .each fun _ _ => drawing_insertRow (by rintro ⟨⟩) _
  refine drawing_insertCredentialTx ?_ _
  obtain ⟨entry, hentry, rfl⟩ := mem_map.1 ((w.perm _).mem_iff.1 hrecord)
  obtain hseen | ⟨c, hc, hrecord, hopens⟩ := of_bundleCredentials hvault hcredentials hentry
  · cases hseen
  · exact hE bundle hbundle c hc entry.2 hrecord hopens

/-- **Everything in custody that opens was sealed.** -/
structure Kept (d : Deployment A) (cipher : Cipher) (key : ByteArray) (s : Custody) : Prop where
  sealed : ∀ x ∈ s.log, ∃ nonce, sealCredential d cipher key x.payload x.binding nonce = some x.encrypted
  rows : ∀ r ∈ (s.db .credentials).rows, ∀ b, openCredential d cipher key (encrypted r) b ≠ none →
    s.Has (encrypted r)

variable (d cipher key) in
/-- What was sealed, or does not open. -/
def logged (log : List Sealed) : Set EncryptedCredential :=
  { e | ∀ b, openCredential d cipher key e b ≠ none → ∃ x ∈ log, x.encrypted = e }

/-- What draws on the log keeps every row that opens sealed. -/
theorem Kept.rows_of_draws (h : Kept d cipher key s) {db : Database} {log : List Sealed}
    (hlog : ∀ x ∈ s.log, x ∈ log) (hdraws : Draws (logged d cipher key log) s.db db) :
    ∀ r ∈ (db .credentials).rows, encrypted r ∈ logged d cipher key log := by
  intro r hr
  obtain hnew | ⟨r₀, hr₀, hsame⟩ := hdraws r hr
  · exact hnew
  · rw [← hsame]
    intro b hopens
    obtain ⟨x, hx, hencrypted⟩ := h.rows r₀ hr₀ b hopens
    exact ⟨x, hlog x hx, hencrypted⟩

section

variable (hvault : d.vault = some (credentialVault d cipher key))
include hvault

/-- What a save puts into the log was sealed. -/
theorem sealed_sealing
    {input : SaveProfileInput} {x : Sealed} (hx : x ∈ Custody.sealing d hash input nonce) :
    sealCredential d cipher key x.payload x.binding nonce = some x.encrypted := by
  unfold Custody.sealing at hx
  split at hx
  swap
  · cases hx
  rename_i input' hscope hinput
  split at hx
  swap
  · cases hx
  rename_i record entered hcandidate hentered
  obtain rfl := mem_singleton.1 hx
  simp only [sealedCandidate, hentered, hvault] at hcandidate
  split at hcandidate
  · cases hcandidate
  split at hcandidate
  · cases hcandidate
  · rename_i hseals
    cases hcandidate
    exact hseals

theorem kept_next {e : CustodyEvent A}
    (h : Kept d cipher key s) (ha : s.Allows d cipher key e) : Kept d cipher key (s.next d e) := by
  cases e with
  | save hash input w =>
    refine ⟨fun x hx => ?_, h.rows_of_draws (fun x hx => mem_append_right _ hx) ?_⟩
    · rcases mem_append.1 hx with hx | hx
      · exact ⟨w.nonce, sealed_sealing hvault hx⟩
      · exact h.sealed x hx
    · exact (drawing_saveProfile (E := logged d cipher key _) hash input w fun x hx _ _ =>
        ⟨x, mem_append_left _ hx, rfl⟩).frame s.db
  | delete hash id now =>
    exact ⟨h.sealed, h.rows_of_draws (fun x hx => hx) ((drawing_deleteProfile hash id now).frame s.db)⟩
  | replace hash data w =>
    refine ⟨h.sealed, h.rows_of_draws (fun x hx => hx) ?_⟩
    exact (drawing_replaceBundle (E := logged d cipher key _) hvault hash data w
      fun bundle hbundle c hc record hrecord hopens _ _ =>
        ha bundle hbundle c hc record hrecord hopens).frame s.db
  | paste hash id e =>
    refine ⟨h.sealed, h.rows_of_draws (fun x hx => hx) ?_⟩
    exact (Drawing.updateIn (E := logged d cipher key s.log) (f := pasteCredential e) fun _ => ha).frame s.db

theorem kept_of_reach (h : (custody d cipher key).Reach s) : Kept d cipher key s := by
  refine h.invariant ?_ ?_
  · rintro s ⟨hlog, hrows⟩
    refine ⟨fun x hx => ?_, fun r hr => ?_⟩
    · rw [hlog] at hx
      cases hx
    · rw [hrows] at hr
      cases hr
  · rintro s₁ s₂ - ih ⟨e, ha, rfl⟩
    exact kept_next hvault ih ha

end

/-! ## Resolved profiles -/

variable {candidate : Option CredentialRecord}

theorem of_candidateTx {hash id : String} {db db' : Database}
    (h : (candidateTx hash id candidate).exec db = (.ok (some record), db')) :
    candidate = some record
      ∨ ∃ r ∈ (db .credentials).rows, encrypted r = record.encrypted := by
  cases candidate with
  | some =>
    cases h
    exact .inl rfl
  | none =>
    obtain ⟨rows, hselect, hrest⟩ := (Op.ReadOnly.reads _).of_exec_bind (congrArg Prod.fst h)
    have hhead : rows.head?.map toRecord = some record := Except.ok.inj hrest
    obtain ⟨r, hr, rfl⟩ := Option.map_eq_some_iff.1 hhead
    exact .inr ⟨r, ((Schema.mem_of_exec_selectFrom hselect).1 (mem_of_head? hr)).1, rfl⟩

theorem of_withEnteredCredential (hvault : d.vault = some vault)
    {c c' : Connection A} {revision : ℤ}
    (h : withEnteredCredential d b candidate c = .ok (c', revision)) :
    ∃ record payload, candidate = some record ∧ vault.opens record.encrypted b = some payload
      ∧ c'.apiKey = payload.apiKey ∧ c'.headers = payload.headers := by
  unfold withEnteredCredential at h
  split at h
  · cases h
  rename_i record
  split at h
  · cases h
  obtain ⟨payload, hpayload, h₁⟩ := bind_eq_ok.1 h
  unfold openRecord at hpayload
  rw [hvault, Option.bind_some] at hpayload
  split at hpayload
  · rename_i hopens
    cases hpayload
    cases h₁
    exact ⟨record, payload, rfl, hopens, rfl, rfl⟩
  · cases hpayload

/-- Where the credential of a resolved profile comes from. -/
theorem of_resolveDraftTx (hvault : d.vault = some vault)
    {draft : ProfileDraft} {profile : ResolvedProfile A}
    {db db' : Database} (hsource : draft.binding.source = .entered)
    (h : (resolveDraftTx d hash draft candidate).exec db = (.ok profile, db')) :
    ∃ definition origin record payload,
      d.parseDefinition draft.definition = .ok definition
      ∧ d.originForURL definition.baseURL = some origin
      ∧ (candidate = some record
        ∨ ∃ r ∈ (db .credentials).rows, encrypted r = record.encrypted)
      ∧ vault.opens record.encrypted ⟨hash, draft.binding.enteredCredentialID, origin⟩ = some payload
      ∧ profile.connection.apiKey = payload.apiKey ∧ profile.connection.headers = payload.headers := by
  unfold resolveDraftTx at h
  obtain ⟨definition, _, hdefinition, h₁⟩ := Op.exec_bind_eq_ok.1 h
  obtain rfl := congrArg Prod.snd hdefinition
  split at h₁
  · cases h₁
  rename_i origin horigin
  simp only [hsource] at h₁
  obtain ⟨found, _, hfound, h₂⟩ := Op.exec_bind_eq_ok.1 h₁
  obtain ⟨⟨c, revision⟩, _, hentered, h₃⟩ := Op.exec_bind_eq_ok.1 h₂
  cases h₃
  obtain ⟨record, payload, rfl, hopens, hkey, hheaders⟩ :=
    of_withEnteredCredential hvault (congrArg Prod.fst hentered)
  exact ⟨definition, origin, record, payload, congrArg Prod.fst hdefinition, horigin,
    of_candidateTx hfound, hopens, hkey, hheaders⟩

/-- **What a credential is bound to.** -/
structure Bound (d : Deployment A) (cipher : Cipher) (key : ByteArray) : Prop where
  /-- What was sealed opens for what has the same normal form. -/
  opens : ∀ p b nonce e, sealCredential d cipher key p b nonce = some e → ∀ b',
    (openCredential d cipher key e b' ≠ none
      ↔ normalizeCredentialBinding d b' = normalizeCredentialBinding d b)
  payload : ∀ p b nonce e, sealCredential d cipher key p b nonce = some e → ∀ b' p',
    openCredential d cipher key e b' = some p' →
      p'.apiKey = p.apiKey ∧ ∀ name, p'.headers.get? name = p.headers.get? name
  /-- A profile uses a credential that was sealed for it. -/
  resolves : ∀ s, (custody d cipher key).Reach s → ∀ hash draft candidate profile db',
    draft.binding.source = .entered →
    (∀ record, candidate = some record → s.Has record.encrypted) →
    (resolveDraftTx d hash draft candidate).exec s.db = (.ok profile, db') →
    ∃ x ∈ s.log, ∃ definition origin, d.parseDefinition draft.definition = .ok definition
      ∧ d.originForURL definition.baseURL = some origin
      ∧ normalizeCredentialBinding d x.binding
        = normalizeCredentialBinding d ⟨hash, draft.binding.enteredCredentialID, origin⟩
      ∧ profile.connection.apiKey = x.payload.apiKey
      ∧ ∀ name, profile.connection.headers.get? name = x.payload.headers.get? name

theorem get?_inOrder (p : CredentialPayload) (name : String) :
    p.inOrder.headers.get? name = p.headers.get? name :=
  value?_sortByKey p.headers.nodup name

/-- **Credentials are bound** to their scope, identifier and origin. -/
theorem credentials_bound (hideal : cipher.Ideal)
    (hvault : d.vault = some (credentialVault d cipher key)) : Bound d cipher key := by
  refine ⟨fun p b nonce e h b' => ?_, fun p b nonce e h b' p' hopens => ?_, ?_⟩
  · rw [openCredential_sealed hideal h]
    split <;> simp [*]
  · rw [openCredential_sealed hideal h] at hopens
    split at hopens
    · cases hopens
      exact ⟨rfl, get?_inOrder p⟩
    · cases hopens
  · intro s hs hash draft candidate profile db' hsource hcandidate h
    have hkept := kept_of_reach hvault hs
    obtain ⟨definition, origin, record, payload, hdefinition, horigin, hrecord, hopens, hkey, hheaders⟩ :=
      of_resolveDraftTx hvault hsource h
    have hhas : s.Has record.encrypted := by
      obtain hsome | ⟨r, hr, hsame⟩ := hrecord
      · exact hcandidate record hsome
      · rw [← hsame] at hopens ⊢
        exact hkept.rows r hr _ (ne_of_eq_of_ne hopens (Option.some_ne_none _))
    obtain ⟨x, hx, hencrypted⟩ := hhas
    obtain ⟨nonce, hsealed⟩ := hkept.sealed x hx
    rw [hencrypted] at hsealed
    have hopened := openCredential_sealed hideal hsealed
      ⟨hash, draft.binding.enteredCredentialID, origin⟩
    rw [show openCredential d cipher key record.encrypted _ = some payload from hopens] at hopened
    split at hopened
    · rename_i hsame
      cases hopened
      refine ⟨x, hx, definition, origin, hdefinition, horigin, hsame.symm, hkey, fun name => ?_⟩
      rw [hheaders]
      exact get?_inOrder _ name
    · cases hopened

namespace Sample

/-- Bytes with an end that can be found again. -/
def framed (bytes : List UInt8) : List UInt8 := bytes.flatMap (fun b => [1, b]) ++ [0]

def readFramed : List UInt8 → Option (List UInt8 × List UInt8)
  | 0 :: rest => some ([], rest)
  | 1 :: b :: rest => (readFramed rest).map fun e => (b :: e.1, e.2)
  | _ => none

theorem readFramed_framed (bytes rest : List UInt8) :
    readFramed (framed bytes ++ rest) = some (bytes, rest) := by
  induction bytes with
  | nil => rfl
  | cons b bytes ih =>
    have hcons : framed (b :: bytes) ++ rest = 1 :: b :: (framed bytes ++ rest) := by simp [framed]
    rw [hcons, readFramed, ih]
    rfl

theorem framed_append_inj {bytes bytes' rest rest' : List UInt8}
    (h : framed bytes ++ rest = framed bytes' ++ rest') : bytes = bytes' ∧ rest = rest' := by
  have hread := readFramed_framed bytes rest
  rw [h, readFramed_framed] at hread
  simpa [eq_comm] using hread

/-- What the bytes of a ciphertext are. -/
def sealedBytes (key nonce plaintext data : ByteArray) : List UInt8 :=
  framed key.data.toList ++ (framed nonce.data.toList ++ (framed data.data.toList
    ++ (framed plaintext.data.toList ++ List.replicate 16 0)))

/-- A cipher without secrets: everything is written down. -/
def plainCipher : Cipher where
  nonceSize := 12
  overhead := 16
  seals key nonce plaintext data := ⟨(sealedBytes key nonce plaintext data).toArray⟩
  opens key nonce ciphertext data :=
    let head := framed key.data.toList ++ (framed nonce.data.toList ++ framed data.data.toList)
    match readFramed (ciphertext.data.toList.drop head.length) with
    | some (bytes, _) =>
      if sealedBytes key nonce ⟨bytes.toArray⟩ data = ciphertext.data.toList then some ⟨bytes.toArray⟩
      else none
    | none => none

theorem bytes_ext {b b' : ByteArray} (h : b.data.toList = b'.data.toList) : b = b' :=
  ByteArray.ext (Array.toList_inj.1 h)

theorem drop_sealedBytes (k n p a : ByteArray) :
    (sealedBytes k n p a).drop
        (framed k.data.toList ++ (framed n.data.toList ++ framed a.data.toList)).length
      = framed p.data.toList ++ List.replicate 16 0 := by
  have happend : sealedBytes k n p a
      = (framed k.data.toList ++ (framed n.data.toList ++ framed a.data.toList))
        ++ (framed p.data.toList ++ List.replicate 16 0) := by
    simp only [sealedBytes, append_assoc]
  rw [happend, drop_left]

theorem ideal_plainCipher : plainCipher.Ideal := by
  refine ⟨fun k n p a => ?_, fun k n t a p h => ?_, fun k n p a k' n' p' a' h => ?_, fun k n p a => ?_⟩
  · simp only [plainCipher, drop_sealedBytes, readFramed_framed, Array.toArray_toList]
    rfl
  · simp only [plainCipher] at h ⊢
    split at h
    · split at h
      · rename_i hsame
        cases h
        exact bytes_ext hsame
      · cases h
    · cases h
  · have hbytes : sealedBytes k n p a = sealedBytes k' n' p' a' := by
      simpa only [plainCipher, toList_toArray] using congrArg (fun b : ByteArray => b.data.toList) h
    obtain ⟨hk, h₁⟩ := framed_append_inj hbytes
    obtain ⟨hn, h₂⟩ := framed_append_inj h₁
    obtain ⟨ha, h₃⟩ := framed_append_inj h₂
    obtain ⟨hp, -⟩ := framed_append_inj h₃
    exact ⟨bytes_ext hk, bytes_ext hn, bytes_ext hp, bytes_ext ha⟩
  · have hsize : (plainCipher.seals k n p a).size = (sealedBytes k n p a).length := rfl
    have hoverhead : plainCipher.overhead = 16 := rfl
    rw [hsize, hoverhead]
    simp only [sealedBytes, length_append, length_replicate]
    omega

def vaultKey : ByteArray := ⟨#[1, 2, 3]⟩

/-- The deployment, with a vault. -/
def custodian : Deployment Unit :=
  { deployment with vault := some (credentialVault deployment plainCipher vaultKey) }

def binding : ProfileCredentialBinding := ⟨.entered, "", "credential"⟩

/-- A profile is saved with a credential for its origin. -/
def kept : Custody :=
  (⟨database, []⟩ : Custody).next custodian (.save keyHash
    { definition := .null, inputs := .null, binding := binding
      credential := some ⟨"", 0, "https://upstream", ⟨"key", .empty⟩⟩ }
    ⟨⟨#[0, 0, 0, 0, 0, 0, 0, 0, 0, 0, 0, 0]⟩, fun _ => .ok (), some "id", 0⟩)

end Sample

open Sample

/-- A credential is sealed and stored, the profile resolves, and what it
uses is bound. -/
theorem credentials_bound_sample :
    (custody custodian plainCipher vaultKey).Reach kept
      ∧ ((resolveDraftTx custodian keyHash
          ⟨"", "", .null, .null, binding, unknownStatus⟩ none).exec kept.db).1.isOk = true
      ∧ Bound custodian plainCipher vaultKey :=
  ⟨.step (.init ⟨rfl, rfl⟩) ⟨.save _ _ _, trivial, rfl⟩, by decide +kernel,
    credentials_bound ideal_plainCipher rfl⟩

end HardenLlm.Stateful
