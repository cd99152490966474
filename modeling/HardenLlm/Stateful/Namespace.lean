import HardenLlm.Cachekey.Canonical
import HardenLlm.Stateful.Model.Resolve
/-!
# Cache namespaces

A namespace is a digest of an encoded document that holds digests of its
own. When the digest is injective, it determines what was encoded: the
labels, and of every connection all that its results depend on.
-/

namespace HardenLlm.Stateful

open Bindings Json Option
open Cachekey (GoValue FieldName marshal marshalEntries marshalFields numeric_of_marshal)

variable {A : Type} {sha256 : ByteArray → String}

/-! ## Encoded values -/

theorem toUTF8_injective : Function.Injective String.toUTF8 := fun _ _ h => String.toByteArray_inj.1 h

/-- **A digest of an object** with these fields. -/
def Digests (sha256 : ByteArray → String) (digest : String) (fields : List (String × Json)) :
    Prop :=
  ∃ v, marshal v = .ok (.obj fields) ∧ digest = sha256 (encoded v).toUTF8

/-- A digest determines the fields, as far as a decoder can tell. -/
theorem Digests.fields_eq {digest digest' : String} {fields fields' : List (String × Json)}
    (h : Digests sha256 digest fields) (h' : Digests sha256 digest' fields')
    (hsha : Function.Injective sha256) (heq : digest = digest') (key : String) :
    (value? key fields).map canonical = (value? key fields').map canonical := by
  obtain ⟨v, hv, rfl⟩ := h
  obtain ⟨w, hw, rfl⟩ := h'
  have htext : (Json.obj fields).encode = (Json.obj fields').encode := by
    simpa only [encoded, hv, hw] using toUTF8_injective (hsha heq)
  have hdecoded := decoded_eq_of_encode_eq (numeric_of_marshal hv) (numeric_of_marshal hw) htext
  refine canonical_obj_eq_iff.1 ?_ key
  rw [← canonical_decoded, hdecoded, canonical_decoded]

theorem marshalEntries_map {α : Type} {entries : List (String × α)} {f : String × α → GoValue}
    {g : String × α → Json} (h : ∀ e, marshal (f e) = .ok (g e)) :
    marshalEntries (entries.map fun e => (e.1, f e)) = .ok (entries.map fun e => (e.1, g e)) := by
  induction entries with
  | nil => rfl
  | cons e rest ih =>
    rw [List.map_cons, marshalEntries, h e, ih]
    rfl

/-- The document of a map of strings. -/
def stringDocument (m : Dict String String) : Json := .obj (sortByKey (mapValues .str m.entries))

theorem marshal_stringMap (m : Dict String String) :
    marshal (stringMap m) = .ok (stringDocument m) := by
  rw [stringMap, marshal, mapValues, marshalEntries_map (g := fun e => .str e.2) fun _ => rfl]
  rfl

theorem canonical_str (s : String) : (Json.str s).canonical = .str s := rfl

theorem canonical_int (n : ℤ) : (Json.int n).canonical = .int n := rfl

/-- Maps of strings are told apart. -/
theorem get?_eq_of_canonical {m m' : Dict String String}
    (h : (stringDocument m).canonical = (stringDocument m').canonical) (key : String) :
    m.get? key = m'.get? key := by
  have hnodup (m : Dict String String) : ((mapValues Json.str m.entries).map Prod.fst).Nodup := by
    rw [keys_mapValues]
    exact m.nodup
  have hkey := canonical_obj_eq_iff.1 h key
  rw [value?_sortByKey (hnodup m), value?_sortByKey (hnodup m'), value?_mapValues,
    value?_mapValues, map_map, map_map] at hkey
  exact map_injective (fun _ _ heq => Json.str.inj heq) hkey

/-! ## Connections -/

/-- **Two connections have the same part in a namespace.** -/
structure Connection.Alike (c c' : Connection A) : Prop where
  provider : c.provider = c'.provider
  protocol : c.protocol = c'.protocol
  baseURL : c.baseURL = c'.baseURL
  domain : c.domain = c'.domain
  apiKey : c.apiKey = c'.apiKey
  headers : ∀ name, c.headers.get? name = c'.headers.get? name

/-- The fields of an encoded credential. -/
def credentialFields (c : Connection A) : List (String × Json) :=
  ("apiKey", .str c.apiKey)
    :: if c.headers.entries = [] then [] else [("headers", stringDocument c.headers)]

theorem digests_fingerprint (sha256 : ByteArray → String) (c : Connection A) :
    Digests sha256 (fingerprint sha256 c) (credentialFields c) := by
  refine ⟨_, ?_, rfl⟩
  rw [marshal, credentialFields]
  by_cases h : c.headers.entries = []
  · simp [h, marshalFields, marshal, bind, Except.bind, pure, Except.pure, Except.map]
  · simp [h, marshalFields, marshal, marshal_stringMap, bind, Except.bind, pure, Except.pure,
      Except.map]

theorem value?_apiKey (c : Connection A) :
    value? "apiKey" (credentialFields c) = some (.str c.apiKey) := by
  unfold credentialFields
  split <;> simp [value?]

theorem value?_headers (c : Connection A) : value? "headers" (credentialFields c)
    = if c.headers.entries = [] then none else some (stringDocument c.headers) := by
  unfold credentialFields
  split <;> simp [value?]

/-- **A fingerprint determines the credential.** -/
theorem of_fingerprint_eq (hsha : Function.Injective sha256) {c c' : Connection A}
    (h : fingerprint sha256 c = fingerprint sha256 c') :
    c.apiKey = c'.apiKey ∧ ∀ name, c.headers.get? name = c'.headers.get? name := by
  have hfields := (digests_fingerprint sha256 c).fields_eq (digests_fingerprint sha256 c') hsha h
  refine ⟨?_, fun name => ?_⟩
  · have hkey := hfields "apiKey"
    rw [value?_apiKey, value?_apiKey] at hkey
    exact Json.str.inj (Option.some.inj hkey)
  · have hheaders := hfields "headers"
    rw [value?_headers, value?_headers] at hheaders
    by_cases hc : c.headers.entries = [] <;> by_cases hc' : c'.headers.entries = [] <;>
      simp only [hc, hc', if_true, if_false, map_some, map_none, reduceCtorEq,
        Option.some.injEq] at hheaders
    · simp only [Dict.get?, hc, hc']
    · exact get?_eq_of_canonical hheaders name

/-- The document of a connection. -/
def snapshotDocument (sha256 : ByteArray → String) (revision : ℤ) (c : Connection A) : Json :=
  .obj [("Provider", .str c.provider), ("Protocol", .str c.protocol), ("Origin", .str c.baseURL),
    ("CacheDomain", .str c.domain), ("Fingerprint", .str (fingerprint sha256 c)),
    ("Revision", .int revision)]

theorem marshal_snapshot (revision : ℤ) (c : Connection A) :
    marshal (snapshot sha256 revision c) = .ok (snapshotDocument sha256 revision c) := by
  simp [snapshot, snapshotDocument, marshal, marshalFields, bind, Except.bind, pure, Except.pure,
    Except.map]

theorem of_snapshot_eq (hsha : Function.Injective sha256) {c c' : Connection A} {r r' : ℤ}
    (h : (snapshotDocument sha256 r c).canonical = (snapshotDocument sha256 r' c').canonical) :
    c.Alike c' ∧ r = r' := by
  have hfields := canonical_obj_eq_iff.1 h
  have hprovider := hfields "Provider"
  have hprotocol := hfields "Protocol"
  have hbaseURL := hfields "Origin"
  have hdomain := hfields "CacheDomain"
  have hfingerprint := hfields "Fingerprint"
  have hrevision := hfields "Revision"
  simp only [value?, canonical_str, canonical_int, none_or, or_none, if_true,
    if_false, String.reduceEq, map_some, Option.some.injEq, Json.str.injEq] at hprovider hprotocol hbaseURL hdomain hfingerprint hrevision
  obtain ⟨hapiKey, hheaders⟩ := of_fingerprint_eq hsha hfingerprint
  exact ⟨⟨hprovider, hprotocol, hbaseURL, hdomain, hapiKey, hheaders⟩, int_injective hrevision⟩

/-! ## Namespaces -/

section Namespaces

variable (sha256) (connections connections' : Dict String (Connection A))
  (revisions revisions' : Dict String ℤ) (labels labels' : Dict String String)

/-- A connection without a revision has zero. -/
def revisionOf (id : String) : ℤ := (revisions.get? id).getD 0

/-- The documents of connections, by their identifiers. -/
def snapshots : List (String × Json) :=
  connections.entries.map fun e => (e.1, snapshotDocument sha256 (revisionOf revisions e.1) e.2)

theorem digests_credentialNamespace :
    Digests sha256 (credentialNamespace sha256 connections revisions)
      (sortByKey (snapshots sha256 connections revisions)) := by
  refine ⟨_, ?_, rfl⟩
  rw [marshal, marshalEntries_map (f := fun e => snapshot sha256 ((revisions.get? e.1).getD 0) e.2)
    fun e => marshal_snapshot _ _]
  rfl

theorem digests_cacheNamespace :
    Digests sha256 (cacheNamespace sha256 connections revisions labels)
      [("Credentials", .str (credentialNamespace sha256 connections revisions)),
        ("Profiles", stringDocument labels)] := by
  refine ⟨_, ?_, rfl⟩
  simp [marshal, marshalFields, marshal_stringMap, bind, Except.bind, pure, Except.pure, Except.map]

theorem value?_snapshots (id : String) :
    value? id (sortByKey (snapshots sha256 connections revisions))
      = (connections.get? id).map (snapshotDocument sha256 (revisionOf revisions id)) := by
  have hkeys : (snapshots sha256 connections revisions).map Prod.fst
      = connections.entries.map Prod.fst := by
    rw [snapshots, List.map_map]
    rfl
  rw [value?_sortByKey (hkeys ▸ connections.nodup), snapshots, value?_map
    fun id => snapshotDocument sha256 (revisionOf revisions id)]
  rfl

variable {sha256 connections connections' revisions revisions' labels labels'}

variable (hsha : Function.Injective sha256)
include hsha

/-- **The digest of connections determines them.** -/
theorem of_credentialNamespace_eq
    (h : credentialNamespace sha256 connections revisions
      = credentialNamespace sha256 connections' revisions') (id : String) :
    Option.Rel (fun c c' => c.Alike c' ∧ revisionOf revisions id = revisionOf revisions' id)
      (connections.get? id) (connections'.get? id) := by
  have hfields := (digests_credentialNamespace ..).fields_eq (digests_credentialNamespace ..) hsha h id
  rw [value?_snapshots, value?_snapshots] at hfields
  cases hc : connections.get? id <;> cases hc' : connections'.get? id <;>
    simp only [hc, hc', map_some, map_none, reduceCtorEq, Option.some.injEq] at hfields
  · exact .none
  · exact .some (of_snapshot_eq hsha hfields)

/-- **The namespace of a run determines its connections and labels.** -/
theorem of_cacheNamespace_eq
    (h : cacheNamespace sha256 connections revisions labels
      = cacheNamespace sha256 connections' revisions' labels') :
    credentialNamespace sha256 connections revisions
        = credentialNamespace sha256 connections' revisions'
      ∧ ∀ id, labels.get? id = labels'.get? id := by
  have hfields := (digests_cacheNamespace ..).fields_eq (digests_cacheNamespace ..) hsha h
  have hcredentials := hfields "Credentials"
  have hprofiles := hfields "Profiles"
  simp only [value?, canonical_str, none_or, or_none, if_true, if_false,
    String.reduceEq, map_some, Option.some.injEq, Json.str.injEq] at hcredentials hprofiles
  exact ⟨hcredentials, get?_eq_of_canonical hprofiles⟩

/-- The namespace of a run is not that of a client. -/
theorem cacheNamespace_ne_credentialNamespace :
    cacheNamespace sha256 connections revisions labels
      ≠ credentialNamespace sha256 connections' revisions' := by
  intro h
  have hfields := (digests_cacheNamespace ..).fields_eq (digests_credentialNamespace ..) hsha h
    "Credentials"
  rw [value?_snapshots] at hfields
  cases hc : connections'.get? "Credentials" with
  | none => simp [hc, value?] at hfields
  | some =>
    simp [hc, value?, snapshotDocument, canonical_str, canonical_obj] at hfields

end Namespaces

end HardenLlm.Stateful
