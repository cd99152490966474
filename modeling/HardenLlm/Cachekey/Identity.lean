import HardenLlm.Cachekey.Canonical
/-!
# Operations with the same key

Operations that share a hash agree in every field of their documents, up
to the space around it: where they go, what they ask for and what they are
answered with.
-/

namespace HardenLlm.Cachekey

open Bindings
open HardenLlm.Runtime (trimSpace)

variable {toUpper : String → String} {sha256 : ByteArray → String}

/-! ## Fields -/

/-- The field of a document is that of the value. -/
theorem value?_of_marshals {entries : List (String × GoValue)} {fields : List (String × Json)}
    (h : List.Forall₂ Marshals entries fields) {key : String} {v : GoValue}
    (hv : value? key entries = some v) : ∃ d, value? key fields = some d ∧ marshal v = .ok d := by
  induction h with
  | nil => cases hv
  | @cons e field entries fields hhead hrest ih =>
    obtain ⟨hkey, hmarshal⟩ := hhead
    obtain ⟨k, w⟩ := e
    obtain ⟨k', d⟩ := field
    obtain rfl : k = k' := hkey
    rw [value?] at hv ⊢
    cases hlater : value? key entries with
    | some u =>
      rw [hlater, Option.some_or] at hv
      obtain rfl : u = v := Option.some.inj hv
      obtain ⟨d', hd', hmarshal'⟩ := ih hlater
      exact ⟨d', by rw [hd', Option.some_or], hmarshal'⟩
    | none =>
      have hnone : value? key fields = none := by
        rw [← Option.not_isSome_iff_eq_none, value?_isSome]
        rw [← Option.not_isSome_iff_eq_none, value?_isSome] at hlater
        have hkeys : fields.map Prod.fst = entries.map Prod.fst := by
          clear ih hlater hv
          induction hrest with
          | nil => rfl
          | cons hhead _ ih => rw [List.map_cons, List.map_cons, ih, hhead.1]
        rwa [hkeys]
      rw [hlater, Option.none_or] at hv
      rw [hnone, Option.none_or]
      split at hv
      · rename_i hk
        obtain rfl : w = v := Option.some.inj hv
        exact ⟨d, if_pos hk, hmarshal⟩
      · cases hv

/-- The fields of a struct, by their names in JSON. -/
def named (fields : List (FieldName × GoValue)) : List (String × GoValue) :=
  fields.map fun e => (e.1.json, e.2)

section

variable {fields fields' : List (FieldName × GoValue)} {d e : Json}
  (hd : marshal (.struct fields) = .ok d) (he : marshal (.struct fields') = .ok e) (h : d.Same e)
include hd he h

/-- **Structs whose documents have the same value** have it field by
field. -/
theorem same_field {key : String} {v w : GoValue} (hv : value? key (named fields) = some v)
    (hw : value? key (named fields') = some w) :
    ∃ a b, marshal v = .ok a ∧ marshal w = .ok b ∧ a.Same b := by
  rw [marshal, map_eq_ok, marshalFields_eq] at hd he
  obtain ⟨written, hwritten, rfl⟩ := hd
  obtain ⟨written', hwritten', rfl⟩ := he
  obtain ⟨a, ha, hmarshal⟩ := value?_of_marshals (marshalEntries_ok.1 hwritten) hv
  obtain ⟨b, hb, hmarshal'⟩ := value?_of_marshals (marshalEntries_ok.1 hwritten') hw
  cases h with
  | obj keys values => exact ⟨a, b, hmarshal, hmarshal', values key a b ha hb⟩

theorem same_string_field (key : String) {s t : String}
    (hv : value? key (named fields) = some (.string s))
    (hw : value? key (named fields') = some (.string t)) : s = t := by
  obtain ⟨a, b, ha, hb, hab⟩ := same_field hd he h hv hw
  cases ha
  cases hb
  cases hab
  rfl

end

/-! ## Operations -/

/-- The fields of an operation's document. -/
def Operation.fields (o : Operation) : List (FieldName × GoValue) :=
  match o.value with
  | .struct fields => fields
  | _ => []

theorem Operation.value_eq (o : Operation) : o.value = .struct o.fields := rfl

/-- **What operations with one key agree in.** -/
structure Operation.Agrees (o p : Operation) : Prop where
  protocol : trimSpace o.protocol = trimSpace p.protocol
  identity : trimSpace o.endpoint.identity = trimSpace p.endpoint.identity
  path : trimSpace o.endpoint.path = trimSpace p.endpoint.path
  model : trimSpace o.model = trimSpace p.model
  provider : trimSpace o.responseProjection.provider = trimSpace p.responseProjection.provider
  kind : trimSpace o.responseProjection.kind = trimSpace p.responseProjection.kind
  payload : ∃ a b, marshal o.payload = .ok a ∧ marshal p.payload = .ok b ∧ a.Same b

theorem value?_fields (o : Operation) :
    value? "protocol" (named o.fields) = some (.string o.protocol)
      ∧ value? "model" (named o.fields) = some (.string o.model)
      ∧ value? "payload" (named o.fields) = some o.payload
      ∧ value? "endpoint" (named o.fields) = some (.struct
        [(⟨"Identity", "identity"⟩, .string o.endpoint.identity),
          (⟨"Method", "method"⟩, .string o.endpoint.method),
          (⟨"Path", "path"⟩, .string o.endpoint.path)])
      ∧ value? "responseProjection" (named o.fields) = some (.struct
        [(⟨"Provider", "provider"⟩, .string o.responseProjection.provider),
          (⟨"Kind", "kind"⟩, .string o.responseProjection.kind),
          (⟨"Version", "version"⟩, .string o.responseProjection.version)]) := by
  unfold Operation.fields Operation.value named
  dsimp only
  split <;> simp [value?]

theorem agrees_of_same {o p : Operation} {d e : Json} (hd : o.document toUpper = .ok d)
    (he : p.document toUpper = .ok e) (h : d.Same e) : o.Agrees p := by
  obtain ⟨n, hn, hd⟩ := bind_eq_ok.1 hd
  obtain ⟨m, hm, he⟩ := bind_eq_ok.1 he
  obtain rfl := (normalize_ok.1 hn).2.2.2.2.2
  obtain rfl := (normalize_ok.1 hm).2.2.2.2.2
  rw [Operation.value_eq] at hd he
  obtain ⟨hprotocol, hmodel, hpayload, hendpoint, hprojection⟩ := value?_fields (o.trimmed toUpper)
  obtain ⟨hprotocol', hmodel', hpayload', hendpoint', hprojection'⟩ :=
    value?_fields (p.trimmed toUpper)
  obtain ⟨a, b, ha, hb, hab⟩ := same_field hd he h hendpoint hendpoint'
  obtain ⟨a', b', ha', hb', hab'⟩ := same_field hd he h hprojection hprojection'
  exact
    { protocol := same_string_field hd he h "protocol" hprotocol hprotocol'
      identity := same_string_field ha hb hab "identity" rfl rfl
      path := same_string_field ha hb hab "path" rfl rfl
      model := same_string_field hd he h "model" hmodel hmodel'
      provider := same_string_field ha' hb' hab' "provider" rfl rfl
      kind := same_string_field ha' hb' hab' "kind" rfl rfl
      payload := same_field hd he h hpayload hpayload' }

/-- **Operations with one hash agree.** -/
theorem agrees_of_hash_eq (hsha : Function.Injective sha256) {o p : Operation}
    {version version' digest : String} (ho : hash toUpper sha256 o version = .ok digest)
    (hp : hash toUpper sha256 p version' = .ok digest) : o.Agrees p := by
  obtain ⟨bytes, hbytes, hdigest⟩ := map_eq_ok.1 ho
  obtain ⟨bytes', hbytes', hdigest'⟩ := map_eq_ok.1 hp
  have hsame : bytes = bytes' := hsha (hdigest.trans hdigest'.symm)
  obtain ⟨d, e, hd, he, -, -, hde, -⟩ := hashInput_eq_iff.1 ⟨bytes, hbytes, hsame ▸ hbytes'⟩
  exact agrees_of_same hd he hde

end HardenLlm.Cachekey
