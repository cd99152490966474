import HardenLlm.Cachekey.Model
import Mathlib.Data.List.Forall2
/-!
# The documents of values

What a value is encoded as, and the text that `StableJSON` returns for it:
its canonical document, which is shared by documents of one value only.
-/

namespace HardenLlm.Cachekey

open Bindings Json List

/-! ## Values -/

/-- Induction over a value, with what it holds at once. -/
@[elab_as_elim]
theorem GoValue.induct {P : GoValue → Prop} (nil : P .nil) (bool : ∀ b, P (.bool b))
    (int : ∀ n, P (.int n)) (float : ∀ literal, P (.float literal)) (string : ∀ s, P (.string s))
    (number : ∀ literal, P (.number literal)) (bytes : ∀ base64, P (.bytes base64))
    (raw : ∀ document, P (.raw document)) (pointer : ∀ v, P v → P (.pointer v))
    (slice : ∀ id items, (∀ v ∈ items, P v) → P (.slice id items))
    (array : ∀ items, (∀ v ∈ items, P v) → P (.array items))
    (map : ∀ id entries, (∀ e ∈ entries, P e.2) → P (.map id entries)) (keyed : P .keyed)
    (struct : ∀ fields, (∀ e ∈ fields, P e.2) → P (.struct fields))
    (other : ∀ kind, P (.other kind)) (v : GoValue) : P v := by
  refine @GoValue.rec P (fun items => ∀ v ∈ items, P v) (fun entries => ∀ e ∈ entries, P e.2)
    (fun fields => ∀ e ∈ fields, P e.2) (fun e => P e.2) (fun e => P e.2)
    nil bool int float string number bytes raw pointer slice array map keyed struct other
    ?_ ?_ ?_ ?_ ?_ ?_ ?_ ?_ v
  · exact nofun
  · exact fun v items hv hitems => forall_mem_cons.2 ⟨hv, hitems⟩
  · exact nofun
  · exact fun e entries he hentries => forall_mem_cons.2 ⟨he, hentries⟩
  · exact nofun
  · exact fun e fields he hfields => forall_mem_cons.2 ⟨he, hfields⟩
  · exact fun key v hv => hv
  · exact fun name v hv => hv

/-! ## Documents -/

theorem marshalItems_ok {items : List GoValue} {documents : List Json} :
    marshalItems items = .ok documents
      ↔ List.Forall₂ (fun v d => marshal v = .ok d) items documents := by
  induction items generalizing documents with
  | nil =>
    rw [marshalItems, forall₂_nil_left_iff, Except.ok.injEq]
    exact eq_comm
  | cons v items ih =>
    rw [marshalItems, bind_eq_ok, forall₂_cons_left_iff]
    simp only [bind_eq_ok, ih]
    refine ⟨?_, ?_⟩
    · rintro ⟨d, hd, ds, hds, heq⟩
      cases heq
      exact ⟨d, ds, hd, hds, rfl⟩
    · rintro ⟨d, ds, hd, hds, rfl⟩
      exact ⟨d, hd, ds, hds, rfl⟩

/-- An entry and its field. -/
def Marshals (e : String × GoValue) (field : String × Json) : Prop :=
  e.1 = field.1 ∧ marshal e.2 = .ok field.2

theorem marshalEntries_ok {entries : List (String × GoValue)} {fields : List (String × Json)} :
    marshalEntries entries = .ok fields ↔ List.Forall₂ Marshals entries fields := by
  induction entries generalizing fields with
  | nil =>
    rw [marshalEntries, forall₂_nil_left_iff, Except.ok.injEq]
    exact eq_comm
  | cons e entries ih =>
    rw [marshalEntries, bind_eq_ok, forall₂_cons_left_iff]
    simp only [bind_eq_ok, ih]
    refine ⟨?_, ?_⟩
    · rintro ⟨d, hd, ds, hds, heq⟩
      cases heq
      exact ⟨_, ds, ⟨rfl, hd⟩, hds, rfl⟩
    · rintro ⟨d, ds, ⟨hkey, hd⟩, hds, rfl⟩
      refine ⟨d.2, hd, ds, hds, ?_⟩
      rw [hkey]
      rfl

theorem marshalFields_eq (fields : List (FieldName × GoValue)) :
    marshalFields fields = marshalEntries (fields.map fun e => (e.1.json, e.2)) := by
  induction fields with
  | nil => rfl
  | cons e fields ih => rw [marshalFields, ih, map_cons, marshalEntries]

theorem exists_of_forall₂ {α β : Type} {R : α → β → Prop} {l : List α} {m : List β}
    (h : List.Forall₂ R l m) {b : β} (hb : b ∈ m) : ∃ a ∈ l, R a b := by
  induction h with
  | nil => cases hb
  | cons hhead _ ih =>
    rcases mem_cons.1 hb with rfl | hb
    · exact ⟨_, mem_cons_self, hhead⟩
    · obtain ⟨a, ha, hr⟩ := ih hb
      exact ⟨a, mem_cons_of_mem _ ha, hr⟩

/-- **What is encoded has numbers only where it should.** -/
theorem numeric_of_marshal {v : GoValue} {d : Json} (h : marshal v = .ok d) : d.numeric = true := by
  induction v using GoValue.induct generalizing d with
  | nil | bool | string | bytes => cases h; rfl
  | int n => cases h; exact numeric_int n
  | float literal =>
    cases literal with
    | none => cases h
    | some literal =>
      cases h
      rw [Json.numeric]
      exact literal.2
  | number =>
    rw [marshal] at h
    split at h
    · cases h; decide
    · split at h
      · rename_i hnumber
        cases h
        rw [Json.numeric]
        exact hnumber
      · cases h
  | raw document =>
    cases document with
    | none => cases h
    | some =>
      rw [marshal] at h
      split at h
      · rename_i hnumeric
        cases h
        exact hnumeric
      · cases h
  | pointer v ih => exact ih h
  | slice id items ih | array items ih =>
    rw [marshal, map_eq_ok] at h
    obtain ⟨ds, hds, rfl⟩ := h
    refine numeric_arr.2 fun d hd => ?_
    obtain ⟨v, hv, hmarshal⟩ := exists_of_forall₂ (marshalItems_ok.1 hds) hd
    exact ih v hv hmarshal
  | map id entries ih =>
    rw [marshal, map_eq_ok] at h
    obtain ⟨fields, hfields, rfl⟩ := h
    refine numeric_obj.2 fun field hfield => ?_
    obtain ⟨e, he, -, hmarshal⟩ :=
      exists_of_forall₂ (marshalEntries_ok.1 hfields) (mem_sortByKey.1 hfield)
    exact ih e he hmarshal
  | struct fields ih =>
    rw [marshal, map_eq_ok, marshalFields_eq] at h
    obtain ⟨written, hwritten, rfl⟩ := h
    refine numeric_obj.2 fun field hfield => ?_
    obtain ⟨e, he, -, hmarshal⟩ := exists_of_forall₂ (marshalEntries_ok.1 hwritten) hfield
    obtain ⟨e', he', rfl⟩ := mem_map.1 he
    exact ih e' he' hmarshal
  | keyed | other => cases h

/-! ## Texts -/

theorem writeItems_eq (items : List Json) : writeItems items = items.map writeCanonical := by
  induction items with
  | nil => rfl
  | cons v items ih => rw [writeItems, ih, map_cons]

theorem writeValues_eq (fields : List (String × Json)) :
    writeValues fields = mapValues writeCanonical fields := by
  induction fields with
  | nil => rfl
  | cons e fields ih => rw [writeValues, ih]; rfl

theorem encodeItems_eq (items : List Json) : Json.encodeItems items = items.map Json.encode := by
  induction items with
  | nil => rfl
  | cons v items ih => rw [Json.encodeItems, ih, map_cons]

theorem encodeFields_eq (fields : List (String × Json)) :
    Json.encodeFields fields = fields.map fun e => Json.quote e.1 ++ ":" ++ e.2.encode := by
  induction fields with
  | nil => rfl
  | cons e fields ih => rw [Json.encodeFields, ih, map_cons]

/-- **`writeCanonical` writes the document with its keys in order.** -/
theorem writeCanonical_eq (v : Json) : writeCanonical v = (Json.sorted v).encode := by
  induction v using Json.induct with
  | null | num | str => rfl
  | bool b => cases b <;> rfl
  | arr items ih =>
    rw [sorted_arr, writeCanonical, Json.encode, writeItems_eq, encodeItems_eq, map_map]
    rw [map_congr_left ih]
    rfl
  | obj fields ih =>
    have hvalues : mapValues writeCanonical fields
        = mapValues Json.encode (mapValues Json.sorted fields) := by
      simp only [mapValues, map_map]
      exact map_congr_left fun e he => Prod.ext rfl (ih e he)
    rw [sorted_obj, writeCanonical, Json.encode, writeValues_eq, hvalues, sortByKey_mapValues,
      encodeFields_eq]
    simp [mapValues, Function.comp_def]

/-- **What `StableJSON` returns**: the canonical document of a value that
is safe, has a document, and is not nested too deep. -/
theorem stableJSON_ok {v : GoValue} {text : String} : stableJSON v = .ok text ↔
    validateJSONSafe v "$" = .ok () ∧ ∃ d, marshal v = .ok d
      ∧ d.depth ≤ Json.maxNestingDepth ∧ d.canonical.encode = text := by
  rw [stableJSON, seq_eq_ok]
  simp only [bind_eq_ok]
  refine and_congr_right fun _ => exists_congr fun d => and_congr_right fun hmarshal => ?_
  have hnumeric := numeric_of_marshal hmarshal
  by_cases hdepth : d.depth ≤ Json.maxNestingDepth
  · rw [decode_encode hnumeric hdepth]
    simp only [hdepth, true_and, Except.ok.injEq, writeCanonical_eq]
    rfl
  · have hnone : Json.decode d.encode = none := by
      rw [← Option.not_isSome_iff_eq_none, decode_encode_isSome hnumeric]
      exact hdepth
    simp [hnone, hdepth]

/-- **Canonical texts are shared by documents of one value only.** -/
theorem canonical_encode_inj {d e : Json} (hd : d.numeric = true) (he : e.numeric = true) :
    d.canonical.encode = e.canonical.encode ↔ Json.Same d e := by
  rw [same_iff]
  refine ⟨fun h => ?_, fun h => by rw [h]⟩
  have := decoded_eq_of_encode_eq (numeric_canonical hd) (numeric_canonical he) h
  rwa [decoded_canonical, decoded_canonical] at this

end HardenLlm.Cachekey
