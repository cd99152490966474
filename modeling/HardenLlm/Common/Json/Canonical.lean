import HardenLlm.Common.Bindings
import HardenLlm.Common.Json
import Mathlib.Data.String.Basic
/-!
# Documents as values

Two documents have one value when their arrays agree item by item and
their objects key by key; the order of an object's fields does not count,
and a key that is bound twice has its last value. Every value has one
canonical document, with each key once and the keys in order.
-/

namespace HardenLlm.Json

open List Bindings

/-- Induction over a document, with the items of an array and the fields
of an object at once. -/
@[elab_as_elim]
theorem induct {P : Json → Prop} (null : P .null) (bool : ∀ b, P (.bool b))
    (num : ∀ literal, P (.num literal)) (str : ∀ s, P (.str s))
    (arr : ∀ items, (∀ v ∈ items, P v) → P (.arr items))
    (obj : ∀ fields, (∀ e ∈ fields, P e.2) → P (.obj fields)) (v : Json) : P v := by
  refine @Json.rec P (fun items => ∀ v ∈ items, P v) (fun fields => ∀ e ∈ fields, P e.2)
    (fun e => P e.2) null bool num str arr obj ?_ ?_ ?_ ?_ ?_ v
  · exact nofun
  · exact fun v items hv hitems => forall_mem_cons.2 ⟨hv, hitems⟩
  · exact nofun
  · exact fun e fields he hfields => forall_mem_cons.2 ⟨he, hfields⟩
  · exact fun key v hv => hv

/-! ## Values -/

/-- **Two documents have the same value.** -/
inductive Same : Json → Json → Prop
  | null : Same .null .null
  | bool (b : Bool) : Same (.bool b) (.bool b)
  | num (literal : String) : Same (.num literal) (.num literal)
  | str (s : String) : Same (.str s) (.str s)
  | arr {items items' : List Json} (each : List.Forall₂ Same items items') :
      Same (.arr items) (.arr items')
  | obj {fields fields' : List (String × Json)}
      (keys : ∀ key, (value? key fields).isSome = (value? key fields').isSome)
      (values : ∀ key v w, value? key fields = some v → value? key fields' = some w → Same v w) :
      Same (.obj fields) (.obj fields')

/-! ## Canonical documents -/

mutual

/-- What a decoder keeps of a document: each key once. -/
def decoded : Json → Json
  | .arr items => .arr (decodedItems items)
  | .obj fields => .obj (collect (decodedFields fields))
  | v => v

def decodedItems : List Json → List Json
  | [] => []
  | v :: rest => decoded v :: decodedItems rest

def decodedFields : List (String × Json) → List (String × Json)
  | [] => []
  | (key, v) :: rest => (key, decoded v) :: decodedFields rest

end

mutual

/-- The keys of every object in order. -/
def sorted : Json → Json
  | .arr items => .arr (sortedItems items)
  | .obj fields => .obj (sortByKey (sortedFields fields))
  | v => v

def sortedItems : List Json → List Json
  | [] => []
  | v :: rest => sorted v :: sortedItems rest

def sortedFields : List (String × Json) → List (String × Json)
  | [] => []
  | (key, v) :: rest => (key, sorted v) :: sortedFields rest

end

variable (items : List Json) (fields : List (String × Json))

theorem decodedItems_eq : decodedItems items = items.map decoded := by
  induction items with
  | nil => rfl
  | cons v rest ih => rw [decodedItems, ih, map_cons]

theorem decodedFields_eq : decodedFields fields = mapValues decoded fields := by
  induction fields with
  | nil => rfl
  | cons e rest ih => rw [decodedFields, ih]; rfl

theorem sortedItems_eq : sortedItems items = items.map sorted := by
  induction items with
  | nil => rfl
  | cons v rest ih => rw [sortedItems, ih, map_cons]

theorem sortedFields_eq : sortedFields fields = mapValues sorted fields := by
  induction fields with
  | nil => rfl
  | cons e rest ih => rw [sortedFields, ih]; rfl

theorem decoded_arr : decoded (.arr items) = .arr (items.map decoded) := by
  rw [decoded, decodedItems_eq]

theorem decoded_obj : decoded (.obj fields) = .obj (collect (mapValues decoded fields)) := by
  rw [decoded, decodedFields_eq]

theorem sorted_arr : sorted (.arr items) = .arr (items.map sorted) := by
  rw [sorted, sortedItems_eq]

theorem sorted_obj : sorted (.obj fields) = .obj (sortByKey (mapValues sorted fields)) := by
  rw [sorted, sortedFields_eq]

/-- **The canonical document of a value.** -/
def canonical (v : Json) : Json := sorted (decoded v)

theorem canonical_arr : canonical (.arr items) = .arr (items.map canonical) := by
  rw [canonical, decoded_arr, sorted_arr, map_map]
  rfl

theorem canonical_obj :
    canonical (.obj fields) = .obj (sortByKey (collect (mapValues canonical fields))) := by
  rw [canonical, decoded_obj, sorted_obj, ← collect_mapValues]
  congr 3
  simp [mapValues, canonical]

/-- Objects have the same canonical document when they agree at every
key. -/
theorem canonical_obj_eq_iff {fields fields' : List (String × Json)} :
    canonical (.obj fields) = canonical (.obj fields')
      ↔ ∀ key, (value? key fields).map canonical = (value? key fields').map canonical := by
  rw [canonical_obj, canonical_obj, Json.obj.injEq,
    sortByKey_eq_iff (nodup_collect _) (nodup_collect _)]
  simp only [value?_collect, value?_mapValues]

/-- **Documents have the same value exactly when they have the same
canonical document.** -/
theorem same_iff {v w : Json} : Same v w ↔ canonical v = canonical w := by
  induction v using induct generalizing w with
  | null | bool | num | str =>
    refine ⟨fun h => by cases h; rfl, fun h => ?_⟩
    cases w <;> first | cases h; constructor | (simp [canonical, decoded, sorted] at h)
  | arr items ih =>
    refine ⟨fun h => ?_, fun h => ?_⟩
    · cases h with
      | arr each =>
        rw [canonical_arr, canonical_arr]
        congr 1
        induction each with
        | nil => rfl
        | cons hhead _ ihtail =>
          rw [map_cons, map_cons, (ih _ mem_cons_self).1 hhead,
            ihtail (forall_mem_cons.1 ih).2]
    · cases w with
      | arr items' =>
        rw [canonical_arr, canonical_arr, Json.arr.injEq] at h
        refine .arr ?_
        induction items generalizing items' with
        | nil =>
          rw [map_nil, eq_comm, map_eq_nil_iff] at h
          rw [h]
          exact .nil
        | cons v rest ihtail =>
          cases items' with
          | nil => cases h
          | cons v' rest' =>
            rw [map_cons, map_cons, List.cons.injEq] at h
            exact .cons ((ih v mem_cons_self).2 h.1)
              (ihtail ((forall_mem_cons.1 ih).2) rest' h.2)
      | obj => rw [canonical_arr, canonical_obj] at h; cases h
      | null | bool | num | str => rw [canonical_arr] at h; cases h
  | obj fields ih =>
    have hvalue {key : String} {v : Json} (h : value? key fields = some v) (w : Json) :
        Same v w ↔ canonical v = canonical w := ih _ (mem_of_value? h)
    refine ⟨fun h => ?_, fun h => ?_⟩
    · cases h with
      | obj keys values =>
        refine canonical_obj_eq_iff.2 fun key => ?_
        have hkeys := keys key
        cases hv : value? key fields with
        | none =>
          rw [hv] at hkeys
          rw [Option.isSome_eq_false_iff.1 hkeys.symm |> Option.isNone_iff_eq_none.1]
        | some v =>
          rw [hv] at hkeys
          obtain ⟨w, hw⟩ := Option.isSome_iff_exists.1 hkeys.symm
          rw [hw, Option.map_some, Option.map_some, (hvalue hv w).1 (values key v w hv hw)]
    · cases w with
      | obj =>
        have hsame := canonical_obj_eq_iff.1 h
        refine .obj (fun key => ?_) fun key v w hv hw => ?_
        · have := congrArg Option.isSome (hsame key)
          rwa [Option.isSome_map, Option.isSome_map] at this
        · have := hsame key
          rw [hv, hw, Option.map_some, Option.map_some] at this
          exact (hvalue hv w).2 (Option.some.inj this)
      | arr => rw [canonical_arr, canonical_obj] at h; cases h
      | null | bool | num | str => rw [canonical_obj] at h; cases h

/-! ## What a decoder keeps -/

theorem canonical_decoded (v : Json) : canonical (decoded v) = canonical v := by
  induction v using induct with
  | null | bool | num | str => rfl
  | arr items ih =>
    rw [decoded_arr, canonical_arr, canonical_arr, map_map]
    congr 1
    exact map_congr_left ih
  | obj fields ih =>
    rw [decoded_obj]
    refine canonical_obj_eq_iff.2 fun key => ?_
    rw [value?_collect, value?_mapValues, Option.map_map]
    cases hv : value? key fields with
    | none => rfl
    | some => exact congrArg some (ih _ (mem_of_value? hv))

/-- A canonical document is decoded as it is. -/
theorem decoded_canonical (v : Json) : decoded (canonical v) = canonical v := by
  induction v using induct with
  | null | bool | num | str => rfl
  | arr items ih =>
    rw [canonical_arr, decoded_arr, map_map]
    congr 1
    exact map_congr_left ih
  | obj fields ih =>
    rw [canonical_obj, decoded_obj]
    have hkeys := nodup_sortByKey (nodup_collect (mapValues canonical fields))
    have hfixed : mapValues decoded (sortByKey (collect (mapValues canonical fields)))
        = sortByKey (collect (mapValues canonical fields)) := by
      refine (map_congr_left fun e he => ?_).trans (map_id _)
      have hvalue := value?_of_mem hkeys he
      rw [value?_sortByKey (nodup_collect _), value?_collect, value?_mapValues,
        Option.map_eq_some_iff] at hvalue
      obtain ⟨v, hv, hcanonical⟩ := hvalue
      have hstays : decoded (canonical v) = canonical v := ih _ (mem_of_value? hv)
      rw [hcanonical] at hstays
      exact Prod.ext rfl hstays
    rw [hfixed, collect_of_nodup hkeys]

end HardenLlm.Json
