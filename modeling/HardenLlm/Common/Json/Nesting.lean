import HardenLlm.Common.Json.RoundTrip
/-!
# Nesting

The text of a document is read exactly when the document is nested no
deeper than the reader allows.
-/

namespace HardenLlm.Json

open Bindings List Option

variable {d : ℕ} {rest : List Char}

section Items

variable {items : List Json} (hnumeric : ∀ v ∈ items, numeric v = true) (hdepth : ∀ v ∈ items,
  ∀ rest r, Ends rest → readValue d (chars v ++ rest) = some r → depth v ≤ d)
include hnumeric hdepth

/-- The items that an array was read from are not nested too deep. -/
theorem depth_of_readItems {fuel : ℕ} {r : List Json × List Char}
    (h : readItems (readValue d) fuel (charsItems items ++ rest) = some r) :
    ∀ v ∈ items, depth v ≤ d := by
  induction items generalizing fuel r with
  | nil => exact nofun
  | cons v items ih =>
    cases fuel with
    | zero => cases h
    | succ =>
      have hends : Ends (charsItems items ++ rest) := ends_charsItems items rest
      rw [charsItems_cons, readItems, skip_cons (by decide)] at h
      simp only [bind_eq_bind, bind_eq_some_iff] at h
      obtain ⟨e, he, es, hes, -⟩ := h
      have hv := hdepth v mem_cons_self _ _ hends he
      -- The first item was read whole, so the others stand where reading goes on.
      rw [readValue_chars (hnumeric v mem_cons_self) hv hends] at he
      cases he
      exact forall_mem_cons.2 ⟨hv, ih ((forall_mem_cons.1 hnumeric).2)
        ((forall_mem_cons.1 hdepth).2) hes⟩

/-- The items of an array that was read are not nested too deep. -/
theorem depth_of_readArray {r : Json × List Char}
    (h : readArray (readValue d) ((chars (.arr items)).tail ++ rest) = some r) :
    ∀ v ∈ items, depth v ≤ d := by
  cases items with
  | nil => exact nofun
  | cons v items =>
    obtain ⟨c, cs, hc, hblank, hbracket⟩ := chars_cons (hnumeric v mem_cons_self)
    rw [tail_arr_cons, readArray] at h
    split at h
    · rename_i heq
      rw [hc, cons_append, skip_cons hblank] at heq
      exact absurd (List.cons.inj heq).1 hbracket
    · simp only [bind_eq_bind, bind_eq_some_iff] at h
      obtain ⟨e, he, es, hes, -⟩ := h
      -- They are read as the items behind a comma are.
      have hitems : readItems (readValue d) (e.2.length + 2) (charsItems (v :: items) ++ rest)
          = some (e.1 :: es.1, es.2) := by
        rw [charsItems_cons, readItems, skip_cons (by decide)]
        simp [he, hes]
      exact depth_of_readItems hnumeric hdepth hitems

end Items

/-- The field that was read is not nested too deep, and it was read
whole. -/
theorem depth_of_readField {e : String × Json} (hnumeric : numeric e.2 = true)
    (hdepth : ∀ rest r, Ends rest → readValue d (chars e.2 ++ rest) = some r → depth e.2 ≤ d)
    (hrest : Ends rest) {r : (String × Json) × List Char}
    (h : readField (readValue d) (quoteChars e.1 ++ ':' :: (chars e.2 ++ rest)) = some r) :
    depth e.2 ≤ d ∧ r = ((e.1, decoded e.2), rest) := by
  have hle : depth e.2 ≤ d := by
    simp only [readField, readKey_quoteChars, bind_eq_bind, bind_eq_some_iff, bind_some] at h
    obtain ⟨v, hv, -⟩ := h
    exact hdepth _ _ hrest hv
  rw [readField_chars e.1 (readValue_chars hnumeric hle hrest)] at h
  exact ⟨hle, (Option.some.inj h).symm⟩

section Fields

variable {fields : List (String × Json)} (hnumeric : ∀ e ∈ fields, numeric e.2 = true)
  (hdepth : ∀ e ∈ fields, ∀ rest r, Ends rest →
    readValue d (chars e.2 ++ rest) = some r → depth e.2 ≤ d)
include hnumeric hdepth

/-- The fields that an object was read from are not nested too deep. -/
theorem depth_of_readFields {fuel : ℕ} {r : List (String × Json) × List Char}
    (h : readFields (readValue d) fuel (charsFields fields ++ rest) = some r) :
    ∀ e ∈ fields, depth e.2 ≤ d := by
  induction fields generalizing fuel r with
  | nil => exact nofun
  | cons e fields ih =>
    cases fuel with
    | zero => cases h
    | succ =>
      rw [charsFields_cons, readFields, skip_cons (by decide)] at h
      simp only [bind_eq_bind, bind_eq_some_iff] at h
      obtain ⟨f, hf, es, hes, -⟩ := h
      obtain ⟨he, rfl⟩ := depth_of_readField (hnumeric e mem_cons_self)
        (hdepth e mem_cons_self) (ends_charsFields fields rest) hf
      exact forall_mem_cons.2 ⟨he, ih ((forall_mem_cons.1 hnumeric).2)
        ((forall_mem_cons.1 hdepth).2) hes⟩

/-- The values of an object that was read are not nested too deep. -/
theorem depth_of_readObject {r : Json × List Char}
    (h : readObject (readValue d) ((chars (.obj fields)).tail ++ rest) = some r) :
    ∀ e ∈ fields, depth e.2 ≤ d := by
  cases fields with
  | nil => exact nofun
  | cons e fields =>
    rw [tail_obj_cons, readObject] at h
    split at h
    · rename_i heq
      rw [quoteChars, cons_append, skip_cons (by decide)] at heq
      cases heq
    · simp only [bind_eq_bind, bind_eq_some_iff] at h
      obtain ⟨f, hf, es, hes, -⟩ := h
      have hfields : readFields (readValue d) (f.2.length + 2) (charsFields (e :: fields) ++ rest)
          = some (f.1 :: es.1, es.2) := by
        rw [charsFields_cons, readFields, skip_cons (by decide)]
        simp [hf, hes]
      exact depth_of_readFields hnumeric hdepth hfields

end Fields

/-- **A document whose text is read is not nested too deep.** -/
theorem depth_of_readValue {v : Json} {r : Json × List Char} (hv : numeric v = true)
    (hrest : Ends rest) (h : readValue d (chars v ++ rest) = some r) : depth v ≤ d := by
  induction v using induct generalizing d rest r with
  | null | bool | num | str => exact Nat.zero_le d
  | arr items ih =>
    rw [chars_arr, cons_append] at h
    cases d with
    | zero => cases h
    | succ =>
      rw [readValue, readWith, skip_cons (by decide)] at h
      have hnumeric := numeric_arr.1 hv
      exact depth_arr_le.2 (depth_of_readArray hnumeric
        (fun v hv rest r hrest h => ih v hv (hnumeric v hv) hrest h) h)
  | obj fields ih =>
    rw [chars_obj, cons_append] at h
    cases d with
    | zero => cases h
    | succ =>
      rw [readValue, readWith, skip_cons (by decide)] at h
      have hnumeric := numeric_obj.1 hv
      exact depth_obj_le.2 (depth_of_readObject hnumeric
        (fun e he rest r hrest h => ih e he (hnumeric e he) hrest h) h)

/-- **The text of a document is decoded exactly when it is not nested too
deep.** -/
theorem decode_encode_isSome {v : Json} (hv : numeric v = true) :
    (decode (encode v)).isSome = true ↔ depth v ≤ maxNestingDepth := by
  refine ⟨fun h => ?_, fun h => by rw [decode_encode hv h]; rfl⟩
  obtain ⟨r, hr⟩ := isSome_iff_exists.1 h
  rw [decode, toList_encode, ← append_nil (chars v)] at hr
  exact depth_of_readValue hv ends_nil hr

end HardenLlm.Json
