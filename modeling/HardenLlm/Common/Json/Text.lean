import HardenLlm.Common.Json.Canonical
import HardenLlm.Common.Json.Reader
/-!
# The text of a document

The characters of the text that encodes a document, and what the text
depends on: that its numbers are numbers, and how deep it is nested.
-/

namespace HardenLlm.Json

open List Bindings

/-! ## Texts -/

def quoteChars (s : String) : List Char := '"' :: (s.toList.flatMap escapeChar ++ ['"'])

mutual

/-- The characters of a document's text. -/
def chars : Json → List Char
  | .null => ['n', 'u', 'l', 'l']
  | .bool b => if b then ['t', 'r', 'u', 'e'] else ['f', 'a', 'l', 's', 'e']
  | .num literal => literal.toList
  | .str s => quoteChars s
  | .arr [] => ['[', ']']
  | .arr (v :: rest) => '[' :: (chars v ++ charsItems rest)
  | .obj [] => ['\x7b', '\x7d']
  | .obj ((key, v) :: rest) => '\x7b' :: (quoteChars key ++ ':' :: (chars v ++ charsFields rest))

/-- The items behind the first one, and the bracket. -/
def charsItems : List Json → List Char
  | [] => [']']
  | v :: rest => ',' :: (chars v ++ charsItems rest)

/-- The fields behind the first one, and the brace. -/
def charsFields : List (String × Json) → List Char
  | [] => ['\x7d']
  | (key, v) :: rest => ',' :: (quoteChars key ++ ':' :: (chars v ++ charsFields rest))

end

theorem toList_quote (s : String) : (quote s).toList = quoteChars s := by
  simp [quote, quoteChars]

theorem intercalate_comma (cs : List Char) (rest : List (List Char)) :
    [','].intercalate (cs :: rest) = cs ++ rest.flatMap fun ds => ',' :: ds := by
  induction rest generalizing cs with
  | nil => simp
  | cons ds rest ih =>
    rw [intercalate_cons_cons, ih]
    simp

/-- **The text of a document.** -/
theorem toList_encode (v : Json) : (encode v).toList = chars v := by
  induction v using induct with
  | null => rfl
  | bool b => cases b <;> rfl
  | num => rw [encode, chars]
  | str => rw [encode, chars, toList_quote]
  | arr items ih =>
    have htail (rest : List Json) (h : ∀ v ∈ rest, (encode v).toList = chars v) :
        (encodeItems rest).flatMap (fun t => ',' :: t.toList) ++ [']'] = charsItems rest := by
      induction rest with
      | nil => rfl
      | cons v rest ih =>
        rw [encodeItems, flatMap_cons, h v mem_cons_self, charsItems,
          ← ih (forall_mem_cons.1 h).2]
        simp
    cases items with
    | nil => rfl
    | cons v rest =>
      rw [encode, encodeItems, chars, ← htail rest (forall_mem_cons.1 ih).2]
      simp [intercalate_comma, flatMap_map, ih v mem_cons_self]
  | obj fields ih =>
    have htail (rest : List (String × Json)) (h : ∀ e ∈ rest, (encode e.2).toList = chars e.2) :
        (encodeFields rest).flatMap (fun t => ',' :: t.toList) ++ ['\x7d'] = charsFields rest := by
      induction rest with
      | nil => rfl
      | cons e rest ih =>
        rw [encodeFields, flatMap_cons, charsFields, ← ih (forall_mem_cons.1 h).2]
        simp [toList_quote, h e mem_cons_self]
    cases fields with
    | nil => rfl
    | cons e rest =>
      rw [encode, encodeFields, chars, ← htail rest (forall_mem_cons.1 ih).2]
      simp [intercalate_comma, flatMap_map, toList_quote, ih e mem_cons_self]

/-! ## Well-formed documents -/

mutual

/-- **Every number of a document is one.** -/
def numeric : Json → Bool
  | .num literal => isNumber literal.toList
  | .arr items => numericItems items
  | .obj fields => numericFields fields
  | _ => true

def numericItems : List Json → Bool
  | [] => true
  | v :: rest => numeric v && numericItems rest

def numericFields : List (String × Json) → Bool
  | [] => true
  | (_, v) :: rest => numeric v && numericFields rest

end

mutual

/-- How deep arrays and objects are nested. -/
def depth : Json → ℕ
  | .arr items => depthItems items + 1
  | .obj fields => depthFields fields + 1
  | _ => 0

def depthItems : List Json → ℕ
  | [] => 0
  | v :: rest => max (depth v) (depthItems rest)

def depthFields : List (String × Json) → ℕ
  | [] => 0
  | (_, v) :: rest => max (depth v) (depthFields rest)

end

theorem numeric_arr {items : List Json} :
    numeric (.arr items) = true ↔ ∀ v ∈ items, numeric v = true := by
  rw [numeric]
  induction items with
  | nil => simp [numericItems]
  | cons v rest ih => rw [numericItems, Bool.and_eq_true, ih, forall_mem_cons]

theorem numeric_obj {fields : List (String × Json)} :
    numeric (.obj fields) = true ↔ ∀ e ∈ fields, numeric e.2 = true := by
  rw [numeric]
  induction fields with
  | nil => simp [numericFields]
  | cons e rest ih => rw [numericFields, Bool.and_eq_true, ih, forall_mem_cons]

theorem depth_arr_le {items : List Json} {d : ℕ} :
    depth (.arr items) ≤ d + 1 ↔ ∀ v ∈ items, depth v ≤ d := by
  rw [depth, Nat.add_le_add_iff_right]
  induction items with
  | nil => simp [depthItems]
  | cons v rest ih => rw [depthItems, max_le_iff, ih, forall_mem_cons]

theorem depth_obj_le {fields : List (String × Json)} {d : ℕ} :
    depth (.obj fields) ≤ d + 1 ↔ ∀ e ∈ fields, depth e.2 ≤ d := by
  rw [depth, Nat.add_le_add_iff_right]
  induction fields with
  | nil => simp [depthFields]
  | cons e rest ih => rw [depthFields, max_le_iff, ih, forall_mem_cons]

/-- The canonical document has the numbers of its document. -/
theorem numeric_canonical {v : Json} (h : numeric v = true) : numeric (canonical v) = true := by
  induction v using induct with
  | null | bool | str => rfl
  | num => exact h
  | arr items ih =>
    rw [canonical_arr, numeric_arr]
    intro w hw
    obtain ⟨v, hv, rfl⟩ := mem_map.1 hw
    exact ih v hv (numeric_arr.1 h v hv)
  | obj fields ih =>
    rw [canonical_obj, numeric_obj]
    intro e he
    have hvalue := value?_of_mem (nodup_collect _) (mem_sortByKey.1 he)
    rw [value?_collect, value?_mapValues, Option.map_eq_some_iff] at hvalue
    obtain ⟨v, hv, heq⟩ := hvalue
    rw [← heq]
    exact ih _ (mem_of_value? hv) (numeric_obj.1 h _ (mem_of_value? hv))

end HardenLlm.Json
