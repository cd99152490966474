import HardenLlm.Cachekey.Order
/-!
# Canonical operation keys

The text that is hashed is the canonical document of the operation and its
version. It does not depend on the order in which maps are visited, and it
is shared by no two operations whose documents differ as values.
-/

namespace HardenLlm.Cachekey

open List Bindings
open HardenLlm.Runtime (trimSpace)

/-! ## Operations -/

variable {toUpper : String → String}

/-- The semantic headers, as a value. -/
def GoMap.value (m : GoMap) : GoValue := .map m.id m.entries

/-- **The document of an operation**, normalised. -/
def Operation.document (toUpper : String → String) (o : Operation) : Except KeyError Json := do
  marshal (← normalize toUpper o).value

/-- **The same operation, its maps visited in other orders.** -/
structure Operation.Reorders (o p : Operation) : Prop where
  fields : p = { o with payload := p.payload, semanticHeaders := p.semanticHeaders }
  payload : Reordered o.payload p.payload
  headers : Reordered o.headers.value p.headers.value

/-- What an operation that is accepted passed. -/
theorem normalize_ok {o n : Operation} : normalize toUpper o = .ok n ↔
    trimSpace o.schemaVersion = operationSchemaVersion
      ∧ "" ∉ (o.trimmed toUpper).required
      ∧ rejectHeader o.headers.entries = .ok ()
      ∧ validateJSONSafe o.payload "operation.payload" = .ok ()
      ∧ validateJSONSafe o.headers.value "operation.semanticHeaders" = .ok ()
      ∧ o.trimmed toUpper = n := by
  have hheaders : (o.trimmed toUpper).headers = o.headers := rfl
  have hpayload : (o.trimmed toUpper).payload = o.payload := rfl
  simp only [normalize, seq_eq_ok, require_eq_ok, pure_eq_ok, hheaders, hpayload]
  rfl

theorem rejectHeader_ok {entries : List (String × GoValue)} :
    rejectHeader entries = .ok () ↔ ∀ key ∈ entries.map Prod.fst, ¬ forbiddenSemanticHeader key := by
  unfold rejectHeader
  cases hfind : entries.find? fun e => forbiddenSemanticHeader e.1 with
  | none => simpa using hfind
  | some e =>
    have hforbidden := List.find?_some hfind
    refine ⟨fun h => (by cases h), fun h => absurd hforbidden (h e.1 ?_)⟩
    exact mem_map_of_mem (mem_of_find?_eq_some hfind)

/-- The keys of a map in another order. -/
theorem Reordered.keys {id id' : Option ℕ} {entries entries' : List (String × GoValue)}
    (h : Reordered (.map id entries) (.map id' entries')) :
    (entries.map Prod.fst).Perm (entries'.map Prod.fst) := by
  cases h with
  | same => exact .refl _
  | map distinct keys values perm =>
    rw [keys]
    exact perm.map Prod.fst

variable {o p : Operation}

/-- A reordered operation is accepted too. -/
theorem Operation.Reorders.accepted (h : o.Reorders p)
    (ho : normalize toUpper o = .ok (o.trimmed toUpper)) :
    normalize toUpper p = .ok (p.trimmed toUpper) := by
  obtain ⟨hschema, hrequired, hheader, hpayload, hheaders, -⟩ := normalize_ok.1 ho
  have hsame : (p.trimmed toUpper).required = (o.trimmed toUpper).required := by
    rw [h.fields]
    rfl
  refine normalize_ok.2 ⟨?_, ?_, ?_, ?_, ?_, rfl⟩
  · rw [h.fields]
    exact hschema
  · rw [hsame]
    exact hrequired
  · rw [rejectHeader_ok] at hheader ⊢
    exact fun key hkey => hheader key (h.headers.keys.mem_iff.2 hkey)
  · exact h.payload.validate hpayload _
  · exact h.headers.validate hheaders _

/-- Its normal form is reordered. -/
theorem Operation.Reorders.value (h : o.Reorders p) :
    Reordered (o.trimmed toUpper).value (p.trimmed toUpper).value := by
  have hheaders : Reordered (.map o.headers.id o.headers.entries)
      (.map p.headers.id p.headers.entries) := h.headers
  have hpayload := h.payload
  have hfields := h.fields
  rw [hfields]
  refine .struct ?_ ?_
  · simp only [Operation.trimmed, map_append]
    rfl
  · simp only [Operation.trimmed, map_append]
    refine rel_append (forall₂_refl _) ?_
    refine .cons (.same _) (.cons (.same _) (.cons (.same _) ?_))
    exact .cons hpayload (.cons hheaders (.cons (.same _) .nil))

/-! ## The bytes that are hashed -/

/-- What is encoded of an operation and a version. -/
def keyValue (n : Operation) (version : String) : GoValue :=
  .map none [("operation", n.value), ("cacheVersion", .string (effectiveVersion version))]

/-- Its document. -/
def keyDocument (d : Json) (version : String) : Json :=
  .obj [("cacheVersion", .str (effectiveVersion version)), ("operation", d)]

variable {version : String} {d : Json}

theorem marshal_keyValue {n : Operation} :
    marshal (keyValue n version) = (marshal n.value).map fun d => keyDocument d version := by
  have horder : ¬ ("operation" ≤ "cacheVersion") := by decide
  rw [keyValue, marshal]
  cases h : marshal n.value with
  | error => simp [marshalEntries, h, bind, Except.bind, Except.map]
  | ok =>
    simp only [marshalEntries, marshal, h, bind, Except.bind, pure, Except.pure, Except.map]
    simp [sortByKey, horder, keyDocument]

theorem same_keyDocument {d' : Json} {version version' : String} :
    (keyDocument d version).Same (keyDocument d' version')
      ↔ d.Same d' ∧ effectiveVersion version = effectiveVersion version' := by
  rw [Json.same_iff, Json.same_iff, keyDocument, keyDocument, Json.canonical_obj_eq_iff]
  refine ⟨fun h => ⟨?_, ?_⟩, fun h key => ?_⟩
  · have := h "operation"
    simpa [value?] using this
  · have := h "cacheVersion"
    simpa [value?, Json.canonical, Json.decoded, Json.sorted] using this
  · simp only [value?]
    rw [h.2]
    split <;> simp [h.1]

theorem depth_keyDocument :
    (keyDocument d version).depth ≤ Json.maxNestingDepth ↔ d.depth < Json.maxNestingDepth := by
  have hdepth : (keyDocument d version).depth = d.depth + 1 := by
    simp [keyDocument, Json.depth, Json.depthFields]
  rw [hdepth, Nat.succ_le_iff]

/-- What is encoded of an operation that was accepted is safe. -/
theorem validate_keyValue {o n : Operation} (h : normalize toUpper o = .ok n) :
    validateJSONSafe (keyValue n version) "$" = .ok () := by
  obtain ⟨-, -, -, hpayload, hheaders, rfl⟩ := normalize_ok.1 h
  have hstruct (path : String) : validateReflect path [] (o.trimmed toUpper).value = .ok () := by
    rw [Operation.value, validateReflect, validateFields_eq]
    refine validateEntries_ok fun e he path => ?_
    rw [map_append, map_append, mem_append, mem_append] at he
    rcases he with (he | he) | he
    · rw [map_singleton, mem_singleton] at he
      subst he
      rfl
    · split at he
      · cases he
      · rw [map_singleton, mem_singleton] at he
        subst he
        rfl
    · simp only [map_cons, map_nil, mem_cons, not_mem_nil, or_false] at he
      rcases he with rfl | rfl | rfl | rfl | rfl | rfl
      · rfl
      · rfl
      · rfl
      · exact (Reordered.same _).validate hpayload path
      · exact (Reordered.same _).validate hheaders path
      · rfl
  rw [validateJSONSafe, keyValue, validateReflect]
  refine (if_neg (by simp)).trans (validateEntries_ok fun e he path => ?_)
  rcases mem_cons.1 he with rfl | he
  · exact hstruct path
  · rw [mem_singleton] at he
    subst he
    rfl

/-- **The bytes of an operation and its version** are the canonical
document of both, if it is not nested too deep. -/
theorem hashInput_ok {o : Operation} {bytes : ByteArray} :
    hashInput toUpper o version = .ok bytes ↔
      ∃ d, o.document toUpper = .ok d ∧ d.depth < Json.maxNestingDepth
        ∧ (keyDocument d version).canonical.encode.toUTF8 = bytes := by
  have hkey (n : Operation) : GoValue.map none [("operation", n.value),
      ("cacheVersion", .string (effectiveVersion version))] = keyValue n version := rfl
  simp only [hashInput, Operation.document, bind_eq_ok, hkey, stableJSON_ok, pure_eq_ok,
    marshal_keyValue, map_eq_ok]
  refine ⟨?_, ?_⟩
  · rintro ⟨n, hn, text, ⟨-, _, ⟨d, hd, rfl⟩, hdepth, rfl⟩, rfl⟩
    exact ⟨d, ⟨n, hn, hd⟩, depth_keyDocument.1 hdepth, rfl⟩
  · rintro ⟨d, ⟨n, hn, hd⟩, hdepth, rfl⟩
    exact ⟨n, hn, _, ⟨validate_keyValue hn, _, ⟨d, hd, rfl⟩, depth_keyDocument.2 hdepth, rfl⟩, rfl⟩

/-- The order of maps changes neither the document of an operation nor
whether there is one. -/
theorem Operation.Reorders.document (h : o.Reorders p) (hd : o.document toUpper = .ok d) :
    p.document toUpper = .ok d := by
  rw [Operation.document, bind_eq_ok] at hd ⊢
  obtain ⟨n, hn, hd⟩ := hd
  obtain rfl : o.trimmed toUpper = n := (normalize_ok.1 hn).2.2.2.2.2
  exact ⟨_, h.accepted hn, h.value.marshal_eq hd⟩

theorem Operation.Reorders.symm (h : o.Reorders p) : p.Reorders o where
  fields := by rw [h.fields]
  payload := h.payload.symm
  headers := h.headers.symm

/-- **Two operations and versions give the same bytes** exactly when their
documents have the same value and the versions are read alike. Neither may
be nested too deep: the decoder that the text goes through would refuse
it. -/
theorem hashInput_eq_iff {version version' : String} :
    (∃ bytes, hashInput toUpper o version = .ok bytes ∧ hashInput toUpper p version' = .ok bytes)
      ↔ ∃ d e, o.document toUpper = .ok d ∧ p.document toUpper = .ok e
        ∧ d.depth < Json.maxNestingDepth ∧ e.depth < Json.maxNestingDepth
        ∧ d.Same e ∧ effectiveVersion version = effectiveVersion version' := by
  have hnumeric {o : Operation} {d : Json} {version : String} (h : o.document toUpper = .ok d) :
      (keyDocument d version).numeric = true := by
    obtain ⟨n, -, hd⟩ := bind_eq_ok.1 h
    have hkey : marshal (keyValue n version) = .ok (keyDocument d version) := by
      rw [marshal_keyValue, hd]
      rfl
    exact numeric_of_marshal hkey
  have hbytes {s t : String} : s.toUTF8 = t.toUTF8 ↔ s = t := String.toByteArray_inj
  simp only [hashInput_ok]
  refine ⟨?_, ?_⟩
  · rintro ⟨_, ⟨d, hd, hdepth, rfl⟩, e, he, hdepth', hsame⟩
    have hvalues := (canonical_encode_inj (hnumeric hd) (hnumeric he)).1 (hbytes.1 hsame).symm
    exact ⟨d, e, hd, he, hdepth, hdepth', same_keyDocument.1 hvalues⟩
  · rintro ⟨d, e, hd, he, hdepth, hdepth', hsame⟩
    have hvalues := (canonical_encode_inj (hnumeric hd) (hnumeric he)).2 (same_keyDocument.2 hsame)
    exact ⟨_, ⟨d, hd, hdepth, rfl⟩, e, he, hdepth', hbytes.2 hvalues.symm⟩

/-- **The operation hash is canonical.** The bytes that are hashed do not
depend on the order of any map. Two operations and versions give the same
bytes exactly when both operations are encoded, nested less deep than the
decoder allows, as documents of the same value, and the versions are read
alike. `StableJSON` tells apart all values that it returns for. -/
theorem hashInput_canonical (toUpper : String → String) (o p : Operation)
    (version version' : String) :
    (o.Reorders p → ∀ bytes,
      hashInput toUpper o version = .ok bytes ↔ hashInput toUpper p version = .ok bytes)
    ∧ ((∃ bytes, hashInput toUpper o version = .ok bytes
        ∧ hashInput toUpper p version' = .ok bytes)
      ↔ ∃ d e, o.document toUpper = .ok d ∧ p.document toUpper = .ok e
        ∧ d.depth < Json.maxNestingDepth ∧ e.depth < Json.maxNestingDepth
        ∧ d.Same e ∧ effectiveVersion version = effectiveVersion version')
    ∧ ∀ v w, (∃ text, stableJSON v = .ok text ∧ stableJSON w = .ok text)
      ↔ validateJSONSafe v "$" = .ok () ∧ validateJSONSafe w "$" = .ok ()
        ∧ ∃ d e, marshal v = .ok d ∧ marshal w = .ok e ∧ d.depth ≤ Json.maxNestingDepth
          ∧ e.depth ≤ Json.maxNestingDepth ∧ d.Same e := by
  have horder {o p : Operation} {bytes : ByteArray} (h : o.Reorders p)
      (ho : hashInput toUpper o version = .ok bytes) : hashInput toUpper p version = .ok bytes := by
    rw [hashInput_ok] at ho ⊢
    obtain ⟨d, hd, hdepth, hbytes⟩ := ho
    exact ⟨d, h.document hd, hdepth, hbytes⟩
  refine ⟨fun h bytes => ⟨horder h, horder h.symm⟩, hashInput_eq_iff, fun v w => ?_⟩
  simp only [stableJSON_ok]
  constructor
  · rintro ⟨_, ⟨hv, d, hd, hdepth, rfl⟩, hw, e, he, hdepth', htext⟩
    have hsame := (canonical_encode_inj (numeric_of_marshal hd) (numeric_of_marshal he)).1 htext.symm
    exact ⟨hv, hw, d, e, hd, he, hdepth, hdepth', hsame⟩
  · rintro ⟨hv, hw, d, e, hd, he, hdepth, hdepth', hsame⟩
    have htext := (canonical_encode_inj (numeric_of_marshal hd) (numeric_of_marshal he)).2 hsame
    exact ⟨_, ⟨hv, d, hd, hdepth, rfl⟩, hw, e, he, hdepth', htext.symm⟩

namespace Sample

/-- An array in an array, and so on. -/
def nest : ℕ → GoValue
  | 0 => .nil
  | n + 1 => .slice none [nest n]

def nestDocument : ℕ → Json
  | 0 => .null
  | n + 1 => .arr [nestDocument n]

theorem marshal_nest (n : ℕ) : marshal (nest n) = .ok (nestDocument n) := by
  induction n with
  | zero => rfl
  | succ n ih =>
    rw [nest, marshal, map_eq_ok]
    exact ⟨[nestDocument n], marshalItems_ok.2 (.cons ih .nil), rfl⟩

theorem validate_nest (n : ℕ) (path : String) : validateReflect path [] (nest n) = .ok () := by
  induction n generalizing path with
  | zero => rfl
  | succ n ih =>
    rw [nest, validateReflect]
    refine (if_neg (by simp)).trans (validateItems_ok fun v hv path => ?_)
    rw [mem_singleton] at hv
    rw [hv]
    exact ih path

theorem depth_nestDocument (n : ℕ) : (nestDocument n).depth = n := by
  induction n with
  | zero => rfl
  | succ n ih => simp [nestDocument, Json.depth, Json.depthItems, ih]

/-- An operation with a nested payload. -/
def deep (n : ℕ) : Operation where
  schemaVersion := operationSchemaVersion
  protocol := "openai-chat"
  endpoint := { identity := "openai", method := "POST", path := "/v1/chat/completions" }
  model := "gpt-5"
  payload := nest n
  responseProjection := { provider := "openai", kind := "text", version := "v1" }

/-- The case mapping, of ASCII letters. -/
def asciiUpper (s : String) : String := String.ofList (s.toList.map Char.toUpper)

theorem deep_accepted (n : ℕ) :
    normalize asciiUpper (deep n) = .ok ((deep n).trimmed asciiUpper) := by
  have hschema : trimSpace (deep 0).schemaVersion = operationSchemaVersion := by decide +kernel
  have hrequired : "" ∉ ((deep 0).trimmed asciiUpper).required := by decide +kernel
  exact normalize_ok.2 ⟨hschema, hrequired, rfl, validate_nest n _, rfl, rfl⟩

/-- Its document holds the nested array. -/
theorem deep_document (n : ℕ) :
    ∃ fields, (deep n).document asciiUpper = .ok (.obj fields)
      ∧ ("payload", nestDocument n) ∈ fields := by
  have hpayload : marshal ((deep n).trimmed asciiUpper).payload = .ok (nestDocument n) :=
    marshal_nest n
  have hdocument : (deep n).document asciiUpper = marshal ((deep n).trimmed asciiUpper).value := by
    rw [Operation.document, deep_accepted]
    rfl
  have hdomain : ((deep n).trimmed asciiUpper).cacheDomain = "" := by rfl
  simp only [hdocument, Operation.value, marshal, marshalFields, cons_append, nil_append,
    hpayload, bind, Except.bind, pure, Except.pure, if_pos hdomain]
  refine ⟨_, rfl, ?_⟩
  simp

end Sample

open Sample

/-- An operation that is nested too deep is accepted and has a document,
but it gives no bytes. -/
theorem deep_not_hashed :
    ¬ ∀ (o p : Operation) (version version' : String),
      (∃ n, normalize asciiUpper o = .ok n) →
      (∃ n, normalize asciiUpper p = .ok n) →
      ((∃ bytes, hashInput asciiUpper o version = .ok bytes
          ∧ hashInput asciiUpper p version' = .ok bytes)
        ↔ ∃ d e, o.document asciiUpper = .ok d ∧ p.document asciiUpper = .ok e
          ∧ d.Same e ∧ effectiveVersion version = effectiveVersion version') := by
  intro h
  obtain ⟨fields, hdocument, hpayload⟩ := deep_document Json.maxNestingDepth
  have hsame : Json.Same (.obj fields) (.obj fields) := Json.same_iff.2 rfl
  have hbytes := (h (deep _) (deep _) "" "" ⟨_, deep_accepted _⟩
    ⟨_, deep_accepted _⟩).2 ⟨_, _, hdocument, hdocument, hsame, rfl⟩
  obtain ⟨d, _, hd, -, hdepth, -⟩ := hashInput_eq_iff.1 hbytes
  rw [hdocument] at hd
  cases hd
  have hnested := Json.depth_obj_le (d := Json.maxNestingDepth - 1) |>.1 (by omega) _ hpayload
  rw [depth_nestDocument] at hnested
  omega

end HardenLlm.Cachekey
