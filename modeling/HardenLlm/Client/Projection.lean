import HardenLlm.Client.Model.Adapter
import HardenLlm.Common.Json.Nesting
/-!
# What the adapter keeps of a result

The record of a result, and what is read back from it. A string comes back
as it was, and so does a decoded value that is not nested too deep in the
document; nothing comes back with tool calls.
-/

namespace HardenLlm.Client

open HardenLlm.Runtime

variable {A : Type}

/-! ## Outputs -/

/-- A value as a decoder builds it: every object in key order. Strings and
null are outputs of their own. -/
def Normal : Output → Prop
  | .value v => v.canonical = v ∧ v.numeric = true ∧ v ≠ .null ∧ ∀ s, v ≠ .str s
  | _ => True

theorem genericOutput_ne_assistant (v : Json) (content : String) (calls : List AssistantToolCall) :
    genericOutput v ≠ some (.assistant content calls) := by
  cases v <;> exact fun h => by cases h

/-- **No output comes back with tool calls.** -/
theorem decodeOutput_ne_assistant (document : Json) (content : String)
    (calls : List AssistantToolCall) : decodeOutput document ≠ some (.assistant content calls) := by
  intro h
  obtain ⟨r, -, hr⟩ := Option.bind_eq_some_iff.1 h
  split at hr
  · unfold projectedOutput at hr
    split at hr
    · exact genericOutput_ne_assistant _ _ _ hr
    · cases hr
  · cases hr

/-- The document around an output. -/
theorem depth_projection (document : Json) :
    (Json.obj [("output", document)]).depth = document.depth + 1 := by
  simp [Json.depth, Json.depthFields]

variable {document : Json}

theorem numeric_projection (h : document.numeric = true) :
    (Json.obj [("output", document)]).numeric = true := by
  refine Json.numeric_obj.2 fun e he => ?_
  cases List.mem_singleton.1 he
  exact h

theorem decodeOutput_of_shallow (hnumeric : document.numeric = true)
    (hdepth : document.depth < Json.maxNestingDepth) :
    decodeOutput document = genericOutput document.decoded := by
  have hdecode : Json.decode (Json.obj [("output", document)]).encode
      = some (.obj [("output", document.decoded)], []) := by
    rw [Json.decode_encode (numeric_projection hnumeric)
      (by rw [depth_projection]; omega), Json.decoded_obj]
    rfl
  rw [decodeOutput, hdecode]
  rfl

theorem decodeOutput_of_deep (hnumeric : document.numeric = true)
    (hdepth : Json.maxNestingDepth ≤ document.depth) : decodeOutput document = none := by
  have hnone : Json.decode (Json.obj [("output", document)]).encode = none := by
    rw [← Option.not_isSome_iff_eq_none, Json.decode_encode_isSome (numeric_projection hnumeric),
      depth_projection]
    omega
  rw [decodeOutput, hnone, Option.bind_none]

/-- **An output comes back as it was**, if the adapter keeps what it
is. -/
theorem decodeOutput_document {output : Output} (hnormal : Normal output)
    (hdocument : outputDocument output = some document) (houtput : output ≠ .none)
    (hgeneric : ∀ content calls, output ≠ .assistant content calls)
    (hshallow : ∀ v, output = .value v → v.depth < Json.maxNestingDepth) :
    decodeOutput document = some output := by
  cases output with
  | none => exact absurd rfl houtput
  | text =>
    cases hdocument
    exact decodeOutput_of_shallow rfl (by simp [Json.depth, Json.maxNestingDepth])
  | value =>
    cases hdocument
    obtain ⟨hcanonical, hnumeric, hnull, hstr⟩ := hnormal
    have hdecoded : document.decoded = document := by
      rw [← hcanonical, Json.decoded_canonical]
    rw [Json.canonical, hdecoded] at hcanonical
    rw [decodeOutput_of_shallow hnumeric (hshallow _ rfl), hdecoded]
    cases document with
    | null => exact absurd rfl hnull
    | str s => exact absurd rfl (hstr s)
    | bool | num | arr | obj => exact congrArg (fun v => some (Output.value v)) hcanonical
  | assistant content calls => exact absurd rfl (hgeneric content calls)
  | unencodable => cases hdocument

/-! ## Records -/

variable {hash version : String} {result : CachedResult A} {createdAt : ℤ}

/-- The projection of a result. -/
def projection (result : CachedResult A) (document : Json) : CachedProviderProjection A where
  search := result.providerResult.search
  output := document
  accounting := result.providerResult.accounting
  stream := result.providerResult.stream
  producer := result.producer
  generationTarget := result.generationTarget
  completedBy := result.completedBy

theorem set_ok {record : ResultRecord A}
    (h : CacheAdapter.set hash version result createdAt = .ok record) :
    result.providerResult.output ≠ .none ∧ ∃ document,
      outputDocument result.providerResult.output = some document
        ∧ record = newRecord hash version (projection result document) createdAt := by
  unfold CacheAdapter.set at h
  split at h
  · cases h
  · rename_i hsome
    split at h
    · cases h
    · rename_i document hdocument
      cases h
      exact ⟨hsome, document, hdocument, rfl⟩

/-- What a caller gets of an entry. -/
def replayed (result : CachedResult A) (output : Output) : CachedResult A where
  providerResult :=
    { search := result.providerResult.search
      output := output
      accounting := result.providerResult.accounting
      stream := result.providerResult.stream }
  producer := result.producer
  generationTarget := result.generationTarget
  completedBy := result.completedBy

/-- **The record as the adapter reads it.** -/
theorem get_newRecord :
    CacheAdapter.get (some (newRecord hash version (projection result document) createdAt)) hash
      version = match decodeOutput document with
        | none => .error .cacheIntegrity
        | some output => .ok (some (replayed result output)) := by
  simp only [CacheAdapter.get, CacheRecord.intact, newRecord, decide_true, Bool.and_self,
    Bool.not_true, Bool.false_eq_true, if_false]
  rfl

end HardenLlm.Client
