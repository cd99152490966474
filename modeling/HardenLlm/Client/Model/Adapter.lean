import HardenLlm.Client.Model.Cache
import HardenLlm.Common.Json.Canonical
import HardenLlm.Common.Json.Reader
import HardenLlm.Runtime.Model.Types
/-!
# The cache adapter

`client_cache.go`: a result is kept as a projection of it, encoded as
JSON. The typed fields of the projection are read back as they were
written; the output is decoded as a value of any type, so that what it was
before is not known any more.
-/

namespace HardenLlm.Client

open HardenLlm.Runtime

variable {A : Type}

/-! ## Outputs -/

/-- An output as JSON, if it can be encoded. -/
def outputDocument : Output → Option Json
  | .none => some .null
  | .text s => some (.str s)
  | .value v => some v
  | .assistant content calls => some (assistantDocument content calls)
  | .unencodable => none

/-- A document as a value of any type, unless it is null; its objects
become maps, which have their keys in order. -/
def genericOutput : Json → Option Output
  | .null => none
  | .str s => some (.text s)
  | v => some (.value v.sorted)

/-- The output in a decoded projection. -/
def projectedOutput : Json → Option Output
  | .obj [(_, v)] => genericOutput v
  | _ => none

/-- The output of a projection is decoded, one level down in its document.
Nothing may follow the document. -/
def decodeOutput (document : Json) : Option Output :=
  (Json.decode (Json.obj [("output", document)]).encode).bind fun r =>
    if r.2 = [] then projectedOutput r.1 else none

/-! ## The adapter -/

/-- **What is kept of a result.** -/
structure CachedProviderProjection (A : Type) where
  search : Option SearchResult
  output : Json
  accounting : Ledger A
  stream : StreamDiagnostics
  producer : ExecutionTarget
  generationTarget : ExecutionTarget
  completedBy : CompletedBy

/-- The record of a result. -/
abbrev ResultRecord (A : Type) : Type := CacheRecord (CachedProviderProjection A)

namespace CacheAdapter

/-- **`cacheAdapter.Get`**, on what the store has for the hash. -/
def get (stored : Option (ResultRecord A)) (operationHash cacheVersion : String) :
    Except Fault (Option (CachedResult A)) :=
  match stored with
  | none => .ok none
  | some record =>
    if !record.intact operationHash cacheVersion then .error .cacheIntegrity
    else
      let projection := record.providerResult
      match decodeOutput projection.output with
      | none => .error .cacheIntegrity
      | some output =>
        .ok (some
          { providerResult :=
              { search := projection.search
                output := output
                accounting := projection.accounting
                stream := projection.stream }
            producer := projection.producer
            generationTarget := projection.generationTarget
            completedBy := projection.completedBy })

/-- **`cacheAdapter.Set`**, up to the store. -/
def set (operationHash cacheVersion : String) (result : CachedResult A) (createdAt : ℤ) :
    Except Fault (ResultRecord A) :=
  match result.providerResult.output with
  | .none => .error (.plain "hardenllm: cannot cache a provider result without output")
  | output =>
    match outputDocument output with
    | none => .error (.plain "hardenllm: encode cached provider result: json: unsupported value")
    | some document =>
      let projection : CachedProviderProjection A :=
        { search := result.providerResult.search
          output := document
          accounting := result.providerResult.accounting
          stream := result.providerResult.stream
          producer := result.producer
          generationTarget := result.generationTarget
          completedBy := result.completedBy }
      .ok (newRecord operationHash cacheVersion projection createdAt)

end CacheAdapter

end HardenLlm.Client
