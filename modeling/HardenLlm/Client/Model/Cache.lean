import HardenLlm.Common.Json.Canonical
/-!
# Cache records

`cache.go` and `client_cache.go`: the envelope in which a client keeps
results under the hash of an operation, and what the adapter checks of it
before it reads the result.
-/

namespace HardenLlm.Client

/-- **What a cache store keeps of a result.** The store reads nothing of the
result; it is a document to it. -/
structure CacheRecord (R : Type := Json) where
  schemaVersion : ℤ
  cacheVersion : String
  operationHash : String
  providerResult : R
  createdAt : ℤ

def cacheRecordSchemaVersion : ℤ := 3

/-- The record that `cacheAdapter.Set` writes. -/
def newRecord {R : Type} (operationHash cacheVersion : String) (providerResult : R)
    (createdAt : ℤ) : CacheRecord R where
  schemaVersion := cacheRecordSchemaVersion
  cacheVersion := cacheVersion
  operationHash := operationHash
  providerResult := providerResult
  createdAt := createdAt

/-- What `cacheAdapter.Get` checks of a record; one that fails is an
integrity error. -/
def CacheRecord.intact {R : Type} (r : CacheRecord R) (operationHash cacheVersion : String) :
    Bool :=
  r.schemaVersion = cacheRecordSchemaVersion && r.operationHash = operationHash
    && r.cacheVersion = cacheVersion

end HardenLlm.Client
