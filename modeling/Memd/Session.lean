/-
# Serial sessions of one tenant

The calls a client can make on the store of one tenant, the system that runs them one
after the other with crashes and reopenings anywhere in between, and what the log of a
run says has been stored and deleted.
-/
import Memd.Maintenance

/-- The settings of a session whose segment finalizations do not fail. -/
structure Limits where
  segmentMaxChunks : ℕ
  minFinalizeChunks : ℕ
  walCheckpointInterval : ℕ
  removeFails : List ℕ := []
  deriving DecidableEq, Repr

/-- A configuration with these limits and nothing that fails. -/
def Limits.config (l : Limits) : StoreConfig where
  segmentMaxChunks := l.segmentMaxChunks
  minFinalizeChunks := l.minFinalizeChunks
  walCheckpointInterval := l.walCheckpointInterval
  removeFails := l.removeFails

/-- The calls on one tenant. -/
inductive StoreOp
  | add (chunks : List MemoryChunk) (indexError : Option String) (now : ℤ)
  | addTaskArtifact (artifact : TaskArtifact) (projections : List PersistentStore.TaskProjection)
      (indexError : Option String) (now : ℤ)
  | delete (chunkId : ChunkId)
  | hardDelete (ids : List ChunkId)
  | rewrite
  | purge (options : PersistentStore.PurgeOptions) (now : ℤ)
  | shutdown
  deriving DecidableEq, Repr

/-- What a call returns. -/
inductive StoreRes
  | added (outcome : PersistentStore.AddChunksOutcome)
  | projected (ids : List ChunkId)
  | deleted (found : Bool)
  | purged (report : PersistentStore.PurgeReport)
  | done
  deriving DecidableEq, Repr

namespace StoreOp

open PersistentStore TenantStore

/-- The program of a call. -/
def prog (ext : Externals) (t : TenantId) : StoreOp → StoreProg StoreRes
  | .add chunks indexError now => do
    let outcome ← addChunks ext t chunks false indexError now
    pure (.added outcome)
  | .addTaskArtifact artifact projections indexError now => do
    let ids ← PersistentStore.addTaskArtifact ext artifact projections indexError now
    pure (.projected ids)
  | .delete c => do
    let found ← deleteChunk t c
    pure (.deleted found)
  | .hardDelete ids => do
    let _ ← hardDeleteChunks t ids
    pure .done
  | .rewrite => do
    rewriteFinalizedSegments t
    pure .done
  | .purge options now => do
    let report ← runPurge t options now
    pure (.purged report)
  | .shutdown => do
    finalizeActiveSegmentIfAboveThreshold
    pure .done

/-- Is the call about the tenant's own chunks? -/
def isFor (t : TenantId) : StoreOp → Bool
  | .add chunks _ _ => chunks.all (·.tenantId == t)
  | .addTaskArtifact artifact _ _ _ => artifact.tenantId == t
  | _ => true

end StoreOp

/-- Calls on one tenant, one at a time; `allowed` says which calls a run may make. -/
def session (ext : Externals) (t : TenantId) (allowed : StoreOp → Bool) :
    System StoreStep Store MemdError StoreOp StoreRes Limits where
  prog := StoreOp.prog ext t
  boot l := TenantStore.openTenant ext t l.config
  crash := Store.crash
  admits inFlight op := inFlight.isEmpty && op.isFor t && allowed op

/-- What is observed of a store: calls, answers and crashes. -/
abbrev StoreEvent := Event StoreOp StoreRes MemdError

/-! ## A sample run -/

/-- The outside functions on the texts of the sample runs: short texts in lower case. -/
def sampleExternals : Externals where
  sha256Hex text :=
    if text = "a" then "ca978112ca1bbdcafac231b39a23dc4da786eff8147c4e72b9807785afee48bb"
    else if text = "b" then "3e23e8160039594a33894f6564e1b1348bbd7a0088d42c4acb73eeaed59c009d"
    else ""
  toLowercase text := text
  chunkText text := [⟨text, 0, text.length⟩]

/-- A chunk as a client hands it in. -/
def sampleChunk (text : String) : MemoryChunk where
  chunkId := 0
  tenantId := "t"
  text := text
