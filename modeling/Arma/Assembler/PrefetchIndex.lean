import Arma.Assembler.BatchHeap

/-!
# The index of prefetched batches

Model of `BatchCache` and `PartitionPrefetchIndex` (`node/assembler/batch_cache.go`, `partition_prefetch_index.go`).
The assembler has an index for every shard and primary: two caches, and a heap from which the oldest prefetched batch
is evicted. `Put` keeps what the stream from the own party's batcher brings, `PutForce` what was fetched on request,
and `PopOrWait` takes a batch out by its id.

* `Put` and `PopOrWait` release the lock while they wait, so they are cut into what they do before their loop and what
  they do in a round of it. The timer of an item of the heap is left out.
* An error of an operation is a value (`Except IndexErr`), next to the index that the operation leaves behind. A panic
  is the outcome of the call.

**`removeUnsafe_spec`**: the batch that is taken out is the one with that id.
-/

namespace Arma

open Arma.Lib Outcome

/-! ## The caches -/

def batchSizeBytes (batch : FabricBatch) : Nat := (batch.requests.map List.length).sum

structure BatchCache where
  shardBatchMapper : BatchMapper FabricBatch
  sizeBytes : Int

namespace BatchCache

def new (partition : ShardPrimary) : BatchCache := ⟨.new FabricBatch partition, 0⟩

def pop (bc : BatchCache) (batchId : BatchIDKey) : Outcome (BatchCache × Except IndexErr FabricBatch) := do
  let (mapper, r) ← bc.shardBatchMapper.remove batchId
  match r with
  | .ok batch => return (⟨mapper, bc.sizeBytes - batchSizeBytes batch⟩, .ok batch)
  | .error e => return (bc, .error e)

def put (bc : BatchCache) (batch : FabricBatch) : Outcome (BatchCache × Except IndexErr Unit) := do
  let (mapper, inserted) ← bc.shardBatchMapper.insert batch.batchID batch false
  if inserted then return (⟨mapper, bc.sizeBytes + batchSizeBytes batch⟩, .ok ())
  else return (bc, .error .batchAlreadyExists)

/-- Every batch is filed under its own id, in the partition, and `P` holds of it. -/
structure Holds (bc : BatchCache) (partition : ShardPrimary) (P : FabricBatch → Prop) : Prop where
  partition_eq : bc.shardBatchMapper.partition = partition
  keeps : bc.shardBatchMapper.Keeps fun id batch => batch.batchID = id ∧ P batch

variable {bc bc' : BatchCache} {partition : ShardPrimary} {P : FabricBatch → Prop} {batchId : BatchIDKey}
  {batch : FabricBatch}

theorem holds_new (partition : ShardPrimary) (P : FabricBatch → Prop) : (new partition).Holds partition P :=
  ⟨rfl, BatchMapper.keeps_new partition⟩

theorem Holds.pop {r} (h : bc.Holds partition P) (hpop : bc.pop batchId = .ok (bc', r)) :
    bc'.Holds partition P ∧ ∀ batch, r = .ok batch → batch.batchID = batchId ∧ P batch := by
  simp only [BatchCache.pop, bind_eq_ok] at hpop
  obtain ⟨⟨mapper, r'⟩, hremove, hret⟩ := hpop
  obtain ⟨hkeeps, hpartition, hvalue⟩ := h.keeps.remove hremove
  cases r' with
  | ok batch =>
    cases hret
    refine ⟨⟨hpartition.trans h.partition_eq, hkeeps⟩, ?_⟩
    rintro _ ⟨⟩
    exact hvalue batch rfl
  | error e =>
    cases hret
    exact ⟨h, nofun⟩

theorem Holds.put {r} (h : bc.Holds partition P) (hbatch : P batch)
    (hput : bc.put batch = .ok (bc', r)) : bc'.Holds partition P := by
  simp only [BatchCache.put, bind_eq_ok] at hput
  obtain ⟨⟨mapper, inserted⟩, hinsert, hret⟩ := hput
  obtain ⟨hkeeps, hpartition⟩ := h.keeps.insert ⟨rfl, hbatch⟩ hinsert
  cases inserted with
  | true =>
    cases hret
    exact ⟨hpartition.trans h.partition_eq, hkeeps⟩
  | false =>
    cases hret
    exact h

end BatchCache

/-! ## The index of a partition -/

structure PartitionPrefetchIndex where
  partition : ShardPrimary
  lastPutSeqRequest : BatchSequence
  lastPutSeq : BatchSequence
  maxPoppedCallSeq : BatchSequence
  cache : BatchCache
  forcedPutCache : BatchCache
  sequenceHeap : BatchHeap Unit
  maxSizeBytes : Nat
  cancelled : Bool

namespace PartitionPrefetchIndex

def new (partition : ShardPrimary) (maxSizeBytes : Nat) : PartitionPrefetchIndex where
  partition
  lastPutSeqRequest := 0
  lastPutSeq := 0
  maxPoppedCallSeq := 0
  cache := .new partition
  forcedPutCache := .new partition
  sequenceHeap := .new partition seqLess
  maxSizeBytes
  cancelled := false

variable (pi : PartitionPrefetchIndex)

variable (batchId : BatchIDKey)

def assertBatchPartition : Outcome Unit :=
  if batchId.partition ≠ pi.partition then
    .error (.panic (s!"batch partition \x7b{batchId.shard} {batchId.primary}\x7d does not match the partition of " ++
      s!"the store \x7b{pi.partition.shard} {pi.partition.primary}\x7d"))
  else .ok ()

/-- `removeUnsafe`: from the cache and the heap, or from what was put by force. -/
def removeUnsafe : Outcome (PartitionPrefetchIndex × Except IndexErr FabricBatch) := do
  let (cache, r) ← pi.cache.pop batchId
  match r with
  | .error .batchDoesNotExist => do
    let (forcedPutCache, r) ← pi.forcedPutCache.pop batchId
    return ({ pi with forcedPutCache }, r)
  | .error e => return (pi, .error e)
  | .ok batch => do
    let (sequenceHeap, removed) ← pi.sequenceHeap.remove batchId
    -- the batch has left the cache, also if the heap does not have it
    return ({ pi with cache, sequenceHeap }, removed.map fun _ => batch)

/-- What `PopOrWait` does before its loop. -/
def popEnter : Outcome PartitionPrefetchIndex := do
  pi.assertBatchPartition batchId
  return { pi with maxPoppedCallSeq := max pi.maxPoppedCallSeq batchId.seq }

/-- The beginning of a round of `PopOrWait`. -/
def popRound : Outcome (PartitionPrefetchIndex × Except IndexErr FabricBatch) :=
  if pi.cancelled then return (pi, .error .operationCancelled) else pi.removeUnsafe batchId

/-- `doubleDigest`: the stream is past the batch, or has brought one with another digest in its place. -/
def doubleDigest : Bool :=
  batchId.seq < pi.lastPutSeqRequest ∨ batchId.seq = pi.lastPutSeq

def saveOrdinaryBatch (batch : FabricBatch) : Outcome (PartitionPrefetchIndex × Except IndexErr Unit) := do
  let (cache, r) ← pi.cache.put batch
  match r with
  | .error e => return (pi, .error e)
  | .ok () => do
    let (sequenceHeap, pushed) ← pi.sequenceHeap.push ⟨batch, ()⟩
    match pushed with
    | .ok () => return ({ pi with cache, sequenceHeap, lastPutSeq := batch.seq }, .ok ())
    | .error e => do
      let (cache, _) ← cache.pop batch.batchID
      return ({ pi with cache, sequenceHeap }, .error e)

/-- What `Put` does before its loop. -/
def putEnter (batch : FabricBatch) : Outcome (PartitionPrefetchIndex × Except IndexErr Unit) := do
  pi.assertBatchPartition batch.batchID
  if pi.maxSizeBytes < batchSizeBytes batch then return (pi, .error .batchTooLarge)
  else do
    let exist ← pi.cache.shardBatchMapper.has batch.batchID
    if exist then return (pi, .error .batchAlreadyExists)
    else return ({ pi with lastPutSeqRequest := batch.seq }, .ok ())

/-- The condition of the loop of `Put`: there is no room. -/
def full (batch : FabricBatch) : Bool := pi.maxSizeBytes < pi.cache.sizeBytes + batchSizeBytes batch

def evictOldestBatch : Outcome (PartitionPrefetchIndex × Except IndexErr Unit) := do
  let (sequenceHeap, oldest) ← pi.sequenceHeap.pop
  match oldest with
  | none => return (pi, .error .nothingToEvict)
  | some oldest => do
    let (cache, r) ← pi.cache.pop oldest.batch.batchID
    return ({ pi with cache, sequenceHeap }, r.map fun _ => ())

def putForce (batch : FabricBatch) : Outcome (PartitionPrefetchIndex × Except IndexErr Unit) := do
  pi.assertBatchPartition batch.batchID
  if pi.maxSizeBytes < batchSizeBytes batch then return (pi, .error .batchTooLarge)
  else do
    let (forcedPutCache, r) ← pi.forcedPutCache.put batch
    return ({ pi with forcedPutCache }, r)

/-- `Stop`, which pops the heap until it is empty. -/
def stop : PartitionPrefetchIndex := { pi with cancelled := true, sequenceHeap := .new pi.partition seqLess }

/-! ## What the index holds -/

/-- **Both caches hold batches of the partition under their own ids**, and `P` holds of them. -/
structure Holds (P : FabricBatch → Prop) : Prop where
  cache : pi.cache.Holds pi.partition P
  forcedPutCache : pi.forcedPutCache.Holds pi.partition P

variable {pi} {pi' : PartitionPrefetchIndex} {P : FabricBatch → Prop} {batchId : BatchIDKey} {batch : FabricBatch}

theorem holds_new (partition : ShardPrimary) (maxSizeBytes : Nat) (P : FabricBatch → Prop) :
    (new partition maxSizeBytes).Holds P :=
  ⟨BatchCache.holds_new partition P, BatchCache.holds_new partition P⟩

/-- What an operation leaves behind: the partition is the same, and the index holds what it should. -/
def Leaves (P : FabricBatch → Prop) (pi pi' : PartitionPrefetchIndex) : Prop :=
  pi'.partition = pi.partition ∧ (pi.Holds P → pi'.Holds P)

theorem removeUnsafe_spec {r} (hremove : pi.removeUnsafe batchId = .ok (pi', r)) :
    Leaves P pi pi' ∧ (pi.Holds P → ∀ batch, r = .ok batch → batch.batchID = batchId ∧ P batch) := by
  simp only [removeUnsafe, bind_eq_ok] at hremove
  obtain ⟨⟨cache, r'⟩, hpop, hret⟩ := hremove
  cases r' with
  | ok popped =>
    have hpopped : pi.Holds P → cache.Holds pi.partition P ∧ popped.batchID = batchId ∧ P popped := fun h =>
      ⟨(h.cache.pop hpop).1, (h.cache.pop hpop).2 popped rfl⟩
    simp only [bind_eq_ok] at hret
    obtain ⟨⟨sequenceHeap, removed⟩, -, hret⟩ := hret
    cases hret
    refine ⟨⟨rfl, fun h => ⟨(hpopped h).1, h.forcedPutCache⟩⟩, fun h batch hbatch => ?_⟩
    cases removed with
    | error e => cases hbatch
    | ok item =>
      cases hbatch
      exact (hpopped h).2
  | error e =>
    cases e with
    | batchDoesNotExist =>
      simp only [bind_eq_ok] at hret
      obtain ⟨⟨forcedPutCache, r''⟩, hpop', hret⟩ := hret
      cases hret
      exact ⟨⟨rfl, fun h => ⟨h.cache, (h.forcedPutCache.pop hpop').1⟩⟩, fun h => (h.forcedPutCache.pop hpop').2⟩
    | _ =>
      cases hret
      exact ⟨⟨rfl, id⟩, fun _ => nofun⟩

theorem popEnter_leaves (h : pi.popEnter batchId = .ok pi') : Leaves P pi pi' := by
  simp only [popEnter, bind_eq_ok] at h
  obtain ⟨-, -, hret⟩ := h
  cases hret
  exact ⟨rfl, fun h => ⟨h.cache, h.forcedPutCache⟩⟩

theorem popRound_spec {r} (hpop : pi.popRound batchId = .ok (pi', r)) :
    Leaves P pi pi' ∧ (pi.Holds P → ∀ batch, r = .ok batch → batch.batchID = batchId ∧ P batch) := by
  unfold popRound at hpop
  split at hpop
  · cases hpop
    exact ⟨⟨rfl, id⟩, fun _ => nofun⟩
  · exact removeUnsafe_spec hpop

variable {r : Except IndexErr Unit}

/-- Before its loop, `Put` writes down the sequence at most. -/
theorem putEnter_eq_ok (h : pi.putEnter batch = .ok (pi', r)) : ∃ seq, pi' = { pi with lastPutSeqRequest := seq } := by
  simp only [putEnter, bind_eq_ok] at h
  obtain ⟨-, -, h⟩ := h
  split at h
  · cases h
    exact ⟨_, rfl⟩
  · simp only [bind_eq_ok] at h
    obtain ⟨exist, -, h⟩ := h
    cases exist with
    | true | false =>
      cases h
      exact ⟨_, rfl⟩

theorem putEnter_leaves (h : pi.putEnter batch = .ok (pi', r)) : Leaves P pi pi' := by
  obtain ⟨seq, rfl⟩ := putEnter_eq_ok h
  exact ⟨rfl, fun h => ⟨h.cache, h.forcedPutCache⟩⟩

theorem saveOrdinaryBatch_leaves (hbatch : P batch)
    (h : pi.saveOrdinaryBatch batch = .ok (pi', r)) : Leaves P pi pi' := by
  simp only [saveOrdinaryBatch, bind_eq_ok] at h
  obtain ⟨⟨cache, r'⟩, hput, h⟩ := h
  cases r' with
  | error e =>
    cases h
    exact ⟨rfl, id⟩
  | ok u =>
    simp only [bind_eq_ok] at h
    obtain ⟨⟨sequenceHeap, pushed⟩, -, h⟩ := h
    cases pushed with
    | ok u =>
      cases h
      exact ⟨rfl, fun h => ⟨h.cache.put hbatch hput, h.forcedPutCache⟩⟩
    | error e =>
      simp only [bind_eq_ok] at h
      obtain ⟨⟨cache', r''⟩, hpop, h⟩ := h
      cases h
      exact ⟨rfl, fun h => ⟨((h.cache.put hbatch hput).pop hpop).1, h.forcedPutCache⟩⟩

theorem evictOldestBatch_leaves (h : pi.evictOldestBatch = .ok (pi', r)) : Leaves P pi pi' := by
  simp only [evictOldestBatch, bind_eq_ok] at h
  obtain ⟨⟨sequenceHeap, oldest⟩, -, h⟩ := h
  cases oldest with
  | none =>
    cases h
    exact ⟨rfl, id⟩
  | some oldest =>
    simp only [bind_eq_ok] at h
    obtain ⟨⟨cache, r'⟩, hpop, h⟩ := h
    cases h
    exact ⟨rfl, fun h => ⟨(h.cache.pop hpop).1, h.forcedPutCache⟩⟩

/-- `PutForce` puts the batch into the forced cache at most. -/
theorem putForce_eq_ok (h : pi.putForce batch = .ok (pi', r)) :
    pi' = pi ∨ ∃ forcedPutCache, pi.forcedPutCache.put batch = .ok (forcedPutCache, r) ∧
      pi' = { pi with forcedPutCache } := by
  simp only [putForce, bind_eq_ok] at h
  obtain ⟨-, -, h⟩ := h
  split at h
  · cases h
    exact .inl rfl
  · simp only [bind_eq_ok] at h
    obtain ⟨⟨forcedPutCache, r'⟩, hput, h⟩ := h
    cases h
    exact .inr ⟨forcedPutCache, hput, rfl⟩

theorem putForce_leaves (hbatch : P batch) (h : pi.putForce batch = .ok (pi', r)) : Leaves P pi pi' := by
  obtain rfl | ⟨forcedPutCache, hput, rfl⟩ := putForce_eq_ok h
  · exact ⟨rfl, id⟩
  · exact ⟨rfl, fun h => ⟨h.cache, h.forcedPutCache.put hbatch hput⟩⟩

theorem stop_leaves : Leaves P pi pi.stop := ⟨rfl, fun h => ⟨h.cache, h.forcedPutCache⟩⟩

end PartitionPrefetchIndex

end Arma
