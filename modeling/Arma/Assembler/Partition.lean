import Arma.Assembler.PrefetchIndex
import Arma.Lib.Interleave

/-!
# One partition of the prefetch index

The calls of `Put`, `PutForce` and `PopOrWait`, the TTL timers, the censorship monitors and the unary fetches of one
partition, until `Stop`. A step is what happens under the lock, or the firing of a timer, or a sending.

* Any number of calls may be in progress. A `Put` in its loop is a batch that has passed the check of its size.
* A timer that is stopped may have fired, and its handler may wait for the lock: a handler runs at any time after its
  timer was made.
* A monitor sets the flag of its call and then sends, without a look at what has been sent. The return of the call
  stops the monitors that have not fired.

Results:
* `in_step_with_heap`: the cache and the heap hold the same batches, their bytes are counted, and an eviction finds its
  batch.
* `kept_until_returned`: a batch that was put by force stays until a call for its id takes it, if no handler runs for
  an id that only the forced cache has. `thrown_away` is a run in which one does.
* `forced_empty`: where every forced put and every return leave nobody's batch behind, only batches that are waited
  for are in the forced cache. `left_behind` is a run in which the stream was faster.
* `sent_once_iff`: a call sends once iff no monitor of it fires with the flag set. `sent_twice` is a run in which one
  does.
-/

namespace Arma

open Arma.Lib Outcome List Function BatchCache PartitionPrefetchIndex BatchMapper

/-- A call of `PopOrWait`, also after its return. -/
structure PopCall where
  batchId : BatchIDKey
  /-- `wasBatchRequestedFlag`. -/
  requested : Bool
  returned : Bool
  /-- The monitors that are set. -/
  armed : Nat
  /-- The monitors that have fired and have not sent yet. -/
  fired : Nat
  /-- How often the id was sent. -/
  sent : Nat
  /-- The rounds without the batch and with the flag unset. -/
  unrequested : Nat
  /-- The monitors that have fired with the flag set. -/
  late : Nat
  deriving DecidableEq, Repr

namespace PopCall

def new (batchId : BatchIDKey) : PopCall := ⟨batchId, false, false, 0, 0, 0, 0, 0⟩

/-- A round that does not find the batch. -/
def wait (call : PopCall) (doubleDigest : Bool) : PopCall :=
  { call with
    requested := call.requested || doubleDigest
    armed := call.armed + (!call.requested && !doubleDigest).toNat
    sent := call.sent + (!call.requested && doubleDigest).toNat
    unrequested := call.unrequested + (!call.requested).toNat }

/-- The return, which stops the monitors that are set. -/
def leave (call : PopCall) : PopCall := { call with returned := true, armed := 0 }

/-- A monitor fires. -/
def fire (call : PopCall) : PopCall :=
  { call with
    requested := true
    armed := call.armed - 1
    fired := call.fired + 1
    late := call.late + call.requested.toNat }

def send (call : PopCall) : PopCall := { call with fired := call.fired - 1, sent := call.sent + 1 }

/-- What has been sent, or will be by a monitor that has fired, and the rounds from which it comes. -/
structure Counted (call : PopCall) : Prop where
  asked : call.sent + call.fired = call.requested.toNat + call.late
  late : call.requested = false → call.late = 0
  rounds : call.sent + call.fired + call.armed ≤ call.unrequested

variable {call : PopCall}

theorem Counted.wait (h : call.Counted) (doubleDigest : Bool) : (call.wait doubleDigest).Counted := by
  obtain ⟨hasked, hlate, hrounds⟩ := h
  refine ⟨?_, fun hflag => hlate (Bool.or_eq_false_iff.mp hflag).1, ?_⟩
  · cases hflag : call.requested <;> cases doubleDigest <;> simp [PopCall.wait, hflag] at hasked ⊢ <;> omega
  · cases hflag : call.requested <;> cases doubleDigest <;> simp [PopCall.wait, hflag] <;> omega

theorem Counted.leave (h : call.Counted) : call.leave.Counted :=
  ⟨h.asked, h.late, (Nat.le_add_right _ _).trans h.rounds⟩

theorem Counted.fire (h : call.Counted) (harmed : 0 < call.armed) : call.fire.Counted := by
  obtain ⟨hasked, -, hrounds⟩ := h
  refine ⟨?_, nofun, ?_⟩
  · simp only [PopCall.fire, Bool.toNat_true]
    omega
  · simp only [PopCall.fire]
    omega

theorem Counted.send (h : call.Counted) (hfired : 0 < call.fired) : call.send.Counted := by
  obtain ⟨hasked, hlate, hrounds⟩ := h
  refine ⟨?_, hlate, ?_⟩
  · simp only [PopCall.send]
    omega
  · simp only [PopCall.send]
    omega

end PopCall

/-- A partition, and what is going on around it. -/
structure Partition where
  index : PartitionPrefetchIndex
  /-- The ids with a TTL timer. -/
  timers : List BatchIDKey
  calls : List PopCall
  /-- The ids that were sent and not answered yet. -/
  fetches : List BatchIDKey
  /-- What `PopOrWait` has returned. -/
  popped : List FabricBatch

namespace Partition

inductive Action where
  | put
  | expire (batchId : BatchIDKey)
  | putForce (batch : FabricBatch)
  | popEnter
  | popFound (call : PopCall)
  | popWait
  | monitor

inductive Step (p : Partition) : Action → Partition → Prop
  | putEnter {batch index r} (hput : p.index.putEnter batch = .ok (index, r)) : Step p .put { p with index }
  | putEvict {batch index r} (hsize : batchSizeBytes batch ≤ p.index.maxSizeBytes)
      (hfull : p.index.full batch = true) (hasked : batch.seq ≤ p.index.maxPoppedCallSeq)
      (hevict : p.index.evictOldestBatch = .ok (index, r)) : Step p .put { p with index }
  | putSave {batch index r}
      (hroom : p.index.full batch = false) (hsave : p.index.saveOrdinaryBatch batch = .ok (index, r)) :
      Step p .put { p with index, timers := batch.batchID :: p.timers }
  | expire {batchId index r} (htimer : batchId ∈ p.timers) (hremove : p.index.removeUnsafe batchId = .ok (index, r)) :
      Step p (.expire batchId) { p with index }
  | putForce {batch before after index r} (hfetches : p.fetches = before ++ batch.batchID :: after)
      (hput : p.index.putForce batch = .ok (index, r)) :
      Step p (.putForce batch) { p with index, fetches := before ++ after }
  | popEnter {batchId index} (hpop : p.index.popEnter batchId = .ok index) :
      Step p .popEnter { p with index, calls := p.calls ++ [.new batchId] }
  | popFound {before after call index batch} (hcalls : p.calls = before ++ call :: after) (hat : call.returned = false)
      (hpop : p.index.popRound call.batchId = .ok (index, .ok batch)) :
      Step p (.popFound call) { p with index, calls := before ++ call.leave :: after, popped := batch :: p.popped }
  | popWait {before after call index} (hcalls : p.calls = before ++ call :: after) (hat : call.returned = false)
      (hpop : p.index.popRound call.batchId = .ok (index, .error .batchDoesNotExist)) :
      Step p .popWait { p with
        index
        calls := before ++ call.wait (p.index.doubleDigest call.batchId) :: after
        fetches := p.fetches ++
          if call.requested = false ∧ p.index.doubleDigest call.batchId = true then [call.batchId] else [] }
  | monitorFires {before after call} (hcalls : p.calls = before ++ call :: after) (harmed : 0 < call.armed) :
      Step p .monitor { p with calls := before ++ call.fire :: after }
  | monitorSends {before after call} (hcalls : p.calls = before ++ call :: after) (hfired : 0 < call.fired) :
      Step p .monitor { p with calls := before ++ call.send :: after, fetches := p.fetches ++ [call.batchId] }

/-- The runs in which `C` holds before every step. -/
def RunWhen (C : Partition → Action → Prop) : Partition → Partition → Prop :=
  Relation.ReflTransGen fun p p' => ∃ a, C p a ∧ Step p a p'

def Run : Partition → Partition → Prop := RunWhen fun _ _ => True

def start (partition : ShardPrimary) (maxSizeBytes : Nat) : Partition :=
  ⟨.new partition maxSizeBytes, [], [], [], []⟩

end Partition

/-! ## The cache and the heap -/

/-- The batches of the heap, in the order of the array. -/
def BatchHeap.batches {T : Type} (h : BatchHeap T) : List FabricBatch := h.data.toList.map BatchHeapItem.batch

/-- The mapper has these batches, each filed under its id. -/
def BatchMapper.Content (m : BatchMapper FabricBatch) (held : List FabricBatch) : Prop :=
  ∀ seq, (m.seqToBatches seq).Perm ((held.filter (·.seq = seq)).map fun b => (b.batchID, b))

section Content

variable {m m' : BatchMapper FabricBatch} {held held' : List FabricBatch} {batch : FabricBatch} {batchId : BatchIDKey}

theorem BatchMapper.Content.mem_iff (h : m.Content held)
    {seq e} : e ∈ m.seqToBatches seq ↔ ∃ b ∈ held, b.seq = seq ∧ (b.batchID, b) = e := by
  simp [(h seq).mem_iff, and_assoc]

theorem BatchMapper.Content.perm (h : m.Content held) (hperm : held.Perm held') : m.Content held' :=
  fun seq => (h seq).trans ((hperm.filter _).map _)

theorem BatchMapper.Content.insert (h : m.Content held) :
    (m.set batch.seq (m.seqToBatches batch.seq ++ [(batch.batchID, batch)])).Content (batch :: held) := by
  intro seq
  by_cases hs : seq = batch.seq
  · subst hs
    simp only [BatchMapper.set, update_self]
    rw [filter_cons_of_pos (by simp), map_cons]
    exact perm_append_comm.trans ((h _).cons _)
  · simp only [BatchMapper.set, update_of_ne hs]
    rw [filter_cons_of_neg (by simpa using Ne.symm hs)]
    exact h seq

/-- The batch that is removed leaves the content. -/
theorem BatchMapper.Content.remove (h : m.Content (batch :: held)) (hremoved : m.Removed batchId m' (.ok batch)) :
    m'.Content held := by
  obtain ⟨e, hr, -, -, hperm, hothers⟩ | ⟨hr, -⟩ := hremoved
  · cases hr
    obtain ⟨b, -, hseq, rfl⟩ := h.mem_iff.mp (hperm.mem_iff.mpr mem_cons_self)
    intro seq
    have hcontent := h seq
    by_cases hs : seq = batchId.seq
    · subst hs
      rw [filter_cons_of_pos (by simpa using hseq), map_cons] at hcontent
      exact (hperm.symm.trans hcontent).cons_inv
    · rw [filter_cons_of_neg (by simpa [hseq] using Ne.symm hs)] at hcontent
      exact hothers seq hs ▸ hcontent
  · cases hr

end Content

theorem BatchCache.pop_eq_ok {bc bc' : BatchCache} {batchId r} (h : bc.pop batchId = .ok (bc', r)) :
    batchId.partition = bc.shardBatchMapper.partition ∧ bc'.shardBatchMapper.partition = bc.shardBatchMapper.partition ∧
      bc.shardBatchMapper.Removed batchId bc'.shardBatchMapper r ∧
      bc'.sizeBytes = bc.sizeBytes - (r.toOption.map batchSizeBytes).getD 0 := by
  simp only [BatchCache.pop, bind_eq_ok] at h
  obtain ⟨⟨mapper, r'⟩, hremove, hret⟩ := h
  obtain ⟨hpartition, hremoved⟩ := remove_eq_ok hremove
  refine ⟨hpartition, ?_⟩
  obtain ⟨e, rfl, -, hsame, -⟩ | ⟨rfl, rfl, -⟩ := id hremoved
  · cases hret
    exact ⟨hsame, hremoved, rfl⟩
  · cases hret
    exact ⟨rfl, hremoved, (sub_zero _).symm⟩

/-- The cache has a batch with the sequence and the digest of the id. -/
def BatchCache.Has (bc : BatchCache) (batchId : BatchIDKey) : Prop :=
  ∃ e ∈ bc.shardBatchMapper.seqToBatches batchId.seq, e.1.digest = batchId.digest

/-- `Pop` returns, for an id of the partition. -/
theorem BatchCache.exists_pop {bc : BatchCache} {batchId}
    (h : batchId.partition = bc.shardBatchMapper.partition) : ∃ bc' r, bc.pop batchId = .ok (bc', r) := by
  have hassert := assertShardAndParty_eq_ok (u := ()).mpr h
  simp only [BatchCache.pop, remove, hassert, ok_bind]
  split <;> exact ⟨_, _, rfl⟩

namespace PartitionPrefetchIndex

/-- **The cache and the heap are in step**: the heap is one of batches of the partition, by their sequences; the cache
has the same batches, and their bytes are counted and are at most the maximum. -/
structure InStep (pi : PartitionPrefetchIndex) : Prop where
  queue : pi.sequenceHeap.Queue pi.partition
  partition_eq : pi.cache.shardBatchMapper.partition = pi.partition
  content : pi.cache.shardBatchMapper.Content pi.sequenceHeap.batches
  sizeBytes : pi.cache.sizeBytes = (pi.sequenceHeap.batches.map batchSizeBytes).sum
  bound : pi.cache.sizeBytes ≤ pi.maxSizeBytes

variable {pi pi' : PartitionPrefetchIndex} {batchId : BatchIDKey} {batch : FabricBatch}

/-- What the cache has for an id, the heap has. -/
theorem InStep.exists_item (h : pi.InStep) (hpartition : batchId.partition = pi.cache.shardBatchMapper.partition) {e}
    (he : e ∈ pi.cache.shardBatchMapper.seqToBatches batchId.seq) (hdigest : e.1.digest = batchId.digest) :
    ∃ item ∈ pi.sequenceHeap.data, item.batch = e.2 ∧ item.batch.batchID = batchId := by
  obtain ⟨b, hb, hseq, rfl⟩ := h.content.mem_iff.mp he
  obtain ⟨item, hitem, rfl⟩ := mem_map.mp hb
  have hitem := Array.mem_toList_iff.mp hitem
  obtain ⟨i, hi⟩ := Array.mem_iff_getElem?.mp hitem
  have hpart := (h.queue.indexed.of_partition hi).trans (h.partition_eq.symm.trans hpartition.symm)
  exact ⟨item, hitem, rfl, (BatchIDKey.eq_iff_of_partition hpart).mpr ⟨hseq, hdigest⟩⟩

/-- **The batch that leaves the cache leaves the heap.** -/
theorem InStep.pop (h : pi.InStep) {cache : BatchCache} {heap : BatchHeap Unit} {item}
    (hpop : pi.cache.pop batchId = .ok (cache, .ok batch)) (hid : item.batch.batchID = batchId)
    (hqueue : heap.Queue pi.partition) (hperm : pi.sequenceHeap.data.toList.Perm (item :: heap.data.toList)) :
    batch = item.batch ∧ InStep { pi with cache, sequenceHeap := heap } := by
  obtain ⟨hpartition, hsame, hremoved, hsize⟩ := pop_eq_ok hpop
  have hmem : item ∈ pi.sequenceHeap.data.toList := hperm.mem_iff.mpr mem_cons_self
  -- the heap has one batch with this id
  obtain rfl : batch = item.batch := by
    obtain ⟨e, hr, hdigest, -, hperm', -⟩ | ⟨hr, -⟩ := hremoved
    · cases hr
      obtain ⟨x, hx, hbatch, heq⟩ := h.exists_item hpartition (hperm'.mem_iff.mpr mem_cons_self) hdigest
      rw [← hbatch, h.queue.indexed.eq_of_batchID hx (Array.mem_toList_iff.mp hmem) (heq.trans hid.symm)]
    · cases hr
  have hperm := hperm.map BatchHeapItem.batch
  have hsum := (hperm.map batchSizeBytes).sum_eq
  have hbytes := h.sizeBytes
  have hbound := h.bound
  rw [map_cons, map_cons, sum_cons] at hsum
  simp only [Except.toOption, Option.map_some, Option.getD_some, BatchHeap.batches] at hsize hbytes
  refine ⟨rfl, hqueue, hsame.trans h.partition_eq, (h.content.perm hperm).remove hremoved, ?_, ?_⟩
  · show cache.sizeBytes = (((heap.data.toList.map BatchHeapItem.batch).map batchSizeBytes).sum : Nat)
    omega
  · show cache.sizeBytes ≤ pi.maxSizeBytes
    omega

/-- **An eviction takes out a batch of the least sequence**, and nothing else. -/
def Evicts (pi pi' : PartitionPrefetchIndex) : Prop :=
  ∃ oldest, pi.sequenceHeap.batches.Perm (oldest :: pi'.sequenceHeap.batches) ∧
    (∀ batch ∈ pi.sequenceHeap.batches, oldest.seq ≤ batch.seq) ∧ pi'.InStep ∧ pi'.forcedPutCache = pi.forcedPutCache

theorem InStep.evictOldestBatch (h : pi.InStep) :
    pi.sequenceHeap.batches = [] ∧ pi.evictOldestBatch = .ok (pi, .error .nothingToEvict) ∨
      ∃ pi', pi.evictOldestBatch = .ok (pi', .ok ()) ∧ pi.Evicts pi' := by
  obtain ⟨hempty, hpop⟩ | ⟨heap, oldest, hpop, hqueue, hperm, hleast⟩ := h.queue.takesLeast
  · refine .inl ⟨by rw [BatchHeap.batches, hempty]; rfl, ?_⟩
    rw [PartitionPrefetchIndex.evictOldestBatch, hpop]
    rfl
  have hmem : oldest ∈ pi.sequenceHeap.data.toList := hperm.mem_iff.mpr mem_cons_self
  obtain ⟨i, hi⟩ := Array.mem_iff_getElem?.mp (Array.mem_toList_iff.mp hmem)
  obtain ⟨cache, r, hcache⟩ := exists_pop ((h.queue.indexed.of_partition hi).trans h.partition_eq.symm)
  cases r with
  | ok evicted =>
    obtain ⟨rfl, hstep⟩ := h.pop hcache rfl hqueue hperm
    refine .inr ⟨{ pi with cache, sequenceHeap := heap }, ?_, oldest.batch, hperm.map _, ?_, hstep, rfl⟩
    · simp only [PartitionPrefetchIndex.evictOldestBatch, hpop, hcache, ok_bind]
      rfl
    · exact forall_mem_map.mpr fun item hitem => hleast item (Array.mem_toList_iff.mp hitem)
  | error e =>
    obtain ⟨-, -, ⟨_, hr, -⟩ | ⟨-, -, hnone⟩, -⟩ := pop_eq_ok hcache
    · cases hr
    · exact absurd rfl (hnone _ (h.content.mem_iff.mpr ⟨_, mem_map_of_mem hmem, rfl, rfl⟩))

/-- **What `removeUnsafe` does** to an index in step: the batch leaves the cache and the heap, or the forced cache. -/
theorem InStep.removeUnsafe (h : pi.InStep) {r} (hremove : pi.removeUnsafe batchId = .ok (pi', r)) : pi'.InStep ∧
      (pi.cache.Has batchId ∧ (∃ batch, r = .ok batch) ∧ pi'.forcedPutCache = pi.forcedPutCache ∨
        ¬ pi.cache.Has batchId ∧ pi.forcedPutCache.pop batchId = .ok (pi'.forcedPutCache, r)) := by
  simp only [PartitionPrefetchIndex.removeUnsafe, bind_eq_ok] at hremove
  obtain ⟨⟨cache, r'⟩, hpop, hret⟩ := hremove
  obtain ⟨hpartition, -, hremoved, -⟩ := pop_eq_ok hpop
  cases r' with
  | ok popped =>
    obtain ⟨e, -, hdigest, -, hentry, -⟩ | ⟨hr, -⟩ := hremoved
    swap
    · cases hr
    have he := hentry.mem_iff.mpr mem_cons_self
    obtain ⟨hnone, -⟩ | ⟨heap, item, hheap, hqueue, hperm, hid⟩ := h.queue.takesOut (hpartition.trans h.partition_eq)
    · obtain ⟨item, hitem, -, hid⟩ := h.exists_item hpartition he hdigest
      exact absurd hid (hnone item hitem)
    · simp only [hheap, ok_bind] at hret
      cases hret
      exact ⟨(h.pop hpop hid hqueue hperm).2, .inl ⟨⟨e, he, hdigest⟩, ⟨popped, rfl⟩, rfl⟩⟩
  | error e =>
    obtain ⟨_, hr, -⟩ | ⟨hr, -, hnone⟩ := hremoved
    · cases hr
    · cases hr
      simp only [bind_eq_ok] at hret
      obtain ⟨⟨forcedPutCache, r''⟩, hforced, hret⟩ := hret
      cases hret
      exact ⟨⟨h.queue, h.partition_eq, h.content, h.sizeBytes, h.bound⟩,
        .inr ⟨fun h => h.elim fun e he => hnone e he.1 he.2, hforced⟩⟩

/-- **A batch for which there is room comes to both.** -/
theorem InStep.saveOrdinaryBatch (h : pi.InStep) (hroom : pi.full batch = false) {r}
    (hsave : pi.saveOrdinaryBatch batch = .ok (pi', r)) : pi'.InStep ∧ pi'.forcedPutCache = pi.forcedPutCache := by
  simp only [PartitionPrefetchIndex.saveOrdinaryBatch, BatchCache.put, bind_eq_ok] at hsave
  obtain ⟨⟨cache, r'⟩, ⟨⟨mapper, inserted⟩, hinsert, hput⟩, hret⟩ := hsave
  obtain ⟨hpartition, ⟨rfl, rfl⟩ | ⟨rfl, rfl, hnone⟩⟩ := insert_eq_ok hinsert
  · cases hput
    cases hret
    exact ⟨h, rfl⟩
  · cases hput
    obtain ⟨⟨item, hitem, hid⟩, -⟩ | ⟨-, heap, hpush, hqueue, hperm⟩ :=
      h.queue.adds (x := ⟨batch, ()⟩) (hpartition.trans h.partition_eq)
    · obtain ⟨-, -, hseq, hdigest⟩ := BatchIDKey.mk.inj hid
      have hmem := mem_map_of_mem (f := BatchHeapItem.batch) (Array.mem_toList_iff.mpr hitem)
      exact absurd hdigest (hnone _ (h.content.mem_iff.mpr ⟨_, hmem, hseq, rfl⟩))
    simp only [hpush, ok_bind] at hret
    cases hret
    have hperm := hperm.map BatchHeapItem.batch
    have hfits : pi.cache.sizeBytes + batchSizeBytes batch ≤ pi.maxSizeBytes := by
      simpa [full] using hroom
    refine ⟨⟨hqueue, h.partition_eq, h.content.insert.perm hperm.symm, ?_, hfits⟩, rfl⟩
    show pi.cache.sizeBytes + batchSizeBytes batch = (((heap.data.toList.map _).map batchSizeBytes).sum : Nat)
    rw [(hperm.map _).sum_eq, h.sizeBytes, map_cons, map_cons, sum_cons, Nat.cast_add]
    exact Int.add_comm ..

end PartitionPrefetchIndex

/-! ## Runs -/

section Removed

variable {V : Type} {m m' : BatchMapper V} {batchId : BatchIDKey} {r : Except IndexErr V} {e : BatchIDKey × V}
  {seq : BatchSequence}

section

variable (h : m.Removed batchId m' r)
include h

/-- At most the entry that is returned leaves its sequence. -/
theorem BatchMapper.Removed.perm (seq : BatchSequence) :
    ∃ out, (m.seqToBatches seq).Perm (out ++ m'.seqToBatches seq) ∧
      ∀ e ∈ out, r = .ok e.2 ∧ seq = batchId.seq ∧ e.1.digest = batchId.digest := by
  obtain ⟨e, rfl, hdigest, -, hperm, hothers⟩ | ⟨-, rfl, -⟩ := h
  · by_cases hs : seq = batchId.seq
    · subst hs
      exact ⟨[e], hperm, forall_mem_singleton.mpr ⟨rfl, rfl, hdigest⟩⟩
    · exact ⟨[], hothers seq hs ▸ .refl _, nofun⟩
  · exact ⟨[], .refl _, nofun⟩

theorem BatchMapper.Removed.mem_or (he : e ∈ m.seqToBatches seq) :
    e ∈ m'.seqToBatches seq ∨ r = .ok e.2 ∧ seq = batchId.seq ∧ e.1.digest = batchId.digest := by
  obtain ⟨out, hperm, hout⟩ := h.perm seq
  exact (mem_append.mp (hperm.mem_iff.mp he)).symm.imp_right (hout e)

theorem BatchMapper.Removed.subset (he : e ∈ m'.seqToBatches seq) : e ∈ m.seqToBatches seq := by
  obtain ⟨out, hperm, -⟩ := h.perm seq
  exact hperm.mem_iff.mpr (mem_append_right _ he)

theorem BatchMapper.Removed.distinct (hm : m.Distinct) : m'.Distinct := by
  intro seq
  obtain ⟨out, hperm, -⟩ := h.perm seq
  exact ((hperm.map _).nodup_iff.mp (hm seq)).sublist ((sublist_append_right out _).map _)

end

end Removed

namespace Partition

def Forced (p : Partition) (batch : FabricBatch) : Prop :=
  (batch.batchID, batch) ∈ p.index.forcedPutCache.shardBatchMapper.seqToBatches batch.seq

/-- What holds in every run: the cache and the heap are in step, and both caches file every batch under its id, the
forced one only one for a digest. -/
structure Inv (p : Partition) : Prop where
  inStep : p.index.InStep
  holds : p.index.Holds fun _ => True
  distinct : p.index.forcedPutCache.shardBatchMapper.Distinct

variable {p p' : Partition} {a : Action} {C : Partition → Action → Prop} {partition : ShardPrimary} {maxSizeBytes : Nat}
  {batch : FabricBatch} {batchId : BatchIDKey}

/-- **What a step does to the forced cache**, and to what was returned. -/
inductive Effect (p : Partition) : Action → Partition → Prop
  | same {a : Action} {p'} (heq : p'.index.forcedPutCache.shardBatchMapper = p.index.forcedPutCache.shardBatchMapper)
      (hpopped : ∃ new, p'.popped = new ++ p.popped)
      (hcache : ∀ call, a = .popFound call → p.index.cache.Has call.batchId) : Effect p a p'
  | put {batch : FabricBatch} {p'} (hstays : ∀ b, p.Forced b → p'.Forced b)
      (hnew : ∀ b, p'.Forced b → p.Forced b ∨ b = batch) (hpopped : p'.popped = p.popped) :
      Effect p (.putForce batch) p'
  | expired {batchId : BatchIDKey} {p' r} (hcache : ¬ p.index.cache.Has batchId)
      (hremoved : p.index.forcedPutCache.shardBatchMapper.Removed batchId p'.index.forcedPutCache.shardBatchMapper r)
      (hpopped : p'.popped = p.popped) : Effect p (.expire batchId) p'
  | returned {call batch p'} (hremoved : p.index.forcedPutCache.shardBatchMapper.Removed call.batchId
        p'.index.forcedPutCache.shardBatchMapper (.ok batch))
      (hpopped : p'.popped = batch :: p.popped) : Effect p (.popFound call) p'

theorem mem_put {m : BatchMapper FabricBatch} {e seq} :
    e ∈ (m.set batchId.seq (m.seqToBatches batchId.seq ++ [(batchId, batch)])).seqToBatches seq ↔
      e ∈ m.seqToBatches seq ∨ seq = batchId.seq ∧ e = (batchId, batch) := by
  by_cases hs : seq = batchId.seq
  · subst hs
    simp [BatchMapper.set]
  · simp [BatchMapper.set, hs]

theorem Inv.removeUnsafe (h : p.Inv) {index} {r}
    (hremove : p.index.removeUnsafe batchId = .ok (index, r)) : index.InStep ∧ (index.Holds fun _ => True) ∧
      index.forcedPutCache.shardBatchMapper.Distinct ∧
      (p.index.cache.Has batchId ∧ index.forcedPutCache = p.index.forcedPutCache ∨ ¬ p.index.cache.Has batchId ∧
        p.index.forcedPutCache.shardBatchMapper.Removed batchId index.forcedPutCache.shardBatchMapper r) := by
  obtain ⟨hinStep, heffect⟩ := h.inStep.removeUnsafe hremove
  refine ⟨hinStep, (removeUnsafe_spec hremove).1.2 h.holds, ?_⟩
  obtain ⟨hcached, -, heq⟩ | ⟨hnone, hpop⟩ := heffect
  · exact ⟨heq ▸ h.distinct, .inl ⟨hcached, heq⟩⟩
  · obtain ⟨-, -, hremoved, -⟩ := pop_eq_ok hpop
    exact ⟨hremoved.distinct h.distinct, .inr ⟨hnone, hremoved⟩⟩

theorem popRound_eq_ok {pi pi' : PartitionPrefetchIndex} {r}
    (h : pi.popRound batchId = .ok (pi', r)) (hr : r ≠ .error .operationCancelled) :
    pi.removeUnsafe batchId = .ok (pi', r) := by
  unfold popRound at h
  split at h
  · cases h
    exact absurd rfl hr
  · exact h

/-- **Every step** keeps what holds in every run. -/
theorem Step.effect (h : Step p a p') (hp : p.Inv) : p'.Inv ∧ Effect p a p' := by
  obtain ⟨hs, hh, hd⟩ := hp
  cases h with
  | putEnter hput =>
    have hleaves := putEnter_leaves (P := fun _ => True) hput
    obtain ⟨seq, rfl⟩ := putEnter_eq_ok hput
    exact ⟨⟨⟨hs.queue, hs.partition_eq, hs.content, hs.sizeBytes, hs.bound⟩, hleaves.2 hh, hd⟩,
      .same rfl ⟨[], rfl⟩ (by rintro _ ⟨⟩)⟩
  | putEvict _ _ _ hevict =>
    have hleaves := evictOldestBatch_leaves (P := fun _ => True) hevict
    obtain ⟨-, heq⟩ | ⟨index, heq, -, -, -, hinStep, hforced⟩ := hs.evictOldestBatch
    · cases heq.symm.trans hevict
      exact ⟨⟨hs, hh, hd⟩, .same rfl ⟨[], rfl⟩ (by rintro _ ⟨⟩)⟩
    · cases heq.symm.trans hevict
      exact ⟨⟨hinStep, hleaves.2 hh, hforced ▸ hd⟩, .same (congrArg _ hforced) ⟨[], rfl⟩ (by rintro _ ⟨⟩)⟩
  | putSave hroom hsave =>
    obtain ⟨hinStep, hforced⟩ := hs.saveOrdinaryBatch hroom hsave
    exact ⟨⟨hinStep, (saveOrdinaryBatch_leaves trivial hsave).2 hh, hforced ▸ hd⟩,
      .same (congrArg _ hforced) ⟨[], rfl⟩ (by rintro _ ⟨⟩)⟩
  | expire _ hremove =>
    obtain ⟨hinStep, hholds, hdistinct, ⟨-, heq⟩ | ⟨hnone, hremoved⟩⟩ := Inv.removeUnsafe ⟨hs, hh, hd⟩ hremove
    · exact ⟨⟨hinStep, hholds, hdistinct⟩, .same (congrArg _ heq) ⟨[], rfl⟩ (by rintro _ ⟨⟩)⟩
    · exact ⟨⟨hinStep, hholds, hdistinct⟩, .expired hnone hremoved rfl⟩
  | @putForce batch _ _ _ _ _ hput =>
    have hleaves := putForce_leaves (P := fun _ => True) trivial hput
    obtain rfl | ⟨forcedPutCache, hcache, rfl⟩ := putForce_eq_ok hput
    · exact ⟨⟨hs, hh, hd⟩, .same rfl ⟨[], rfl⟩ (by rintro _ ⟨⟩)⟩
    · simp only [BatchCache.put, bind_eq_ok] at hcache
      obtain ⟨⟨mapper, inserted⟩, hinsert, hret⟩ := hcache
      obtain ⟨-, ⟨rfl, rfl⟩ | ⟨rfl, rfl, hnone⟩⟩ := insert_eq_ok hinsert
      · cases hret
        exact ⟨⟨hs, hh, hd⟩, .same rfl ⟨[], rfl⟩ (by rintro _ ⟨⟩)⟩
      · cases hret
        refine ⟨⟨⟨hs.queue, hs.partition_eq, hs.content, hs.sizeBytes, hs.bound⟩, hleaves.2 hh, fun seq => ?_⟩,
          .put (fun b hb => mem_put.mpr (.inl hb)) (fun b hb => ?_) rfl⟩
        · by_cases hseq : seq = batch.seq
          · subst hseq
            simp only [BatchMapper.set, FabricBatch.batchID, update_self, map_append, nodup_append]
            refine ⟨hd _, nodup_singleton _, ?_⟩
            rintro _ hold _ hnew rfl
            obtain ⟨e, he, heq⟩ := mem_map.mp hold
            exact hnone e he (heq.trans (mem_singleton.mp hnew))
          · simp only [BatchMapper.set, FabricBatch.batchID, update_of_ne hseq]
            exact hd seq
        · exact (mem_put.mp hb).imp_right fun h => congrArg Prod.snd h.2
  | popEnter hpop =>
    have hleaves := popEnter_leaves (P := fun _ => True) hpop
    simp only [PartitionPrefetchIndex.popEnter, bind_eq_ok] at hpop
    obtain ⟨-, -, hret⟩ := hpop
    cases hret
    exact ⟨⟨⟨hs.queue, hs.partition_eq, hs.content, hs.sizeBytes, hs.bound⟩, hleaves.2 hh, hd⟩,
      .same rfl ⟨[], rfl⟩ (by rintro _ ⟨⟩)⟩
  | popFound _ _ hpop =>
    obtain ⟨hinStep, hholds, hdistinct, ⟨hcached, heq⟩ | ⟨hnone, hremoved⟩⟩ :=
      Inv.removeUnsafe ⟨hs, hh, hd⟩ (popRound_eq_ok hpop (by rintro ⟨⟩))
    · refine ⟨⟨hinStep, hholds, hdistinct⟩, .same (congrArg _ heq) ⟨[_], rfl⟩ fun call hcall => ?_⟩
      cases hcall
      exact hcached
    · exact ⟨⟨hinStep, hholds, hdistinct⟩, .returned hremoved rfl⟩
  | popWait _ _ hpop =>
    obtain ⟨hinStep, hholds, hdistinct, hcase⟩ := Inv.removeUnsafe ⟨hs, hh, hd⟩ (popRound_eq_ok hpop (by rintro ⟨⟩))
    refine ⟨⟨hinStep, hholds, hdistinct⟩, .same ?_ ⟨[], rfl⟩ (by rintro _ ⟨⟩)⟩
    obtain ⟨-, heq⟩ | ⟨-, ⟨_, hr, -⟩ | ⟨-, heq, -⟩⟩ := hcase
    · exact congrArg _ heq
    · cases hr
    · exact heq
  | monitorFires | monitorSends => exact ⟨⟨hs, hh, hd⟩, .same rfl ⟨[], rfl⟩ (by rintro _ ⟨⟩)⟩

theorem inv_start : (start partition maxSizeBytes).Inv where
  inStep := ⟨.new partition, rfl, fun _ => .nil, rfl, Int.natCast_nonneg _⟩
  holds := holds_new partition maxSizeBytes _
  distinct _ := nodup_nil

theorem RunWhen.mono_right {C'} (h : RunWhen C p p') (hC : ∀ p a, C p a → C' p a) : RunWhen C' p p' :=
  Relation.ReflTransGen.mono (fun p _ hstep => Exists.imp (fun a => And.imp_left (hC p a)) hstep) _ _ h

theorem RunWhen.inv (h : RunWhen C (start partition maxSizeBytes) p) : p.Inv := by
  induction h with
  | refl => exact inv_start
  | tail _ hlast ih =>
    obtain ⟨a, -, hstep⟩ := hlast
    exact (hstep.effect ih).1

/-- **The cache and the heap stay in step**: after every run they hold the same batches, the bytes of which are counted
and are within the maximum; a `Put` that has to make room evicts a batch of the least sequence, and only that; and what
`PopOrWait` returns has the id it was asked for. -/
theorem in_step_with_heap (h : Run (start partition maxSizeBytes) p) : p.index.InStep ∧
    (∀ batch, batchSizeBytes batch ≤ p.index.maxSizeBytes → p.index.full batch = true →
      ∃ index, p.index.evictOldestBatch = .ok (index, .ok ()) ∧ p.index.Evicts index) ∧
    ∀ batchId index batch, p.index.popRound batchId = .ok (index, .ok batch) → batch.batchID = batchId := by
  have hinv := RunWhen.inv h
  refine ⟨hinv.inStep, fun batch hsize hfull => hinv.inStep.evictOldestBatch.resolve_left fun hempty => ?_,
    fun batchId index batch hpop => ((popRound_spec hpop).2 hinv.holds batch rfl).1⟩
  -- an empty cache has room for a batch that has passed the check of its size
  have hbytes := hinv.inStep.sizeBytes
  rw [hempty.1] at hbytes
  simp only [full, decide_eq_true_eq, hbytes] at hfull
  simp only [map_nil, sum_nil] at hfull
  omega

/-- The batch of party 1 in shard 1 with one request. -/
def oneRequest (seq : BatchSequence) : FabricBatch := newFabricBatchFromRequests 1 1 seq [[7]] [7] 0 [] []

/-- There is room for two batches, which come in the wrong order; the older one is evicted for the third. -/
theorem oldest_evicted : ∃ p, Run (start ⟨1, 1⟩ 2) p ∧ p.index.sequenceHeap.batches = [oneRequest 1, oneRequest 2] ∧
    p.index.full (oneRequest 3) = true ∧ p.index.InStep ∧
    ∃ index, p.index.evictOldestBatch = .ok (index, .ok ()) ∧ p.index.Evicts index := by
  have h₁ : Run (start ⟨1, 1⟩ 2) _ := .single ⟨_, trivial, @Step.putEnter _ (oneRequest 2) _ _ rfl⟩
  have h₂ := h₁.tail ⟨_, trivial, @Step.putSave _ (oneRequest 2) _ _ rfl rfl⟩
  have h₃ := h₂.tail ⟨_, trivial, @Step.putEnter _ (oneRequest 1) _ _ rfl⟩
  have h₄ := h₃.tail ⟨_, trivial, @Step.putSave _ (oneRequest 1) _ _ rfl rfl⟩
  obtain ⟨hinStep, hevicts, -⟩ := in_step_with_heap h₄
  exact ⟨_, h₄, rfl, rfl, hinStep, hevicts (oneRequest 3) (Nat.le_succ 1) rfl⟩

/-! ## What was put by force -/

/-- A handler runs for an id that the cache has, or that the forced cache does not have. -/
def Harmless (p : Partition) : Action → Prop
  | .expire batchId => p.index.cache.Has batchId ∨ ¬ p.index.forcedPutCache.Has batchId
  | _ => True

/-- A call for the id is in progress. -/
def Awaited (p : Partition) (batchId : BatchIDKey) : Prop :=
  ∃ call ∈ p.calls, call.batchId = batchId ∧ call.returned = false

/-- A batch is put by force while a call for it is in progress, and a call that returns the batch from the cache leaves
no second one in the forced cache. -/
def Timely (p : Partition) : Action → Prop
  | .putForce batch => p.Awaited batch.batchID
  | .popFound call => p.index.cache.Has call.batchId → ¬ p.index.forcedPutCache.Has call.batchId
  | _ => True

theorem Effect.popped (h : Effect p a p') : ∃ new, p'.popped = new ++ p.popped := by
  cases h with
  | same _ hpopped => exact hpopped
  | put _ _ hpopped | expired _ _ hpopped => exact ⟨[], hpopped⟩
  | returned _ hpopped => exact ⟨[_], hpopped⟩

theorem Effect.stays (h : Effect p a p') (hC : p.Harmless a) (hforced : p.Forced batch) :
    ∃ new, p'.popped = new ++ p.popped ∧ (p'.Forced batch ∨ batch ∈ new) := by
  cases h with
  | same heq hpopped =>
    obtain ⟨new, hnew⟩ := hpopped
    exact ⟨new, hnew, .inl (by rwa [Forced, heq])⟩
  | put hstays _ hpopped => exact ⟨[], hpopped, .inl (hstays batch hforced)⟩
  | expired hcache hremoved hpopped =>
    refine ⟨[], hpopped, .inl ((hremoved.mem_or hforced).resolve_right fun ⟨_, hseq, hdigest⟩ => ?_)⟩
    exact hC.resolve_left hcache ⟨_, hseq ▸ hforced, hdigest⟩
  | returned hremoved hpopped =>
    refine ⟨[_], hpopped, (hremoved.mem_or hforced).imp_right fun ⟨hr, _⟩ => ?_⟩
    cases hr
    exact mem_singleton_self _

theorem Inv.finds (h : p.Inv) (hforced : p.Forced batch) :
    ∃ index found, p.index.removeUnsafe batch.batchID = .ok (index, .ok found) := by
  have hpartition := (h.holds.forcedPutCache.keeps _ _ hforced).2.1
  have hsame := hpartition.trans (h.holds.forcedPutCache.partition_eq.trans h.holds.cache.partition_eq.symm)
  obtain ⟨cache, r, hpop⟩ := exists_pop hsame
  obtain ⟨forced, r', hpop'⟩ := exists_pop hpartition
  have hremove : ∃ index r, p.index.removeUnsafe batch.batchID = .ok (index, r) := by
    simp only [PartitionPrefetchIndex.removeUnsafe, hpop, hpop', ok_bind]
    split
    · exact ⟨_, _, rfl⟩
    · exact ⟨_, _, rfl⟩
    · obtain ⟨-, heap⟩ | ⟨_, _, heap, -⟩ :=
        h.inStep.queue.takesOut (hsame.trans h.holds.cache.partition_eq)
      all_goals exact ⟨_, _, by rw [heap]; rfl⟩
  obtain ⟨index, r, hremove⟩ := hremove
  obtain ⟨-, ⟨-, ⟨found, rfl⟩, -⟩ | ⟨-, hforcedPop⟩⟩ := h.inStep.removeUnsafe hremove
  · exact ⟨index, found, hremove⟩
  · obtain ⟨-, -, ⟨e, rfl, -⟩ | ⟨-, -, hnone⟩, -⟩ := pop_eq_ok hforcedPop
    · exact ⟨index, e.2, hremove⟩
    · exact absurd rfl (hnone _ hforced)

/-- **What was put by force stays until it is returned**, in every run whose handlers are harmless, and as long as it
is there a call for its id finds it. -/
theorem kept_until_returned (hp : RunWhen Harmless (start partition maxSizeBytes) p) (hrun : RunWhen Harmless p p')
    (hforced : p.Forced batch) : (∃ new, p'.popped = new ++ p.popped ∧ (p'.Forced batch ∨ batch ∈ new)) ∧
      (p'.Forced batch → ∃ index found, p'.index.removeUnsafe batch.batchID = .ok (index, .ok found)) := by
  refine ⟨?_, (RunWhen.inv (hp.trans hrun)).finds⟩
  induction hrun with
  | refl => exact ⟨[], rfl, .inl hforced⟩
  | @tail p₁ p₂ hbefore hlast ih =>
    obtain ⟨a, hC, hstep⟩ := hlast
    obtain ⟨new, hnew, hkept | hmem⟩ := ih
    · obtain ⟨new', hnew', hkept'⟩ := (hstep.effect (RunWhen.inv (hp.trans hbefore))).2.stays hC hkept
      exact ⟨new' ++ new, by rw [hnew', hnew, append_assoc], hkept'.imp_right (mem_append_left _)⟩
    · obtain ⟨new', hnew'⟩ := (hstep.effect (RunWhen.inv (hp.trans hbefore))).2.popped
      exact ⟨new' ++ new, by rw [hnew', hnew, append_assoc], .inr (mem_append_right _ hmem)⟩

/-- A call asks for the first batch after the second one came; the answer is put by force, and returned. -/
theorem asked_and_answered : ∃ p p', RunWhen (fun p a => p.Harmless a ∧ p.Timely a) (start ⟨1, 1⟩ 1) p ∧
    p.Forced (oneRequest 1) ∧ RunWhen (fun p a => p.Harmless a ∧ p.Timely a) p p' ∧ p'.popped = [oneRequest 1] ∧
    ∀ call ∈ p'.calls, call.returned = true := by
  have h₁ : RunWhen (fun p a => p.Harmless a ∧ p.Timely a) (start ⟨1, 1⟩ 1) _ :=
    .single ⟨.put, ⟨trivial, trivial⟩, @Step.putEnter _ (oneRequest 2) _ _ rfl⟩
  have h₂ := h₁.tail ⟨.put, ⟨trivial, trivial⟩, @Step.putSave _ (oneRequest 2) _ _ rfl rfl⟩
  have h₃ := h₂.tail ⟨.popEnter, ⟨trivial, trivial⟩, @Step.popEnter _ (oneRequest 1).batchID _ rfl⟩
  have h₄ := h₃.tail ⟨.popWait, ⟨trivial, trivial⟩, @Step.popWait _ [] [] _ _ rfl rfl rfl⟩
  have h₅ := h₄.tail ⟨.putForce (oneRequest 1), ⟨trivial, _, mem_cons_self, rfl, rfl⟩,
    @Step.putForce _ (oneRequest 1) [] [] _ _ rfl rfl⟩
  refine ⟨_, _, h₅, mem_singleton_self _, .single ⟨.popFound _, ⟨trivial, fun h => ?_⟩,
    @Step.popFound _ [] [] _ _ _ rfl rfl rfl⟩, rfl, forall_mem_singleton.mpr rfl⟩
  exact absurd h.choose_spec.1 not_mem_nil

theorem answer_kept : ∃ p p', p.Forced (oneRequest 1) ∧ RunWhen Harmless p p' ∧
    ∃ new, p'.popped = new ++ p.popped ∧ (p'.Forced (oneRequest 1) ∨ oneRequest 1 ∈ new) := by
  obtain ⟨p, p', hp, hforced, hrun, -, -⟩ := asked_and_answered
  have hharmless := hrun.mono_right fun _ _ => And.left
  exact ⟨p, p', hforced, hharmless, (kept_until_returned (hp.mono_right fun _ _ => And.left) hharmless hforced).1⟩

/-- There is room for one batch. The first one is evicted for the second, asked for, and put by force; then the handler
of its timer runs, which had fired before the eviction. -/
theorem thrown_away : ∃ p p', Run (start ⟨1, 1⟩ 1) p ∧ p.Forced (oneRequest 1) ∧
    p.calls.map (fun call => (call.batchId, call.requested, call.returned)) =
      [((oneRequest 2).batchID, false, false), ((oneRequest 1).batchID, true, false)] ∧
    Step p (.expire (oneRequest 1).batchID) p' ∧ p'.popped = [] ∧
    p'.index.forcedPutCache.shardBatchMapper.seqToBatches 1 = [] := by
  have h₁ : Run (start ⟨1, 1⟩ 1) _ := .single ⟨_, trivial, @Step.putEnter _ (oneRequest 1) _ _ rfl⟩
  have h₂ := h₁.tail ⟨_, trivial, @Step.putSave _ (oneRequest 1) _ _ rfl rfl⟩
  have h₃ := h₂.tail ⟨_, trivial, @Step.popEnter _ (oneRequest 2).batchID _ rfl⟩
  have h₄ := h₃.tail ⟨_, trivial, @Step.putEnter _ (oneRequest 2) _ _ rfl⟩
  have h₅ := h₄.tail ⟨_, trivial, @Step.putEvict _ (oneRequest 2) _ _ le_rfl rfl le_rfl rfl⟩
  have h₆ := h₅.tail ⟨_, trivial, @Step.putSave _ (oneRequest 2) _ _ rfl rfl⟩
  have h₇ := h₆.tail ⟨_, trivial, @Step.popEnter _ (oneRequest 1).batchID _ rfl⟩
  have h₈ := h₇.tail ⟨_, trivial, @Step.popWait _ [.new (oneRequest 2).batchID] [] _ _ rfl rfl rfl⟩
  have h₉ := h₈.tail ⟨_, trivial, @Step.putForce _ (oneRequest 1) [] [] _ _ rfl rfl⟩
  exact ⟨_, _, h₉, mem_singleton_self _, rfl, .expire (mem_cons_of_mem _ mem_cons_self) rfl, rfl, rfl⟩

/-! ## What is waited for -/

theorem awaited_replace {before after call call'}
    (hcalls : p.calls = before ++ call :: after) (hcalls' : p'.calls = before ++ call' :: after)
    (hid : call'.batchId = call.batchId) (h : p.Awaited batchId) :
    p'.Awaited batchId ∨ call.batchId = batchId ∧ call'.returned ≠ call.returned := by
  obtain ⟨c, hc, hcid, hat⟩ := h
  rw [hcalls, mem_append, mem_cons] at hc
  rw [Awaited, hcalls']
  obtain hc | rfl | hc := hc
  · exact .inl ⟨c, by simp [hc], hcid, hat⟩
  · by_cases hsame : call'.returned = c.returned
    · exact .inl ⟨call', by simp, hid.trans hcid, hsame.trans hat⟩
    · exact .inr ⟨hcid, hsame⟩
  · exact .inl ⟨c, by simp [hc], hcid, hat⟩

theorem Step.awaited (h : Step p a p') (hawaited : p.Awaited batchId) :
    p'.Awaited batchId ∨ ∃ call, a = .popFound call ∧ call.batchId = batchId := by
  cases h with
  | putEnter | putEvict | putSave | expire | putForce => exact .inl hawaited
  | popEnter =>
    obtain ⟨c, hc, hcid, hat⟩ := hawaited
    exact .inl ⟨c, mem_append_left _ hc, hcid, hat⟩
  | popFound hcalls => exact Or.imp_right (fun h => ⟨_, rfl, h.1⟩) (awaited_replace hcalls rfl rfl hawaited)
  | popWait hcalls | monitorFires hcalls | monitorSends hcalls =>
    exact Or.imp_right (fun h => absurd rfl h.2) (awaited_replace hcalls rfl rfl hawaited)

theorem Step.forced_awaited (h : Step p a p') (hp : p.Inv) (hC : p.Timely a)
    (hawaited : ∀ b, p.Forced b → p.Awaited b.batchID) (hforced : p'.Forced batch) : p'.Awaited batch.batchID := by
  cases (h.effect hp).2 with
  | same heq _ hcache =>
    have hbefore : p.Forced batch := by rwa [Forced, heq] at hforced
    refine (h.awaited (hawaited batch hbefore)).resolve_right ?_
    rintro ⟨call, rfl, hid⟩
    exact hC (hcache call rfl) (hid ▸ ⟨_, hbefore, rfl⟩)
  | put _ hnew =>
    refine (h.awaited ?_).resolve_right nofun
    rcases hnew batch hforced with hbefore | rfl
    · exact hawaited batch hbefore
    · exact hC
  | expired _ hremoved =>
    exact (h.awaited (hawaited batch (hremoved.subset hforced))).resolve_right nofun
  | returned hremoved =>
    refine (h.awaited (hawaited batch (hremoved.subset hforced))).resolve_right ?_
    rintro ⟨call, hcall, hid⟩
    cases hcall
    -- the one with the digest is the one that was returned
    obtain ⟨e, -, hdigest, -, hperm, -⟩ | ⟨hr, -⟩ := hremoved
    · have hnodup := (hperm.map (·.1.digest)).nodup_iff.mp (hp.distinct _)
      rw [hid] at hnodup hdigest
      exact (nodup_cons.mp hnodup).1 (mem_map.mpr ⟨_, hforced, hdigest.symm⟩)
    · cases hr

/-- **The forced cache holds only what is waited for**, in every timely run: without calls in progress it is empty. -/
theorem forced_empty (h : RunWhen Timely (start partition maxSizeBytes) p)
    (hcalls : ∀ call ∈ p.calls, call.returned = true) (seq : BatchSequence) :
    p.index.forcedPutCache.shardBatchMapper.seqToBatches seq = [] := by
  have hawaited : ∀ b, p.Forced b → p.Awaited b.batchID := by
    clear hcalls
    induction h with
    | refl => exact nofun
    | tail hbefore hlast ih =>
      obtain ⟨a, hC, hstep⟩ := hlast
      exact fun b => hstep.forced_awaited (RunWhen.inv hbefore) hC ih
  refine eq_nil_iff_forall_not_mem.mpr fun e he => ?_
  obtain ⟨hseq, -, hid, -⟩ := (RunWhen.inv h).holds.forcedPutCache.keeps seq e he
  have hforced : p.Forced e.2 := by
    rw [Forced, hid, show e.2.seq = seq from (congrArg BatchIDKey.seq hid).trans hseq]
    exact he
  obtain ⟨call, hcall, -, hat⟩ := hawaited e.2 hforced
  rw [hcalls call hcall] at hat
  cases hat

theorem forced_empty_after_answer : ∃ p, RunWhen Timely (start ⟨1, 1⟩ 1) p ∧ p.popped = [oneRequest 1] ∧
    ∀ seq, p.index.forcedPutCache.shardBatchMapper.seqToBatches seq = [] := by
  obtain ⟨p, p', hp, -, hrun, hpopped, hcalls⟩ := asked_and_answered
  have htimely := RunWhen.mono_right (hp.trans hrun) fun _ _ => And.right
  exact ⟨p', htimely, hpopped, forced_empty htimely hcalls⟩

/-- The monitor of a call asks for the batch, the stream brings it, the call returns, and the answer is put by force. -/
theorem left_behind : ∃ p, Run (start ⟨1, 1⟩ 1) p ∧ p.Forced (oneRequest 1) ∧ p.fetches = [] ∧
    p.calls.map (fun call => (call.returned, call.armed, call.fired)) = [(true, 0, 0)] := by
  have h₁ : Run (start ⟨1, 1⟩ 1) _ := .single ⟨_, trivial, @Step.popEnter _ (oneRequest 1).batchID _ rfl⟩
  have h₂ := h₁.tail ⟨_, trivial, @Step.popWait _ [] [] _ _ rfl rfl rfl⟩
  have h₃ := h₂.tail ⟨_, trivial, @Step.monitorFires _ [] [] _ rfl Nat.one_pos⟩
  have h₄ := h₃.tail ⟨_, trivial, @Step.monitorSends _ [] [] _ rfl Nat.one_pos⟩
  have h₅ := h₄.tail ⟨_, trivial, @Step.putEnter _ (oneRequest 1) _ _ rfl⟩
  have h₆ := h₅.tail ⟨_, trivial, @Step.putSave _ (oneRequest 1) _ _ rfl rfl⟩
  have h₇ := h₆.tail ⟨_, trivial, @Step.popFound _ [] [] _ _ _ rfl rfl rfl⟩
  have h₈ := h₇.tail ⟨_, trivial, @Step.putForce _ (oneRequest 1) [] [] _ _ rfl rfl⟩
  exact ⟨_, h₈, mem_singleton_self _, rfl, rfl⟩

/-! ## What a call sends -/

theorem Step.counted (h : Step p a p') (hp : ∀ call ∈ p.calls, call.Counted) : ∀ call ∈ p'.calls, call.Counted := by
  cases h with
  | putEnter | putEvict | putSave | expire | putForce => exact hp
  | popEnter => exact forall_mem_append.mpr ⟨hp, forall_mem_singleton.mpr ⟨rfl, fun _ => rfl, le_rfl⟩⟩
  | popFound hcalls => exact forall_mem_replace (hcalls ▸ hp) PopCall.Counted.leave
  | popWait hcalls => exact forall_mem_replace (hcalls ▸ hp) fun h => h.wait _
  | monitorFires hcalls harmed => exact forall_mem_replace (hcalls ▸ hp) fun h => h.fire harmed
  | monitorSends hcalls hfired => exact forall_mem_replace (hcalls ▸ hp) fun h => h.send hfired

theorem Run.counted (h : Run (start partition maxSizeBytes) p) : ∀ call ∈ p.calls, call.Counted := by
  induction h with
  | refl => exact nofun
  | tail _ hlast ih =>
    obtain ⟨a, -, hstep⟩ := hlast
    exact hstep.counted ih

/-- **When a call sends its id once**: in every run, what it has sent and what its monitors that have fired will send is
one at most iff no monitor has fired with the flag set. So it is if the call has waited once with the flag unset. -/
theorem sent_once_iff (h : Run (start partition maxSizeBytes) p) {call : PopCall} (hcall : call ∈ p.calls) :
    (call.sent + call.fired ≤ 1 ↔ call.late = 0) ∧ (call.unrequested ≤ 1 → call.late = 0) := by
  obtain ⟨hasked, hlate, hrounds⟩ := h.counted call hcall
  have hiff : call.sent + call.fired ≤ 1 ↔ call.late = 0 := by
    refine ⟨fun hle => ?_, fun hzero => ?_⟩
    · cases hflag : call.requested with
      | false => exact hlate hflag
      | true =>
        rw [hflag, Bool.toNat_true] at hasked
        omega
    · have := call.requested.toNat_le
      omega
  exact ⟨hiff, fun honce => hiff.mp (by omega)⟩

/-- A call waits twice with the flag unset. The first of its monitors asks, the answer is put by force, and the return
stops the second. -/
theorem monitored_sent_once : ∃ p call, Run (start ⟨1, 1⟩ 1) p ∧ call ∈ p.calls ∧ call.unrequested = 2 ∧
    call.returned = true ∧ call.late = 0 ∧ call.sent + call.fired ≤ 1 := by
  have h₁ : Run (start ⟨1, 1⟩ 1) _ := .single ⟨_, trivial, @Step.popEnter _ (oneRequest 1).batchID _ rfl⟩
  have h₂ := h₁.tail ⟨_, trivial, @Step.popWait _ [] [] _ _ rfl rfl rfl⟩
  have h₃ := h₂.tail ⟨_, trivial, @Step.popWait _ [] [] _ _ rfl rfl rfl⟩
  have h₄ := h₃.tail ⟨_, trivial, @Step.monitorFires _ [] [] _ rfl Nat.two_pos⟩
  have h₅ := h₄.tail ⟨_, trivial, @Step.monitorSends _ [] [] _ rfl Nat.one_pos⟩
  have h₆ := h₅.tail ⟨_, trivial, @Step.putForce _ (oneRequest 1) [] [] _ _ rfl rfl⟩
  have h₇ := h₆.tail ⟨_, trivial, @Step.popFound _ [] [] _ _ _ rfl rfl rfl⟩
  exact ⟨_, _, h₇, mem_singleton_self _, rfl, rfl, rfl, (sent_once_iff h₇ (mem_singleton_self _)).1.mpr rfl⟩

/-- A call sets its monitor, a later batch wakes it up, it asks, and the monitor asks again. -/
theorem sent_twice : ∃ p, Run (start ⟨1, 1⟩ 1) p ∧
    p.calls.map (fun call => (call.batchId, call.sent)) = [((oneRequest 1).batchID, 2)] := by
  have h₁ : Run (start ⟨1, 1⟩ 1) _ := .single ⟨_, trivial, @Step.popEnter _ (oneRequest 1).batchID _ rfl⟩
  have h₂ := h₁.tail ⟨_, trivial, @Step.popWait _ [] [] _ _ rfl rfl rfl⟩
  have h₃ := h₂.tail ⟨_, trivial, @Step.putEnter _ (oneRequest 2) _ _ rfl⟩
  have h₄ := h₃.tail ⟨_, trivial, @Step.putSave _ (oneRequest 2) _ _ rfl rfl⟩
  have h₅ := h₄.tail ⟨_, trivial, @Step.popWait _ [] [] _ _ rfl rfl rfl⟩
  have h₆ := h₅.tail ⟨_, trivial, @Step.monitorFires _ [] [] _ rfl Nat.one_pos⟩
  have h₇ := h₆.tail ⟨_, trivial, @Step.monitorSends _ [] [] _ rfl Nat.one_pos⟩
  exact ⟨_, h₇, rfl⟩

end Partition

end Arma
