import Arma.Wire

/-!
# The ledgers

Model of the block ledger that consenters and batchers keep (`common/ledger/blkstorage`) and of the batch
ledger that a batcher builds on it (`node/ledger`: `batch_encoding.go`, `batch_ledger_part.go`,
`batch_ledger_array.go`).

* The block ledger takes the next block only: its number is the height, and it refers to the hash of the block
  before it. Both callers panic on a block that it refuses.
* A batch is a block whose orderer metadata holds the shard, the primary and the config sequence.
* A batcher has one chain of batches, a `BatchLedgerPart`, for each primary of its shard. A chain carries what
  all its batches have in common, `FabricBatch.At`; a part also carries that the hash it remembers is the one
  the block ledger asks for. So a batch is refused only because of its number (`BatchLedgerPart.append_ok_iff`).
* What is on the disk when the array is closed, or the process dies, is the array without the remembered
  hashes. Opening it again gives the same batches (`BatchLedgerArray.batches_new`).

A directory of batch ledgers belongs to one shard and one channel. The metrics and the log are left out.
-/

namespace Arma

open Arma.Lib Outcome List Function

/-! ## The block ledger -/

/-- The hash that the next block of the ledger has to refer to. -/
def ledgerHash (W : Wire) (storage : List Block) : Bytes :=
  match storage.getLast? with
  | some block => (block.header.map W.blockHeaderHash).getD []
  | none => []

/-- `blockfileMgr.addBlock`, with the panic that `ConsensusLedger.Append` and `BatchLedgerPart.Append` make of
its error. -/
def appendBlock (W : Wire) (storage : List Block) (block : Block) : Outcome (List Block) := do
  let header ← deref block.header
  if header.number ≠ storage.length then
    .error (.panic s!"block number should have been {storage.length} but was {header.number}")
  else if header.previousHash ≠ ledgerHash W storage then
    .error (.panic (s!"unexpected Previous block hash. Expected PreviousHash = [{hex (ledgerHash W storage)}], " ++
      s!"PreviousHash referred in the latest block= [{hex header.previousHash}]"))
  else return storage ++ [block]

theorem appendBlock_eq_ok {W storage storage' block} (h : appendBlock W storage block = .ok storage') :
    storage' = storage ++ [block] ∧ ∃ header, block.header = some header ∧ header.number = storage.length := by
  simp only [appendBlock, bind_eq_ok, deref_eq_ok] at h
  obtain ⟨header, hheader, hret⟩ := h
  split at hret
  · cases hret
  · next hnumber =>
    split at hret
    · cases hret
    · exact ⟨(Except.ok.inj hret).symm, header, hheader, not_not.mp hnumber⟩

/-! ## Batches -/

abbrev FabricBatch := Block

namespace FabricBatch

def partyShardConfigSequenceSize : Nat := 2 + 2 + 8

/-- `ordererMetadata`: empty unless the entry is there and long enough. -/
def ordererMetadata (m : List Bytes) : Bytes :=
  match m[indexOrderer]? with
  | none => []
  | some buff => if buff.length < partyShardConfigSequenceSize then [] else buff

variable (b : FabricBatch)

def digest : Bytes := (b.header.map BlockHeader.dataHash).getD []

def requests : BatchedRequests := b.data.getD []

def seq : BatchSequence := (b.header.map BlockHeader.number).getD 0

def primary : PartyID :=
  let buff := ordererMetadata (b.metadata.getD [])
  if buff.length = 0 then 0 else UInt16.ofNat (ofBigEndian ((buff.drop 2).take 2))

def shard : ShardID :=
  let buff := ordererMetadata (b.metadata.getD [])
  if buff.length = 0 then 0 else UInt16.ofNat (ofBigEndian (buff.take 2))

def configSequence : ConfigSequence :=
  let buff := ordererMetadata (b.metadata.getD [])
  if buff.length = 0 then 0 else UInt64.ofNat (ofBigEndian ((buff.drop 4).take 8))

def primarySignature : Bytes := (b.metadata.getD []).getD indexSignatures []

end FabricBatch

/-- `NewFabricBatchFromRequests`. The digest is taken as given. -/
def newFabricBatchFromRequests (shardID : ShardID) (partyID : PartyID) (seq : BatchSequence)
    (batchedRequests : BatchedRequests) (digest : Bytes) (configSeq : ConfigSequence) (prevHash : Bytes)
    (primarySignature : Bytes) : FabricBatch :=
  let buff := bigEndian 2 shardID.toNat ++ bigEndian 2 partyID.toNat ++ bigEndian 8 configSeq.toNat
  { header := some { number := seq, previousHash := prevHash, dataHash := digest }
    data := some batchedRequests
    metadata := some [primarySignature, [], [], buff, []] }

section Encoding

variable {shardID : ShardID} {partyID : PartyID} {seq : BatchSequence} {batchedRequests : BatchedRequests}
  {digest prevHash primarySignature : Bytes} {configSeq : ConfigSequence}

/-- The orderer metadata of a batch is the entry that was written: its length is as required. -/
theorem ordererMetadata_new :
    FabricBatch.ordererMetadata ((newFabricBatchFromRequests shardID partyID seq batchedRequests digest configSeq
      prevHash primarySignature).metadata.getD []) =
      bigEndian 2 shardID.toNat ++ bigEndian 2 partyID.toNat ++ bigEndian 8 configSeq.toNat := by
  simp [newFabricBatchFromRequests, FabricBatch.ordererMetadata, indexOrderer, FabricBatch.partyShardConfigSequenceSize]

@[simp] theorem digest_new : FabricBatch.digest (newFabricBatchFromRequests shardID partyID seq batchedRequests
    digest configSeq prevHash primarySignature) = digest := rfl

@[simp] theorem requests_new : FabricBatch.requests (newFabricBatchFromRequests shardID partyID seq batchedRequests
    digest configSeq prevHash primarySignature) = batchedRequests := rfl

@[simp] theorem seq_new : FabricBatch.seq (newFabricBatchFromRequests shardID partyID seq batchedRequests
    digest configSeq prevHash primarySignature) = seq := rfl

@[simp] theorem primarySignature_new : FabricBatch.primarySignature (newFabricBatchFromRequests shardID partyID
    seq batchedRequests digest configSeq prevHash primarySignature) = primarySignature := rfl

@[simp] theorem shard_new : FabricBatch.shard (newFabricBatchFromRequests shardID partyID seq batchedRequests
    digest configSeq prevHash primarySignature) = shardID := by
  have hread : ofBigEndian (bigEndian 2 shardID.toNat) = shardID.toNat := ofBigEndian_bigEndian shardID.toNat_lt
  simp [FabricBatch.shard, ordererMetadata_new, hread]

@[simp] theorem primary_new : FabricBatch.primary (newFabricBatchFromRequests shardID partyID seq batchedRequests
    digest configSeq prevHash primarySignature) = partyID := by
  have hread : ofBigEndian (bigEndian 2 partyID.toNat) = partyID.toNat := ofBigEndian_bigEndian partyID.toNat_lt
  simp [FabricBatch.primary, ordererMetadata_new, hread]

@[simp] theorem configSequence_new : FabricBatch.configSequence (newFabricBatchFromRequests shardID partyID seq
    batchedRequests digest configSeq prevHash primarySignature) = configSeq := by
  have hdrop : (bigEndian 2 shardID.toNat ++ bigEndian 2 partyID.toNat ++ bigEndian 8 configSeq.toNat).drop 4 =
      bigEndian 8 configSeq.toNat := drop_left' (by simp)
  have hread : ofBigEndian (bigEndian 8 configSeq.toNat) = configSeq.toNat := ofBigEndian_bigEndian configSeq.toNat_lt
  have htake : (bigEndian 8 configSeq.toNat).take 8 = bigEndian 8 configSeq.toNat := take_of_length_le (by simp)
  simp only [FabricBatch.configSequence, ordererMetadata_new, hdrop, htake, hread]
  simp

end Encoding

/-- Where a stored batch stands, as the batch itself says. -/
structure FabricBatch.At (shardID : ShardID) (primary : PartyID) (seq : BatchSequence) (b : FabricBatch) :
    Prop where
  shard : b.shard = shardID
  primary : b.primary = primary
  seq : b.seq = seq

/-! ## The chain of one primary's batches -/

structure BatchChain (shardID : ShardID) (primary : PartyID) where
  batches : List FabricBatch
  at_index : ∀ (i : Nat) (batch : FabricBatch), batches[i]? = some batch → batch.At shardID primary i

/-- The chain of a primary that has not made a batch yet. -/
def BatchChain.empty (shardID : ShardID) (primary : PartyID) : BatchChain shardID primary where
  batches := []
  at_index := by simp

/-- The chain after one more batch. -/
def BatchChain.extend {shardID : ShardID} {primary : PartyID} (chain : BatchChain shardID primary)
    (batch : FabricBatch) (h : batch.At shardID primary chain.batches.length) : BatchChain shardID primary where
  batches := chain.batches ++ [batch]
  at_index := by
    refine forall_getElem?_append.mpr ⟨chain.at_index, fun k other hk => ?_⟩
    rw [getElem?_singleton, Option.ite_none_right_eq_some] at hk
    obtain ⟨rfl, hk⟩ := hk
    cases hk
    exact h

/-- `BatchLedgerPart`: an open chain, with the hash of its last header. -/
structure BatchLedgerPart (W : Wire) (shardID : ShardID) (primary : PartyID) extends
    BatchChain shardID primary where
  prevHash : Bytes
  prevHash_eq : prevHash = ledgerHash W batches

def newBatchLedgerPart (W : Wire) {shardID : ShardID} {primary : PartyID} (chain : BatchChain shardID primary) :
    BatchLedgerPart W shardID primary :=
  { chain with prevHash := ledgerHash W chain.batches, prevHash_eq := rfl }

namespace BatchLedgerPart

variable {W : Wire} {shardID : ShardID} {primary : PartyID} {part part' : BatchLedgerPart W shardID primary}
  {seq : BatchSequence} {configSeq : ConfigSequence} {batchedRequests : BatchedRequests}
  {digest primarySignature : Bytes}

/-- The block that `BatchLedgerPart.Append` hands to the block ledger. -/
def nextBatch (part : BatchLedgerPart W shardID primary) (seq : BatchSequence) (configSeq : ConfigSequence)
    (batchedRequests : BatchedRequests) (digest primarySignature : Bytes) : FabricBatch :=
  newFabricBatchFromRequests shardID primary seq batchedRequests digest configSeq part.prevHash primarySignature

/-- The block ledger takes the batch iff it has the next number: the remembered hash is always the right
one. -/
theorem appendBlock_nextBatch {blocks} :
    appendBlock W part.batches (part.nextBatch seq configSeq batchedRequests digest primarySignature) =
      .ok blocks ↔ seq = part.batches.length ∧
        part.batches ++ [part.nextBatch seq configSeq batchedRequests digest primarySignature] = blocks := by
  have hhash := part.prevHash_eq
  by_cases hseq : seq = part.batches.length <;>
    simp [appendBlock, nextBatch, newFabricBatchFromRequests, deref, hseq, hhash]

def append (part : BatchLedgerPart W shardID primary) (seq : BatchSequence) (configSeq : ConfigSequence)
    (batchedRequests : BatchedRequests) (digest primarySignature : Bytes) :
    Outcome (BatchLedgerPart W shardID primary) :=
  let block := part.nextBatch seq configSeq batchedRequests digest primarySignature
  match happend : appendBlock W part.batches block with
  | .error fault => .error fault
  | .ok batches => .ok
    { batches
      at_index := by
        obtain ⟨hseq, rfl⟩ := appendBlock_nextBatch.mp happend
        exact (part.extend block ⟨shard_new, primary_new, hseq⟩).at_index
      prevHash := (block.header.map W.blockHeaderHash).getD []
      prevHash_eq := by
        obtain ⟨-, rfl⟩ := appendBlock_nextBatch.mp happend
        simp [ledgerHash, block] }

theorem eq_of_batches (h : part.batches = part'.batches) : part = part' := by
  obtain ⟨⟨batches, _⟩, prevHash, hprev⟩ := part
  obtain ⟨⟨batches', _⟩, prevHash', hprev'⟩ := part'
  obtain rfl : batches = batches' := h
  obtain rfl : prevHash = prevHash' := hprev.trans hprev'.symm
  rfl

theorem exists_append_ok (hseq : seq = part.batches.length) (configSeq : ConfigSequence)
    (batchedRequests : BatchedRequests) (digest primarySignature : Bytes) :
    ∃ part', part.append seq configSeq batchedRequests digest primarySignature = .ok part' := by
  unfold append
  simp only
  split
  · next fault hfault => cases hfault.symm.trans (appendBlock_nextBatch.mpr ⟨hseq, rfl⟩)
  · exact ⟨_, rfl⟩

/-- **A batch is refused only for its number.** -/
theorem append_ok_iff : part.append seq configSeq batchedRequests digest primarySignature = .ok part' ↔
      seq = part.batches.length ∧ part'.batches =
        part.batches ++ [part.nextBatch seq configSeq batchedRequests digest primarySignature] := by
  unfold append
  simp only
  split
  · next fault hfault =>
    have hseq : seq ≠ part.batches.length := by
      intro h
      cases hfault.symm.trans (appendBlock_nextBatch.mpr ⟨h, rfl⟩)
    simp [hseq]
  · next batches happend =>
    obtain ⟨hseq, rfl⟩ := appendBlock_nextBatch.mp happend
    refine ⟨fun h => ?_, fun h => ?_⟩
    · cases h
      exact ⟨hseq, rfl⟩
    · exact congrArg Except.ok (eq_of_batches h.2.symm)

end BatchLedgerPart

/-! ## The chains of a shard -/

abbrev Disk (shardID : ShardID) := (primary : PartyID) → Option (BatchChain shardID primary)

/-- The disk of a batcher that was never started. -/
def Disk.blank (shardID : ShardID) : Disk shardID := fun _ => none

def Disk.batches {shardID : ShardID} (disk : Disk shardID) (primary : PartyID) : List FabricBatch :=
  ((disk primary).map BatchChain.batches).getD []

structure BatchLedgerArray (W : Wire) (shardID : ShardID) where
  ledgerParts : (primary : PartyID) → Option (BatchLedgerPart W shardID primary)

/-- `NewBatchLedgerArray`: the parts of the given parties, and those found on the disk. -/
def newBatchLedgerArray (W : Wire) {shardID : ShardID} (partyID : PartyID) (parties : List PartyID)
    (disk : Disk shardID) : Outcome (BatchLedgerArray W shardID) :=
  if partyID ∉ parties then
    .error (.err s!"partyID {partyID} not in parties {sliceText parties}")
  else .ok
    { ledgerParts := fun primary =>
        match disk primary with
        | some chain => some (newBatchLedgerPart W chain)
        | none => if primary ∈ parties then some (newBatchLedgerPart W (.empty shardID primary)) else none }

namespace BatchLedgerArray

variable {W : Wire} {shardID : ShardID} {array array' : BatchLedgerArray W shardID} {primary : PartyID}
  {seq : BatchSequence} {configSeq : ConfigSequence} {batchedRequests : BatchedRequests}
  {digest primarySignature : Bytes}

/-- The part of a party, or the panic of every method that finds none. -/
def part (array : BatchLedgerArray W shardID) (partyID : PartyID) : Outcome (BatchLedgerPart W shardID partyID) :=
  match array.ledgerParts partyID with
  | some part => .ok part
  | none => .error (.panic s!"partyID does not exist: {partyID}")

def height (array : BatchLedgerArray W shardID) (partyID : PartyID) : Outcome Nat := do
  let part ← array.part partyID
  return part.batches.length

def append (array : BatchLedgerArray W shardID) (partyID : PartyID) (batchSeq : BatchSequence)
    (configSeq : ConfigSequence) (batchedRequests : BatchedRequests) (digest primarySignature : Bytes) :
    Outcome (BatchLedgerArray W shardID) := do
  let part ← array.part partyID
  let part' ← part.append batchSeq configSeq batchedRequests digest primarySignature
  return { ledgerParts := update array.ledgerParts partyID (some part') }

def retrieveBatchByNumber (array : BatchLedgerArray W shardID) (partyID : PartyID) (seq : BatchSequence) :
    Outcome (Option FabricBatch) := do
  let part ← array.part partyID
  return part.batches[seq]?

/-- What is left of the array when it is closed or its process dies. -/
def disk (array : BatchLedgerArray W shardID) : Disk shardID :=
  fun primary => (array.ledgerParts primary).map BatchLedgerPart.toBatchChain

abbrev batches (array : BatchLedgerArray W shardID) (primary : PartyID) : List FabricBatch :=
  array.disk.batches primary

theorem part_eq_ok {part} : array.part primary = .ok part ↔ array.ledgerParts primary = some part := by
  unfold BatchLedgerArray.part
  split <;> simp_all

theorem batches_of_part {part} (h : array.part primary = .ok part) : array.batches primary = part.batches := by
  simp [batches, disk, Disk.batches, part_eq_ok.mp h]

theorem height_eq_ok {height} (h : array.height primary = .ok height) : height = (array.batches primary).length := by
  simp only [BatchLedgerArray.height, bind_eq_ok] at h
  obtain ⟨part, hpart, hret⟩ := h
  rw [batches_of_part hpart]
  exact (Except.ok.inj hret).symm

theorem retrieveBatchByNumber_eq_some {batch} : array.retrieveBatchByNumber primary seq = .ok (some batch) ↔
      (array.batches primary)[seq]? = some batch := by
  simp only [retrieveBatchByNumber, bind_eq_ok]
  constructor
  · rintro ⟨part, hpart, hret⟩
    rw [batches_of_part hpart]
    exact Except.ok.inj hret
  · intro h
    cases hparts : array.ledgerParts primary with
    | none => simp [batches, disk, Disk.batches, hparts] at h
    | some part =>
      have hpart := part_eq_ok.mpr hparts
      exact ⟨part, hpart, congrArg Except.ok (batches_of_part hpart ▸ h)⟩

theorem batches_update {part} : BatchLedgerArray.batches ⟨update array.ledgerParts primary (some part)⟩ =
      update array.batches primary part.batches := by
  funext p
  by_cases hp : p = primary
  · subst hp
    simp [batches, disk, Disk.batches]
  · simp [batches, disk, Disk.batches, update_of_ne hp]

section

variable (h : array.append primary seq configSeq batchedRequests digest primarySignature = .ok array')
include h

/-- **What an append does**: the batch has the next number and goes to the end of its primary's chain. -/
theorem append_eq_new :
    seq = (array.batches primary).length ∧ ∃ prevHash, array'.batches = update array.batches primary
      (array.batches primary ++
        [newFabricBatchFromRequests shardID primary seq batchedRequests digest configSeq prevHash
          primarySignature]) := by
  simp only [append, bind_eq_ok] at h
  obtain ⟨part, hpart, part', happend, hret⟩ := h
  obtain ⟨hseq, hbatches⟩ := BatchLedgerPart.append_ok_iff.mp happend
  cases hret
  rw [batches_update, batches_of_part hpart, hbatches]
  exact ⟨hseq, part.prevHash, rfl⟩

theorem append_eq_ok : seq = (array.batches primary).length ∧ ∃ batch : FabricBatch, batch.digest = digest ∧
      batch.requests = batchedRequests ∧
      array'.batches = update array.batches primary (array.batches primary ++ [batch]) := by
  obtain ⟨hseq, prevHash, hbatches⟩ := append_eq_new h
  exact ⟨hseq, _, digest_new, requests_new, hbatches⟩

theorem batches_prefix (p : PartyID) : array.batches p <+: array'.batches p := by
  obtain ⟨-, batch, -, -, hbatches⟩ := append_eq_ok h
  rw [hbatches]
  by_cases hp : p = primary
  · subst hp
    rw [update_self]
    exact prefix_append _ _
  · rw [update_of_ne hp]

end

theorem retrieveBatchByNumber_of_prefix {batch} (hgrows : array.batches primary <+: array'.batches primary)
    (h : array.retrieveBatchByNumber primary seq = .ok (some batch)) :
    array'.retrieveBatchByNumber primary seq = .ok (some batch) := by
  rw [retrieveBatchByNumber_eq_some] at h ⊢
  obtain ⟨hlt, -⟩ := List.getElem?_eq_some_iff.mp h
  obtain ⟨rest, hrest⟩ := hgrows
  rw [← hrest, getElem?_append_left hlt]
  exact h

theorem height_append {p} (hp : p ≠ primary)
    (h : array.append primary seq configSeq batchedRequests digest primarySignature = .ok array') :
    array'.height p = array.height p := by
  simp only [append, bind_eq_ok] at h
  obtain ⟨part, -, part', -, hret⟩ := h
  cases hret
  simp only [height, BatchLedgerArray.part, update_of_ne hp]

theorem height_append_self
    (h : array.append primary seq configSeq batchedRequests digest primarySignature = .ok array') :
    array'.height primary = .ok (seq + 1) := by
  simp only [append, bind_eq_ok] at h
  obtain ⟨part, -, part', happend, hret⟩ := h
  obtain ⟨hseq, hbatches⟩ := BatchLedgerPart.append_ok_iff.mp happend
  cases hret
  simp [height, BatchLedgerArray.part, hbatches, hseq]

theorem exists_append {part} (hpart : array.part primary = .ok part)
    (hseq : seq = (array.batches primary).length) (configSeq : ConfigSequence)
    (batchedRequests : BatchedRequests) (digest primarySignature : Bytes) :
    ∃ array', array.append primary seq configSeq batchedRequests digest primarySignature = .ok array' := by
  rw [batches_of_part hpart] at hseq
  obtain ⟨part', happend⟩ := BatchLedgerPart.exists_append_ok hseq configSeq batchedRequests digest primarySignature
  exact ⟨⟨update array.ledgerParts primary (some part')⟩, by simp [append, hpart, happend]⟩

theorem batches_new {disk partyID parties}
    (h : newBatchLedgerArray W partyID parties disk = .ok array) : array.batches = disk.batches := by
  unfold newBatchLedgerArray at h
  split at h
  · cases h
  · cases h
    funext p
    cases hdisk : disk p with
    | none =>
      by_cases hp : p ∈ parties <;>
        simp [batches, BatchLedgerArray.disk, Disk.batches, hdisk, hp, newBatchLedgerPart, BatchChain.empty]
    | some chain => simp [batches, BatchLedgerArray.disk, Disk.batches, hdisk, newBatchLedgerPart]

end BatchLedgerArray

end Arma
