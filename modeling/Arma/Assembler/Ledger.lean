import Arma.Ledger
import Arma.Consensus.Blocks

/-!
# The assembler's ledger

Model of `AssemblerLedger` (`node/ledger/assembler_ledger.go`): what the collator appends to it, and where the
assembler continues from after a (re)connection (`createAssemblerConsensusPosition` in `node/delivery/utils.go`).

The ledger does not know what is on its way to it: the position is that of the block after its last one, as the
last block's ORDERER entry says. For the genesis block that entry has a count of zero, so the assembler continues
inside of decision 0, after its only block.
-/

namespace Arma

open Arma.Lib Outcome

structure AvailableBatchOrdered where
  availableBatch : BatchIDKey
  commonBlock : Block
  signatures : List Signature
  info : OrderingInformation
  deriving DecidableEq, Repr

/-- `AssemblerConsensusPosition`: the place of the next block in the decisions. -/
structure AssemblerConsensusPosition where
  decisionNum : DecisionNum
  batchIndex : Nat
  deriving DecidableEq, Repr

/-- `createAssemblerConsensusPosition`. The index is compared with the count minus one as integers: with a count of
zero they differ. -/
def createAssemblerConsensusPosition : Option OrderingInformation → AssemblerConsensusPosition
  | none => ⟨0, 0⟩
  | some oi => if oi.batchIndex + 1 ≠ oi.batchCount then ⟨oi.decisionNum, oi.batchIndex + 1⟩
      else ⟨oi.decisionNum + 1, 0⟩

/-- One round of the loop of `arrangeSignatures`. -/
def arrangeSignature (W : Wire) (s : Signature) : Outcome (MetadataSignature × Bytes) := do
  let msg ← (ofExcept (W.messageToSign.unmarshal (s.msg.getD []))).orPanic id
  return (⟨s.value.getD [], msg.identifierHeader⟩, msg.ordererBlockMetadata)

/-- `arrangeSignatures`: the signatures of a block, and the metadata that the first of them covers. -/
def arrangeSignatures (W : Wire) (signatures : List Signature) : Outcome (List MetadataSignature × Bytes) := do
  let arranged ← mapEach (fun _ => arrangeSignature W) 0 signatures
  return (arranged.map Prod.fst, (arranged.head?.map Prod.snd).getD [])

/-- Writing the SIGNATURES entry of a block. -/
def setSignatures (W : Wire) (md : List Bytes) (sigs : List MetadataSignature) (ordererBlockMetadata : Bytes) :
    Outcome (List Bytes) := do
  let _ ← index md indexSignatures
  return md.set indexSignatures (W.metadata.marshal ⟨ordererBlockMetadata, sigs⟩)

namespace AssemblerLedger

def append (W : Wire) (storage : List Block) (batch : FabricBatch) (oba : AvailableBatchOrdered) :
    Outcome (List Block) := do
  let (sigs, ordererBlockMetadata) ← arrangeSignatures W oba.signatures
  let md ← deref oba.commonBlock.metadata
  let md ← setSignatures W md sigs ordererBlockMetadata
  appendBlock W storage { header := oba.commonBlock.header, data := some batch.requests, metadata := some md }

def appendConfig (W : Wire) (storage : List Block) (oba : AvailableBatchOrdered) : Outcome (List Block) := do
  let number := (oba.commonBlock.header.map BlockHeader.number).getD 0
  if isConfigBlock W oba.commonBlock = false then
    .error (.panic s!"attempting to AppendConfig a block which is not a config block: {number}")
  else
    let (sigs, ordererBlockMetadata) ← arrangeSignatures W oba.signatures
    if sigs = [] then appendBlock W storage oba.commonBlock
    else
      let md ← deref oba.commonBlock.metadata
      let md ← setSignatures W md sigs ordererBlockMetadata
      appendBlock W storage { oba.commonBlock with metadata := some md }

def lastOrderingInfo (W : Wire) (storage : List Block) : Outcome (Option OrderingInformation) :=
  match storage.getLast? with
  | none => return none
  | some block => do
    let ordering ← assemblerBatchIdOrderingInfoAndTxCountFromBlock W block
    return some ordering.info

/-- The place that a block's ORDERER entry names. -/
def placeOf (W : Wire) (block : Block) : Outcome OrderingInformation := do
  let md ← deref block.metadata
  let raw ← index md indexOrderer
  let v ← assemblerBlockMetadataFromBytes W raw
  return ⟨v.num, v.batchCount.toNat, v.batchIndex.toNat⟩

variable {W : Wire} {storage storage' : List Block} {block : Block} {oba : AvailableBatchOrdered}

/-- What `LastOrderingInfo` reads is the place that the last block names. -/
theorem lastOrderingInfo_concat {oi} (h : lastOrderingInfo W (storage ++ [block]) = .ok oi) :
    ∃ info, oi = some info ∧ placeOf W block = .ok info := by
  rw [lastOrderingInfo, List.getLast?_concat] at h
  simp only [bind_eq_ok] at h
  obtain ⟨ordering, hordering, hret⟩ := h
  cases hret
  refine ⟨_, rfl, ?_⟩
  obtain ⟨_, md, orderer, v, -, hmd, horderer, hv, -, hinfo, -⟩ := blockOrdering_eq_ok hordering
  simp [placeOf, hmd, index, horderer, hv, hinfo]

theorem placeOf_setSignatures {md md' sigs bytes header data} (hmd : block.metadata = some md)
    (h : setSignatures W md sigs bytes = .ok md') : placeOf W ⟨header, data, some md'⟩ = placeOf W block := by
  simp only [setSignatures, bind_eq_ok] at h
  obtain ⟨-, -, hret⟩ := h
  cases hret
  have hne : indexSignatures ≠ indexOrderer := by decide
  simp [placeOf, hmd, index, List.getElem?_set_ne hne]

/-- **What the collator's appends do**: a block with the next number goes to the end, and it names the place of the
common block. -/
structure Appended (W : Wire) (storage storage' : List Block) (oba : AvailableBatchOrdered) : Prop where
  number : ∃ header, oba.commonBlock.header = some header ∧ header.number = storage.length
  concat : ∃ block, storage' = storage ++ [block] ∧ placeOf W block = placeOf W oba.commonBlock

theorem append_eq_ok {batch} (h : append W storage batch oba = .ok storage') : Appended W storage storage' oba := by
  simp only [append, bind_eq_ok, deref_eq_ok] at h
  obtain ⟨arranged, -, md, hmd, md', hset, happend⟩ := h
  obtain ⟨hconcat, hnumber⟩ := appendBlock_eq_ok happend
  exact ⟨hnumber, _, hconcat, placeOf_setSignatures hmd hset⟩

theorem appendConfig_eq_ok (h : appendConfig W storage oba = .ok storage') : Appended W storage storage' oba := by
  unfold appendConfig at h
  simp only at h
  split at h
  · cases h
  · simp only [bind_eq_ok] at h
    obtain ⟨arranged, -, h⟩ := h
    split at h
    · obtain ⟨hconcat, hnumber⟩ := appendBlock_eq_ok h
      exact ⟨hnumber, _, hconcat, rfl⟩
    · simp only [bind_eq_ok, deref_eq_ok] at h
      obtain ⟨md, hmd, md', hset, happend⟩ := h
      obtain ⟨hconcat, hnumber⟩ := appendBlock_eq_ok happend
      exact ⟨hnumber, _, hconcat, placeOf_setSignatures hmd hset⟩

end AssemblerLedger

end Arma
