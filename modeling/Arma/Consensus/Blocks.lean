import Arma.Consensus.Decision

/-!
# The blocks of a proposal

Model of the block functions of `node/consensus/utils.go` (`Create` and `Verify`, for data blocks and for
config blocks), of the ORDERER metadata codec of `node/ledger/assembler_ledger_util.go`, and of the
`protoutil` helpers they call.

The leader creates blocks, every node verifies them; the two are separate code. `verifyDataCommonBlock_eq_ok`
and `verifyConfigCommonBlock_eq_ok` say exactly what the checks pin of a block, which is not all of it: a
data block's `Data` is not looked at, and a LAST_CONFIG entry is compared after decoding. When the checks can
panic is `noPanic_verifyDataCommonBlock_iff` and `noPanic_verifyConfigCommonBlock_iff`.
-/

namespace Arma

open Arma.Lib Outcome

/-! ## Block metadata -/

/-- `OrderingInformation`: where a block stands in its decision. -/
structure OrderingInformation where
  decisionNum : DecisionNum
  batchCount : Nat
  batchIndex : Nat
  deriving DecidableEq, Repr

def batchIDToString (id : BatchIDKey) : String :=
  s!"Sh,Pr,Sq,Dg: <{id.shard},{id.primary},{id.seq},{hex id.digest}>"

def assemblerBlockMetadataToBytes (W : Wire) (batchID : BatchIDKey) (info : OrderingInformation)
    (transactionCount : UInt64) : Bytes :=
  W.assemblerBlockMetadata.marshal
    { primary := batchID.primary.toUInt32
      shard := batchID.shard.toUInt32
      sequence := batchID.seq
      decisionNum := info.decisionNum
      batchIndex := UInt32.ofNat info.batchIndex
      batchCount := UInt32.ofNat info.batchCount
      transactionCount }

/-- The values that `AssemblerBlockMetadataFromBytes` returns. -/
structure BlockMetadataValues where
  primary : PartyID
  shard : ShardID
  seq : BatchSequence
  num : DecisionNum
  batchIndex : UInt32
  batchCount : UInt32
  transactionCount : UInt64
  deriving DecidableEq, Repr, Inhabited

/-- `AssemblerBlockMetadataFromBytes`. A shard or a primary above the `uint16` range wraps a nil error,
which is nil: zero values are returned, and no error. -/
def assemblerBlockMetadataFromBytes (W : Wire) (metadata : Bytes) : Outcome BlockMetadataValues :=
  if metadata = [] then .error (.err "empty bytes")
  else do
    let md ← (ofExcept (W.assemblerBlockMetadata.unmarshal metadata)).wrap
      "failed to unmarshal assembler block metadata"
    if maxUint16 < md.shard.toNat then return default
    else if maxUint16 < md.primary.toNat then return default
    else return {
      primary := md.primary.toUInt16
      shard := md.shard.toUInt16
      seq := md.sequence
      num := md.decisionNum
      batchIndex := md.batchIndex
      batchCount := md.batchCount
      transactionCount := md.transactionCount }

/-- What `AssemblerBatchIdOrderingInfoAndTxCountFromBlock` returns: the batch, its place in the decision,
the signatures and the transaction count. -/
structure BlockOrdering where
  batchID : BatchIDKey
  info : OrderingInformation
  signatures : List Signature
  txCount : UInt64
  deriving DecidableEq, Repr

/-- Reading one signature of a block's SIGNATURES entry. -/
def readBlockSignature (W : Wire) (sig : MetadataSignature) : Outcome Signature := do
  let identifierHeader ← (W.unmarshalIdentifierHeader sig.identifierHeader).wrap
    "failed to extract signature identifier"
  return ⟨identifierHeader.identifier.toUInt64, some sig.signature, none⟩

def assemblerBatchIdOrderingInfoAndTxCountFromBlock (W : Wire) (block : Block) : Outcome BlockOrdering :=
  match block.header with
  | none => .error (.err "nil block header")
  | some header =>
    match block.metadata with
    | none => .error (.err "missing block metadata")
    | some [] => .error (.err "missing block metadata")
    | some md =>
      match md[indexOrderer]? with
      | none => .error (.err "missing block ORDERER metadata")
      | some orderer => do
        let v ← (assemblerBlockMetadataFromBytes W orderer).wrap
          "failed to extract AssemblerBlockMetadata"
        let mdSigs ← (getMetadataFromBlock W block indexSignatures "SIGNATURES").wrap
          "failed to extract signatures"
        let bftSigs ← mapEach (fun _ => readBlockSignature W) 0 mdSigs.signatures
        return {
          batchID := ⟨v.shard, v.primary, v.seq, header.dataHash⟩
          info := ⟨v.num, v.batchCount.toNat, v.batchIndex.toNat⟩
          signatures := bftSigs
          txCount := v.transactionCount }

/-- `protoutil.IsConfigBlock`: the one transaction of the block is an envelope of type CONFIG. -/
def isConfigBlock (W : Wire) (block : Block) : Bool :=
  match block.data with
  | some [tx] =>
    match W.envelope.unmarshal tx with
    | .ok envelope => W.envelopeType envelope = some headerTypeConfig
    | .error _ => false
  | _ => false

/-! ## Creating blocks -/

/-- `protoutil.NewBlock`: a header without a data hash, no transactions, empty metadata entries. -/
def newBlock (seqNum : Nat) (previousHash : Bytes) : Block :=
  ⟨some ⟨seqNum, previousHash, []⟩, some [], some initBlockMetadata⟩

def createdMetadata (W : Wire) (orderer : Bytes) (lastConfig : Nat) : List Bytes :=
  (initBlockMetadata.set indexOrderer orderer).set indexLastConfig (lastConfigEntry W lastConfig)

def createDataCommonBlock (W : Wire) (blockNum : Nat) (prevHash : Bytes) (batchID : BatchIDKey)
    (txCount : UInt64) (info : OrderingInformation) (lastConfigBlockNum : Nat) : Block :=
  { newBlock blockNum prevHash with
    header := some ⟨blockNum, prevHash, batchID.digest⟩
    metadata := some (createdMetadata W (assemblerBlockMetadataToBytes W batchID info txCount) lastConfigBlockNum) }

/-- The batch that the metadata of a config block names. -/
def configBatchID : BatchIDKey := ⟨shardIDConsensus, 0, 0, []⟩

def createConfigCommonBlock (W : Wire) (blockNum : Nat) (prevHash : Bytes) (txCount : UInt64)
    (info : OrderingInformation) (configReq : Bytes) : Block where
  header := some ⟨blockNum, prevHash, W.digest [configReq]⟩
  data := some [configReq]
  metadata := some (createdMetadata W (assemblerBlockMetadataToBytes W configBatchID info txCount) blockNum)

/-! ## Verifying blocks -/

/-- The last check of both verifications: the LAST_CONFIG entry decodes and points to `index`. -/
def verifyLastConfig (W : Wire) (block : Block) (index : Nat) (getErr unmarshalErr : String)
    (mismatch : Nat → String) : Outcome Unit := do
  let rawLastConfig ← (getMetadataFromBlock W block indexLastConfig "LAST_CONFIG").wrap getErr
  let lastConf ← (ofExcept (W.lastConfig.unmarshal rawLastConfig.value)).wrap unmarshalErr
  require (lastConf.index = index) (mismatch lastConf.index)

/-- The metadata checks of `VerifyDataCommonBlock`. -/
def verifyDataMetadata (W : Wire) (block : Block) (batchID : BatchIDKey) (txCount : UInt64)
    (info : OrderingInformation) (lastConfigBlockNum : Nat) : Outcome Unit :=
  match block.metadata with
  | none => .error (.err "proposed block metadata is nil")
  | some [] => .error (.err "proposed block metadata is nil")
  | some (entry :: entries) => do
    let orderer ← index (entry :: entries) indexOrderer
    require (assemblerBlockMetadataToBytes W batchID info txCount = orderer)
      "proposed block metadata isn't equal to computed metadata"
    verifyLastConfig W block lastConfigBlockNum
      "failed getting proposed block metadata last config"
      "failed unmarshaling proposed block metadata last config"
      fun index => s!"last config in block metadata points to {index} but our persisted last config is " ++
        s!"{lastConfigBlockNum}"

def verifyDataCommonBlock (W : Wire) (block : Block) (blockNum : Nat) (prevHash : Bytes)
    (batchID : BatchIDKey) (txCount : UInt64) (info : OrderingInformation)
    (lastConfigBlockNum : Nat) : Outcome Unit := do
  let header ← deref block.header
  require (header.previousHash = prevHash)
    s!"proposed block header prev hash {hex header.previousHash} isn't equal to computed prev hash {hex prevHash}"
  require (header.dataHash = batchID.digest)
    s!"proposed block data hash isn't equal to computed digest {batchIDToString batchID}"
  require (header.number = blockNum)
    s!"proposed block header number {header.number} isn't equal to computed number {blockNum}"
  verifyDataMetadata W block batchID txCount info lastConfigBlockNum

/-- The data of a config block: exactly one transaction. -/
def configBlockData : Option (List Bytes) → Outcome BatchedRequests
  | none => .error (.err "empty config block data")
  | some [] => .error (.err "empty config block data")
  | some [tx] => .ok [tx]
  | some (_ :: _ :: _) => .error (.err "config block does not contain only one tx")

def verifyConfigCommonBlock (W : Wire) (configBlock : Block) (blockNum : Nat) (prevHash : Bytes)
    (dataHash : Bytes) (txCount : UInt64) (info : OrderingInformation) : Outcome Unit := do
  let header ← deref configBlock.header
  require (header.number = blockNum)
    s!"proposed config block header number {header.number} isn't equal to computed number {blockNum}"
  require (header.previousHash = prevHash)
    (s!"proposed config block header prev hash {hex header.previousHash} isn't equal to computed prev hash " ++
      s!"{hex prevHash}")
  let data ← configBlockData configBlock.data
  require (header.dataHash = W.digest data)
    s!"proposed config block data hash isn't equal to computed data digest {W.digest data}"
  require (header.dataHash = dataHash)
    s!"proposed config block data hash isn't equal to computed data hash {dataHash}"
  match configBlock.metadata with
  | none => .error (.err "proposed config block metadata is not set")
  | some md =>
    require (md.length = numMetadataIndices) "proposed config block metadata is not set"
    let orderer ← index md indexOrderer
    require (assemblerBlockMetadataToBytes W configBatchID info txCount = orderer)
      "proposed config block metadata isn't equal to computed metadata"
    verifyLastConfig W configBlock blockNum
      "failed getting proposed config block metadata last config"
      "failed unmarshaling proposed config block metadata last config"
      fun index => s!"last config in block metadata points to {index} instead of the config block number {blockNum}"

/-! ## What the checks pin -/

/-- The LAST_CONFIG entry of the metadata `md` decodes and points to `index`. -/
def LastConfigIs (W : Wire) (md : List Bytes) (index : Nat) : Prop :=
  ∃ raw m, md[indexLastConfig]? = some raw ∧ W.metadata.unmarshal raw = .ok m ∧
    W.lastConfig.unmarshal m.value = .ok ⟨index⟩

/-- The block's ORDERER entry is `orderer` and its LAST_CONFIG entry points to `index`. -/
def HasMetadata (W : Wire) (block : Block) (orderer : Bytes) (index : Nat) : Prop :=
  ∃ md, block.metadata = some md ∧ md[indexOrderer]? = some orderer ∧ LastConfigIs W md index

variable {W : Wire} {block : Block} {blockNum lastConfigBlockNum : Nat} {prevHash dataHash : Bytes}
  {batchID : BatchIDKey} {txCount : UInt64} {info : OrderingInformation}

theorem configBlockData_eq_ok {data txs} : configBlockData data = .ok txs ↔ ∃ tx, data = some [tx] ∧ txs = [tx] := by
  match data with
  | none | some [] | some (_ :: _ :: _) => simp [configBlockData]
  | some [tx] => simp [configBlockData, eq_comm]

theorem configBlockData_noPanic (data) : (configBlockData data).NoPanic := by
  match data with
  | none | some [] | some (_ :: _ :: _) => exact noPanic_fail _
  | some [tx] => exact noPanic_ok _

variable {mismatch : Nat → String} {u : Unit}

theorem verifyLastConfig_eq_ok {index getErr unmarshalErr md} (hmd : block.metadata = some md) :
    verifyLastConfig W block index getErr unmarshalErr mismatch = .ok u ↔ LastConfigIs W md index := by
  have hget : ∀ m, getMetadataFromBlock W block indexLastConfig "LAST_CONFIG" = .ok m ↔
      ∃ raw, md[indexLastConfig]? = some raw ∧ W.metadata.unmarshal raw = .ok m := by
    intro m
    simp only [getMetadataFromBlock, hmd]
    cases md[indexLastConfig]? <;> simp
  simp only [verifyLastConfig, bind_eq_ok, wrap_eq_ok, ofExcept_eq_ok, require_eq_ok, hget, LastConfigIs]
  constructor
  · rintro ⟨m, ⟨raw, hraw, hm⟩, ⟨_⟩, hlc, rfl⟩
    exact ⟨raw, m, hraw, hm, hlc⟩
  · rintro ⟨raw, m, hraw, hm, hlc⟩
    exact ⟨m, ⟨raw, hraw, hm⟩, ⟨index⟩, hlc, rfl⟩

theorem verifyLastConfig_noPanic {index getErr unmarshalErr} :
    (verifyLastConfig W block index getErr unmarshalErr mismatch).NoPanic := by
  simp [verifyLastConfig, getMetadataFromBlock_noPanic]

theorem verifyDataMetadata_eq_ok : verifyDataMetadata W block batchID txCount info lastConfigBlockNum = .ok u ↔
      HasMetadata W block (assemblerBlockMetadataToBytes W batchID info txCount) lastConfigBlockNum := by
  unfold verifyDataMetadata HasMetadata
  split
  · rename_i hmd
    simp [hmd]
  · rename_i hmd
    simp [hmd]
  · rename_i entry entries hmd
    simp only [bind_eq_ok, index_eq_ok, require_eq_ok, verifyLastConfig_eq_ok hmd]
    constructor
    · rintro ⟨orderer, hidx, _, rfl, hlast⟩
      exact ⟨_, hmd, hidx, hlast⟩
    · rintro ⟨md, hmd', hidx, hlast⟩
      cases hmd.symm.trans hmd'
      exact ⟨_, hidx, (), rfl, hlast⟩

theorem noPanic_verifyDataMetadata_iff : (verifyDataMetadata W block batchID txCount info lastConfigBlockNum).NoPanic ↔
      ∀ md, block.metadata = some md → md ≠ [] → indexOrderer < md.length := by
  unfold verifyDataMetadata
  split
  · rename_i hmd
    simp [hmd]
  · rename_i hmd
    simp [hmd]
  · rename_i entry entries hmd
    simp only [noPanic_bind_iff, noPanic_index_iff, noPanic_require,
      verifyLastConfig_noPanic, hmd, Option.some.injEq, forall_eq', implies_true, and_true,
      ne_eq, reduceCtorEq, not_false_eq_true, forall_const]

/-- **What `VerifyDataCommonBlock` pins**: the header, the ORDERER entry, and what the LAST_CONFIG entry
decodes to. -/
theorem verifyDataCommonBlock_eq_ok :
    verifyDataCommonBlock W block blockNum prevHash batchID txCount info lastConfigBlockNum = .ok u ↔
      block.header = some ⟨blockNum, prevHash, batchID.digest⟩ ∧
        HasMetadata W block (assemblerBlockMetadataToBytes W batchID info txCount) lastConfigBlockNum := by
  simp only [verifyDataCommonBlock, bind_eq_ok, deref_eq_ok, require_eq_ok, verifyDataMetadata_eq_ok]
  constructor
  · rintro ⟨header, hheader, _, rfl, _, hdata, _, rfl, h⟩
    rw [← hdata]
    exact ⟨hheader, h⟩
  · rintro ⟨hheader, h⟩
    exact ⟨_, hheader, (), rfl, (), rfl, (), rfl, h⟩

/-- **What `VerifyConfigCommonBlock` pins**: the header, one transaction with the data hash as its
digest, five metadata entries, the ORDERER entry, and what the LAST_CONFIG entry decodes to. -/
theorem verifyConfigCommonBlock_eq_ok :
    verifyConfigCommonBlock W block blockNum prevHash dataHash txCount info = .ok u ↔
      block.header = some ⟨blockNum, prevHash, dataHash⟩ ∧ (∃ tx, block.data = some [tx] ∧ W.digest [tx] = dataHash) ∧
        (∃ md, block.metadata = some md ∧ md.length = numMetadataIndices) ∧
        HasMetadata W block (assemblerBlockMetadataToBytes W configBatchID info txCount) blockNum := by
  unfold verifyConfigCommonBlock HasMetadata
  simp only [bind_eq_ok, deref_eq_ok, require_eq_ok]
  constructor
  · rintro ⟨⟨n, ph, dh⟩, hheader, _, hnum, _, hprev, data, hdata, _, hdigest, _, hhash, h⟩
    obtain rfl : ph = prevHash := hprev
    obtain rfl : dh = dataHash := hhash
    obtain rfl : n = blockNum := hnum
    obtain ⟨tx, htx, rfl⟩ := configBlockData_eq_ok.mp hdata
    split at h
    · cases h
    · rename_i md hmd
      simp only [bind_eq_ok, index_eq_ok, require_eq_ok] at h
      obtain ⟨_, hlen, orderer, hidx, _, rfl, hlast⟩ := h
      exact ⟨hheader, ⟨tx, htx, hdigest.symm⟩, ⟨md, hmd, hlen⟩, md, hmd, hidx, (verifyLastConfig_eq_ok hmd).mp hlast⟩
  · rintro ⟨hheader, ⟨tx, htx, hdigest⟩, ⟨md, hmd, hlen⟩, md', hmd', hidx, hlast⟩
    obtain rfl : md = md' := Option.some.inj (hmd.symm.trans hmd')
    refine ⟨_, hheader, (), rfl, (), rfl, [tx], configBlockData_eq_ok.mpr ⟨tx, htx, rfl⟩, (), hdigest.symm, (), rfl, ?_⟩
    rw [hmd]
    simp only [bind_eq_ok, index_eq_ok, require_eq_ok]
    exact ⟨(), hlen, _, hidx, (), rfl, (verifyLastConfig_eq_ok hmd).mpr hlast⟩

/-! ## Created blocks pass -/

theorem lastConfigIs_entry {md index}
    (h : md[indexLastConfig]? = some (lastConfigEntry W index)) : LastConfigIs W md index :=
  ⟨_, ⟨W.lastConfig.marshal ⟨index⟩, []⟩, h, by simp [lastConfigEntry], by simp⟩

theorem hasMetadata_created {orderer index} (h : block.metadata = some (createdMetadata W orderer index)) :
    HasMetadata W block orderer index :=
  ⟨_, h, rfl, lastConfigIs_entry rfl⟩

/-! ## When the checks can panic -/

/-- The data-block checks follow the header without a nil check, and read the ORDERER entry of any
metadata that is not empty once the header has passed. -/
theorem noPanic_verifyDataCommonBlock_iff : (verifyDataCommonBlock W block blockNum prevHash batchID txCount info
        lastConfigBlockNum).NoPanic ↔ ∃ header, block.header = some header ∧
        (header = ⟨blockNum, prevHash, batchID.digest⟩ →
          ∀ md, block.metadata = some md → md ≠ [] → indexOrderer < md.length) := by
  unfold verifyDataCommonBlock
  cases block.header with
  | none => simp [deref, NoPanic]
  | some header =>
    obtain ⟨n, ph, dh⟩ := header
    simp only [noPanic_bind_iff, deref_some, ok_bind,
      noPanic_require, require_eq_ok, noPanic_verifyDataMetadata_iff, true_and,
      Option.some.injEq, exists_eq_left', BlockHeader.mk.injEq]
    constructor
    · rintro h ⟨hnum, hprev, hdata⟩
      exact h () hprev () hdata () hnum
    · intro h _ hprev _ hdata _ hnum
      exact h ⟨hnum, hprev, hdata⟩

/-- The config-block checks count the metadata entries before they read one; what they do not check
is that there is a header. -/
theorem noPanic_verifyConfigCommonBlock_iff :
    (verifyConfigCommonBlock W block blockNum prevHash dataHash txCount info).NoPanic ↔
      ∃ header, block.header = some header := by
  unfold verifyConfigCommonBlock
  cases block.header with
  | none => simp [deref, NoPanic]
  | some header =>
    simp only [noPanic_bind_iff, deref_some, ok_bind,
      noPanic_require, require_eq_ok, configBlockData_noPanic, true_and,
      Option.some.injEq, exists_eq', iff_true]
    intro _ _ _ _ data _ _ _ _ _
    split
    · exact noPanic_fail _
    · rename_i md hmd
      refine noPanic_bind_iff.mpr ⟨by simp, fun _ hlen => ?_⟩
      refine noPanic_bind_iff.mpr ⟨?_, fun orderer _ => ?_⟩
      · rw [noPanic_index_iff, require_eq_ok.mp hlen]
        decide
      · exact noPanic_bind_iff.mpr ⟨by simp, fun _ _ => verifyLastConfig_noPanic⟩

/-! ## The metadata of a created block are read back -/

/-- An ORDERER entry is not empty, be it that of a batch of a shard or of a decision after the first. -/
theorem assemblerBlockMetadataToBytes_ne_nil (h : batchID.shard ≠ 0 ∨ info.decisionNum ≠ 0) :
    assemblerBlockMetadataToBytes W batchID info txCount ≠ [] := by
  refine W.assemblerBlockMetadata.marshal_ne_nil fun hzero => ?_
  rcases h with h | h
  · refine h (UInt16.toNat.inj ?_)
    have hshard : batchID.shard.toUInt32.toNat = 0 := congrArg (fun m => m.shard.toNat) hzero
    simpa using hshard
  · exact h (congrArg (·.decisionNum) hzero)

/-- What is written into an ORDERER entry is read back, unless it is the message of which nothing is written. -/
theorem assemblerBlockMetadataFromBytes_toBytes (hne : assemblerBlockMetadataToBytes W batchID info txCount ≠ []) :
    assemblerBlockMetadataFromBytes W (assemblerBlockMetadataToBytes W batchID info txCount) =
      .ok ⟨batchID.primary, batchID.shard, batchID.seq, info.decisionNum,
        UInt32.ofNat info.batchIndex, UInt32.ofNat info.batchCount, txCount⟩ := by
  have hs := batchID.shard.toNat_lt
  have hp := batchID.primary.toNat_lt
  rw [assemblerBlockMetadataFromBytes, if_neg hne]
  simp only [assemblerBlockMetadataToBytes, Codec.unmarshal_marshal, ofExcept_ok, wrap_ok, ok_bind]
  rw [if_neg (by simp [maxUint16]; omega), if_neg (by simp [maxUint16]; omega)]
  simp

/-- What is read from a block is what its header and its ORDERER entry hold. -/
theorem blockOrdering_eq_ok {o} (h : assemblerBatchIdOrderingInfoAndTxCountFromBlock W block = .ok o) :
    ∃ header md orderer v, block.header = some header ∧ block.metadata = some md ∧
      md[indexOrderer]? = some orderer ∧ assemblerBlockMetadataFromBytes W orderer = .ok v ∧
      o.batchID = ⟨v.shard, v.primary, v.seq, header.dataHash⟩ ∧
      o.info = ⟨v.num, v.batchCount.toNat, v.batchIndex.toNat⟩ ∧ o.txCount = v.transactionCount := by
  unfold assemblerBatchIdOrderingInfoAndTxCountFromBlock at h
  split at h
  · cases h
  · next header hheader =>
    split at h
    · cases h
    · cases h
    · next md _ hmd =>
      split at h
      · cases h
      · next orderer horderer =>
        simp only [bind_eq_ok, wrap_eq_ok] at h
        obtain ⟨v, hv, mdSigs, -, bftSigs, -, hret⟩ := h
        cases hret
        exact ⟨header, md, orderer, v, hheader, hmd, horderer, hv, rfl, rfl, rfl⟩

/-- **The ordering information of a created block is read back** from its ORDERER entry. -/
theorem blockOrdering_create {header} (hheader : block.header = some header)
    (hmd : block.metadata = some (createdMetadata W
      (assemblerBlockMetadataToBytes W batchID info txCount) lastConfigBlockNum))
    (hplace : batchID.shard ≠ 0 ∨ info.decisionNum ≠ 0) : assemblerBatchIdOrderingInfoAndTxCountFromBlock W block = .ok
      { batchID := { batchID with digest := header.dataHash }
        info := ⟨info.decisionNum, (UInt32.ofNat info.batchCount).toNat, (UInt32.ofNat info.batchIndex).toNat⟩
        signatures := []
        txCount } := by
  have hne : assemblerBlockMetadataToBytes W batchID info txCount ≠ [] := assemblerBlockMetadataToBytes_ne_nil hplace
  have hread := assemblerBlockMetadataFromBytes_toBytes hne
  have hsigs : getMetadataFromBlock W block indexSignatures "SIGNATURES" = .ok default := by
    simp [getMetadataFromBlock, hmd, createdMetadata, initBlockMetadata, indexSignatures,
      indexLastConfig, indexOrderer, numMetadataIndices, W.metadata.unmarshal_nil]
  unfold assemblerBatchIdOrderingInfoAndTxCountFromBlock
  rw [hheader, hmd]
  simp only [createdMetadata, initBlockMetadata, numMetadataIndices, indexOrderer, indexLastConfig,
    List.replicate, List.set, List.getElem?_cons_succ, List.getElem?_cons_zero, hread, hsigs,
    wrap_ok, ok_bind]
  rfl

end Arma
