import Arma.Consensus.Propose
import Arma.Ledger

/-!
# Starting a consenter and delivering decisions

Model of `Consensus.Deliver` (`node/consensus/consensus.go`) with the reconfiguration it waits for, and of
how a consenter gets its state from its ledger (`consensus_builder.go`): at bootstrap from the genesis block,
and from the last decision when it is configured again.

* Deliver indexes the digests of the decision's blocks, appends the decision to the ledger and takes over
  its state. The ledger refuses a block that is not its next one, and the node panics.
* With a config block in the decision it waits for `processNewConfigBlock`: the node is configured anew
  from its ledger, or, if its party was evicted or its own identity changed, waits for its administrator.
* Of the metrics only the transaction count feeds back into the node.

`Delivered` is what a delivery does to the node, `delivered_of_deliver` that it does so. The state a node reads
back from its ledger when it is configured anew is the state it has just stored (`stateFromLedger_concat`).
-/

namespace Arma

open Arma.Lib Outcome List

/-- `Reconfig`: what `Deliver` tells SmartBFT. -/
structure Reconfig where
  currentNodes : List PartyID
  inLatestDecision : Bool
  deriving DecidableEq, Repr

/-! ## Reading the state from the ledger -/

/-- `getInitialStateAndMetadata` of a ledger that is not empty: the state, the decision number of the last
config block and the hash of the last block. -/
def stateFromLedger (W : Wire) (storage : List Block) : Outcome (State × DecisionNum × Bytes) := do
  let block ← Outcome.index storage (storage.length - 1)
  let (proposal, _) ← (consenterBlockToDecision W block).orPanic fun e =>
    s!"couldn't read decision from last block: {e}"
  let _ ← (Outcome.ofExcept (W.viewMetadata.unmarshal (proposal.metadata.getD []))).orPanic id
  let header ← (Header.deserialize W proposal.header).orPanic id
  let state ← deref header.state
  let blockHeader ← deref block.header
  return (state, header.decisionNumOfLastConfigBlock, W.blockHeaderHash blockHeader)

/-- The blocks of the decision that a consenter block stores, as `getTxCount` reads them. -/
def availableBlocksOf (W : Wire) (block : Block) : Outcome (List Block) := do
  let data ← deref block.data
  let raw ← Outcome.index data 0
  let proposal ← (bytesToProposal W raw).orPanic fun _ => "couldn't read proposal from last block"
  let header ← (Header.deserialize W proposal.header).orPanic id
  return header.availableCommonBlocks

/-- The loop of `getTxCount`, from the newest block down to the last decision that has blocks. -/
def txCountFrom (W : Wire) : List Block → Outcome UInt64
  | [] => .ok 1
  | block :: older => do
    let blocks ← availableBlocksOf W block
    match blocks.getLast? with
    | none => txCountFrom W older
    | some lastAvailableBlock =>
      let ordering ← (assemblerBatchIdOrderingInfoAndTxCountFromBlock W lastAvailableBlock).orPanic
        fun _ => "couldn't retrieve tx count from last available block"
      return ordering.txCount

def getTxCount (W : Wire) (storage : List Block) : Outcome UInt64 :=
  match storage with
  | [] => .ok 0
  | [_] => .ok 1
  | _ :: _ :: _ => txCountFrom W storage.reverse

/-! ## Bootstrap -/

def initialStateFromConfig (W : Wire) (config : NodeConfig) : State :=
  let n := UInt16.ofNat config.shared.partyIDs.length
  { n
    threshold := (computeFTQ n).2.1
    quorum := (computeFTQ n).2.2
    shards := config.shared.extractShards.map fun shard => ⟨shard, 0⟩
    pending := []
    complaints := []
    appContext := W.blockHeader.marshal ⟨0, [], []⟩
    staleConfigBAFs := []
    assemblerHeights := []
    prunePoints := []
    durableWatermark := 0 }

def genesisBlockMetadataBytes (W : Wire) : Bytes :=
  W.assemblerBlockMetadata.marshal
    { primary := 0, shard := shardIDConsensus.toUInt32, sequence := 0, decisionNum := 0
      batchIndex := 0, batchCount := 0, transactionCount := 1 }

/-- The state that `appendGenesisBlock` makes of the initial one: its app context is the header of block 0,
with the digest of the genesis block's data. -/
def genesisState (W : Wire) (config : NodeConfig) (genesisBlock : Block) : State :=
  { initialStateFromConfig W config with
    appContext := W.blockHeader.marshal ⟨0, [], W.digest (genesisBlock.data.getD [])⟩ }

/-- The proposal of decision 0. -/
def genesisProposal (W : Wire) (config : NodeConfig) (genesisBlock : Block) : Proposal where
  payload := some (W.block.marshal genesisBlock)
  header := some <| Header.serialize W
    { num := 0
      prevHash := []
      availableCommonBlocks := [{ genesisBlock with
        metadata := genesisBlock.metadata.map (·.set indexOrderer (genesisBlockMetadataBytes W)) }]
      state := some (genesisState W config genesisBlock)
      decisionNumOfLastConfigBlock := 0 }
  metadata := none
  verificationSequence := 0

/-- `CreateConsensus` of a node that starts with an empty ledger from the genesis block. -/
def newConsensus (W : Wire) (partyID : PartyID) (config : NodeConfig) (genesisBlock : Block) : Consensus :=
  let p := genesisProposal W config genesisBlock
  { partyID
    config
    state := genesisState W config genesisBlock
    badb := []
    lastConfigBlockNum := 0
    decisionNumOfLastConfigBlock := 0
    txCount := 1
    prevHash := W.blockHeaderHash (decisionBlockHeader W 0 p [])
    storage := [createBlockToAppendFromDecision W 0 p [] [] 0]
    status := .running }

/-! ## Delivering -/

/-- The data blocks of a decision: those that are not config blocks. -/
def dataBlocks (W : Wire) (blocks : List Block) : List Block :=
  blocks.filter fun ab => ¬ isConfigBlock W ab

/-- The digests that `headerAndDigestsFromProposal` collects: the data hashes of the data blocks. -/
def digestsOf (W : Wire) (blocks : List Block) : List Bytes :=
  (dataBlocks W blocks).map fun ab => (ab.header.map (·.dataHash)).getD []

def getLastTxCountFromHeader (W : Wire) (hdr : Header) : Outcome UInt64 :=
  match hdr.availableCommonBlocks.getLast? with
  | none => .ok 0
  | some lastBlock => do
    let ordering ← (assemblerBatchIdOrderingInfoAndTxCountFromBlock W lastBlock).orPanic fun e =>
      s!"Couldn't retrieve tx count from last block; err: {e}"
    return ordering.txCount

def extractSmartBFTConfigFromBlock {W : Wire} (L : ConfigLib W) (configBlock : Block) :
    Outcome (Envelope × SharedConfig) := do
  require (isConfigBlock W configBlock = true) "not a config block"
  let data ← deref configBlock.data
  let tx ← Outcome.index data 0
  let envelope ← (W.unmarshalEnvelope tx).wrap "unable to extract config req env"
  let sharedConfig ← (Outcome.ofExcept (L.sharedConfig envelope)).wrap
    "unable to create bundle from the config req env"
  (Outcome.ofExcept (L.checkBFTConfig sharedConfig)).wrap "failed to extract bft config"
  return (envelope, sharedConfig)

namespace Consensus

variable {W : Wire} (L : ConfigLib W) (c : Consensus)

/-- `updateMetricsOnDeliver`, of which the transaction count is kept. -/
def updateTxCount (W : Wire) (hdr : Header) : Outcome Consensus := do
  let txCount ← getLastTxCountFromHeader W hdr
  return if 0 < txCount then { c with txCount } else c

/-- `configureConsensus` of a node that is running, under a new config. -/
def configureConsensus (W : Wire) (config : NodeConfig) (lastConfigBlockNum : Nat) : Outcome Consensus := do
  let (state, decisionNumOfLastConfigBlock, prevHash) ← stateFromLedger W c.storage
  let txCount ← getTxCount W c.storage
  return { c with config, state, lastConfigBlockNum, decisionNumOfLastConfigBlock, txCount, prevHash }

/-- `processNewConfigBlock` and `ApplyConfig`. -/
def applyConfig (envelope : Envelope) (configBlockNum : Nat) : Outcome Consensus :=
  let newConfig := L.nodeConfig envelope
  if c.partyID ∉ newConfig.shared.partyIDs then .ok { c with status := .pendingAdmin }
  else if L.isRestartRequired c.partyID c.config envelope then .ok { c with status := .pendingAdmin }
  else c.configureConsensus W newConfig configBlockNum

/-- The part of `Deliver` for a decision that includes a config block. -/
def deliverConfig (hdr : Header) : Outcome (Consensus × Reconfig) := do
  let configBlock ← Outcome.index hdr.availableCommonBlocks (hdr.availableCommonBlocks.length - 1)
  let header ← deref configBlock.header
  let (envelope, sharedConfig) ← (extractSmartBFTConfigFromBlock L configBlock).orPanic fun e =>
    s!"Failed extracting smartBFT config from config block: {e}"
  let counted ← c.updateTxCount W hdr
  let reconfig : Reconfig := ⟨sharedConfig.partyIDs, true⟩
  if c.lastConfigBlockNum < header.number then do
    let next ← { counted with
      decisionNumOfLastConfigBlock := hdr.num
      lastConfigBlockNum := header.number }.applyConfig L envelope header.number
    return (next, reconfig)
  else return (counted, reconfig)

/-- The state of the node once the decision is indexed and stored. A nil state would be taken over too, and
crash the node when it is next used; here it does so at once. -/
def commit (W : Wire) (p : Proposal) (hdr : Header) (signatures : List Signature) : Outcome Consensus := do
  let block := createBlockToAppendFromDecision W hdr.num p signatures c.prevHash
    hdr.decisionNumOfLastConfigBlock
  let storage ← appendBlock W c.storage block
  let state ← deref hdr.state
  return { c with
    badb := index c.badb (digestsOf W hdr.availableCommonBlocks)
    storage
    state
    prevHash := W.blockHeaderHash (decisionBlockHeader W hdr.num p c.prevHash) }

def deliver (p : Proposal) (signatures : List Signature) : Outcome (Consensus × Reconfig) := do
  let hdr ← (Header.deserialize W p.header).orPanic fun e => s!"Failed deserializing header: {e}"
  let stored ← c.commit W p hdr signatures
  if hdr.num = hdr.decisionNumOfLastConfigBlock then stored.deliverConfig L hdr
  else do
    let next ← stored.updateTxCount W hdr
    return (next, ⟨c.config.shared.partyIDs, false⟩)

end Consensus

/-! ## What a delivery does -/

def decisionBlock (W : Wire) (c : Consensus) (p : Proposal) (hdr : Header) (signatures : List Signature) : Block :=
  createBlockToAppendFromDecision W hdr.num p signatures c.prevHash hdr.decisionNumOfLastConfigBlock

theorem stored_header {W : Wire} {p : Proposal} {hdr} (hhdr : Header.deserialize W p.header = .ok hdr) :
    p.stored.header = p.header := by
  obtain ⟨raw, ph, hraw, -, -, -⟩ := Header.deserialize_eq_ok.mp hhdr
  simp [Proposal.stored, hraw]

theorem stateFromLedger_create {W : Wire} {storage : List Block} {p hdr s signatures number lastConfig prevHash md}
    (hhdr : Header.deserialize W p.header = .ok hdr) (hs : hdr.state = some s)
    (hmd : W.viewMetadata.unmarshal (p.metadata.getD []) = .ok md) :
    stateFromLedger W (storage ++ [createBlockToAppendFromDecision W number p signatures prevHash lastConfig]) =
      .ok (s, hdr.decisionNumOfLastConfigBlock, W.blockHeaderHash (decisionBlockHeader W number p prevHash)) := by
  have hblock : Outcome.index
      (storage ++ [createBlockToAppendFromDecision W number p signatures prevHash lastConfig])
      ((storage ++ [createBlockToAppendFromDecision W number p signatures prevHash lastConfig]).length - 1) =
      .ok (createBlockToAppendFromDecision W number p signatures prevHash lastConfig) :=
    Outcome.index_eq_ok.mpr (by simp)
  have hmd' : W.viewMetadata.unmarshal (p.stored.metadata.getD []) = .ok md := hmd
  have hheader : (createBlockToAppendFromDecision W number p signatures prevHash lastConfig).header =
    some (decisionBlockHeader W number p prevHash) := rfl
  simp only [stateFromLedger, hblock, ok_bind, consenterBlockToDecision_create, hmd', stored_header hhdr, hhdr,
    hs, hheader, Outcome.deref_some, Outcome.orPanic_ok, Outcome.ofExcept_ok]
  rfl

theorem stateFromLedger_concat {W storage c p hdr s signatures r}
    (hhdr : Header.deserialize W p.header = .ok hdr) (hs : hdr.state = some s)
    (h : stateFromLedger W (storage ++ [decisionBlock W c p hdr signatures]) = .ok r) :
    r = (s, hdr.decisionNumOfLastConfigBlock, W.blockHeaderHash (decisionBlockHeader W hdr.num p c.prevHash)) := by
  have hrun := h
  simp only [stateFromLedger, bind_eq_ok, index_eq_ok, orPanic_eq_ok,
    ofExcept_eq_ok] at hrun
  obtain ⟨block, hblock, ⟨proposal, sigs⟩, hdec, md, hmd, -⟩ := hrun
  obtain rfl : block = decisionBlock W c p hdr signatures := by simpa using hblock.symm
  rw [decisionBlock, consenterBlockToDecision_create] at hdec
  cases hdec
  rw [decisionBlock, stateFromLedger_create hhdr hs hmd] at h
  exact (Except.ok.inj h).symm

section TxCount

variable {W : Wire} {c : Consensus} {p : Proposal} {hdr : Header} {signatures : List Signature} {storage : List Block}

theorem availableBlocksOf_create {number lastConfig : Nat} {prevHash : Bytes}
    (hhdr : Header.deserialize W p.header = .ok hdr) :
    availableBlocksOf W (createBlockToAppendFromDecision W number p signatures prevHash lastConfig) =
      .ok hdr.availableCommonBlocks := by
  simp [availableBlocksOf, createBlockToAppendFromDecision, Outcome.index, stored_header hhdr, hhdr]

theorem availableBlocksOf_decisionBlock (hhdr : Header.deserialize W p.header = .ok hdr) :
    availableBlocksOf W (decisionBlock W c p hdr signatures) = .ok hdr.availableCommonBlocks :=
  availableBlocksOf_create hhdr

/-- After a first decision, the count is looked for from the newest decision down. -/
theorem getTxCount_concat (hne : storage ≠ []) (block : Block) :
    getTxCount W (storage ++ [block]) = txCountFrom W (block :: storage.reverse) := by
  obtain ⟨first, rest, rfl⟩ := exists_cons_of_ne_nil hne
  have hlong : ∀ b l, getTxCount W (first :: b :: l) = txCountFrom W (first :: b :: l).reverse := fun _ _ => rfl
  cases rest with
  | nil => rfl
  | cons b l =>
    rw [cons_append, cons_append, hlong, ← cons_append, ← cons_append, reverse_append]
    rfl

theorem txCountFrom_decisionBlock {t} (hhdr : Header.deserialize W p.header = .ok hdr)
    (hblocks : hdr.availableCommonBlocks ≠ []) : txCountFrom W (decisionBlock W c p hdr signatures :: storage) = .ok t ↔
      getLastTxCountFromHeader W hdr = .ok t := by
  obtain ⟨last, hlast⟩ : ∃ last, hdr.availableCommonBlocks.getLast? = some last :=
    Option.ne_none_iff_exists'.mp (by simpa using hblocks)
  rw [txCountFrom, availableBlocksOf_decisionBlock hhdr, ok_bind, getLastTxCountFromHeader, hlast]
  simp only [bind_eq_ok, orPanic_eq_ok]

end TxCount

/-- The config bookkeeping after a delivery that does not apply a config. -/
structure SameConfig (c c' : Consensus) : Prop where
  config : c'.config = c.config
  lastConfigBlockNum : c'.lastConfigBlockNum = c.lastConfigBlockNum
  decisionNumOfLastConfigBlock : c'.decisionNumOfLastConfigBlock = c.decisionNumOfLastConfigBlock
  status : c'.status = c.status

/-- The decision says that it has no config block, or its last block is a config block that is not newer
than the one the node knows. -/
def OldConfig (W : Wire) (c : Consensus) (hdr : Header) : Prop :=
  hdr.num = hdr.decisionNumOfLastConfigBlock → ∃ block header,
    hdr.availableCommonBlocks.getLast? = some block ∧ block.header = some header ∧
    isConfigBlock W block = true ∧ header.number ≤ c.lastConfigBlockNum

/-- The last block of a decision is a config block with this header and this envelope, and its number is
larger than that of the config block the node knows. -/
structure NewConfig (W : Wire) (c : Consensus) (hdr : Header) (header : BlockHeader)
    (envelope : Envelope) : Prop where
  num : hdr.num = hdr.decisionNumOfLastConfigBlock
  block : ∃ block tx, hdr.availableCommonBlocks.getLast? = some block ∧ block.header = some header ∧
    isConfigBlock W block = true ∧ block.data = some [tx] ∧ W.envelope.unmarshal tx = .ok envelope
  newer : c.lastConfigBlockNum < header.number

/-- The config bookkeeping after a delivery that applies the config of `envelope`. -/
structure Reconfigured {W : Wire} (L : ConfigLib W) (c c' : Consensus) (hdr : Header)
    (header : BlockHeader) (envelope : Envelope) : Prop where
  lastConfigBlockNum : c'.lastConfigBlockNum = header.number
  decisionNumOfLastConfigBlock : c'.decisionNumOfLastConfigBlock = hdr.num
  config : c'.status = .running →
    c'.config = L.nodeConfig envelope ∧ c.partyID ∈ (L.nodeConfig envelope).shared.partyIDs

/-- What storing the decision on `p`, whose header is `hdr` and carries the state `s`, does to a node. -/
structure Stored (W : Wire) (c : Consensus) (p : Proposal) (hdr : Header) (s : State)
    (signatures : List Signature) (c' : Consensus) : Prop where
  num : hdr.num = c.storage.length
  partyID : c'.partyID = c.partyID
  state : c'.state = s
  badb : c'.badb = index c.badb (digestsOf W hdr.availableCommonBlocks)
  storage : c'.storage = c.storage ++ [decisionBlock W c p hdr signatures]
  prevHash : c'.prevHash = W.blockHeaderHash (decisionBlockHeader W hdr.num p c.prevHash)

/-- **What delivering a decision does to a node**: it is stored, and its config is applied if it is a new
one. -/
structure Delivered {W : Wire} (L : ConfigLib W) (c : Consensus) (p : Proposal) (hdr : Header)
    (s : State) (signatures : List Signature) (c' : Consensus) : Prop
    extends Stored W c p hdr s signatures c' where
  config : (SameConfig c c' ∧ OldConfig W c hdr) ∨
    ∃ header envelope, NewConfig W c hdr header envelope ∧ Reconfigured L c c' hdr header envelope

namespace Consensus

variable {W : Wire} {L : ConfigLib W} {c c' : Consensus} {p : Proposal} {hdr : Header} {s : State}
  {signatures : List Signature}

theorem exists_updateTxCount (h : c.updateTxCount W hdr = .ok c') :
    ∃ t, getLastTxCountFromHeader W hdr = .ok t ∧ c' = { c with txCount := if 0 < t then t else c.txCount } := by
  simp only [updateTxCount, bind_eq_ok] at h
  obtain ⟨t, ht, hret⟩ := h
  refine ⟨t, ht, ?_⟩
  cases hret
  split <;> rfl

theorem updateTxCount_eq_ok (h : c.updateTxCount W hdr = .ok c') : c' = { c with txCount := c'.txCount } := by
  obtain ⟨t, -, rfl⟩ := exists_updateTxCount h
  rfl

variable {envelope : Envelope}

theorem extractSmartBFTConfigFromBlock_eq_ok {block sharedConfig}
    (h : extractSmartBFTConfigFromBlock L block = .ok (envelope, sharedConfig)) : isConfigBlock W block = true ∧
      ∃ tx, block.data = some [tx] ∧ W.envelope.unmarshal tx = .ok envelope := by
  simp only [extractSmartBFTConfigFromBlock, Wire.unmarshalEnvelope, bind_eq_ok,
    require_eq_ok, deref_eq_ok, index_eq_ok, wrap_eq_ok, ofExcept_eq_ok] at h
  obtain ⟨_, hconfig, data, hdata, tx, htx, envelope', henvelope, sc, -, _, -, hret⟩ := h
  cases hret
  refine ⟨hconfig, ?_⟩
  unfold isConfigBlock at hconfig
  split at hconfig
  · rename_i tx' hdata'
    cases hdata.symm.trans hdata'
    obtain rfl : tx' = tx := by simpa using htx
    exact ⟨tx', hdata', henvelope⟩
  · cases hconfig

theorem commit_eq_ok (hs : hdr.state = some s) (h : c.commit W p hdr signatures = .ok c') :
    Stored W c p hdr s signatures c' ∧ SameConfig c c' := by
  simp only [commit, bind_eq_ok, deref_eq_ok] at h
  obtain ⟨storage, happend, state, hstate, hret⟩ := h
  cases hs.symm.trans hstate
  obtain ⟨rfl, header, hheader, hnum⟩ := appendBlock_eq_ok happend
  cases hheader
  cases hret
  exact ⟨⟨hnum, rfl, rfl, rfl, rfl, rfl⟩, ⟨rfl, rfl, rfl, rfl⟩⟩

theorem stored_updateTxCount {c₁ c₂} (hc : Stored W c p hdr s signatures c₁)
    (h : c₁.updateTxCount W hdr = .ok c₂) : Stored W c p hdr s signatures c₂ := by
  rw [updateTxCount_eq_ok h]
  exact ⟨hc.num, hc.partyID, hc.state, hc.badb, hc.storage, hc.prevHash⟩

theorem applyConfig_eq_ok {c₁ c₂ num} (hhdr : Header.deserialize W p.header = .ok hdr) (hs : hdr.state = some s)
    (hc : Stored W c p hdr s signatures c₁) (hnum : c₁.lastConfigBlockNum = num)
    (hdn : c₁.decisionNumOfLastConfigBlock = hdr.num) (hcur : hdr.num = hdr.decisionNumOfLastConfigBlock)
    (h : c₁.applyConfig L envelope num = .ok c₂) : Stored W c p hdr s signatures c₂ ∧ c₂.lastConfigBlockNum = num ∧
      c₂.decisionNumOfLastConfigBlock = hdr.num ∧ (c₂.status = .running →
        c₂.config = L.nodeConfig envelope ∧ c.partyID ∈ (L.nodeConfig envelope).shared.partyIDs) := by
  have hparked : Stored W c p hdr s signatures { c₁ with status := .pendingAdmin } :=
    ⟨hc.num, hc.partyID, hc.state, hc.badb, hc.storage, hc.prevHash⟩
  unfold applyConfig at h
  dsimp only at h
  split at h
  · cases h
    exact ⟨hparked, hnum, hdn, fun hrun => by cases hrun⟩
  · rename_i hin
    split at h
    · cases h
      exact ⟨hparked, hnum, hdn, fun hrun => by cases hrun⟩
    · simp only [configureConsensus, bind_eq_ok] at h
      obtain ⟨⟨state, dn, prevHash⟩, hledger, txCount, -, hret⟩ := h
      rw [hc.storage] at hledger
      obtain ⟨rfl, rfl, rfl⟩ : state = s ∧ dn = hdr.decisionNumOfLastConfigBlock ∧ prevHash = _ := by
        simpa using stateFromLedger_concat hhdr hs hledger
      cases hret
      refine ⟨⟨hc.num, hc.partyID, rfl, hc.badb, hc.storage, rfl⟩, rfl, hcur.symm, fun _ => ⟨rfl, ?_⟩⟩
      rw [← hc.partyID]
      exact not_not.mp hin

theorem delivered_of_deliver {reconfig} (hhdr : Header.deserialize W p.header = .ok hdr) (hs : hdr.state = some s)
    (h : c.deliver L p signatures = .ok (c', reconfig)) : Delivered L c p hdr s signatures c' := by
  simp only [deliver, hhdr, orPanic_ok, ok_bind, bind_eq_ok] at h
  obtain ⟨stored, hcommit, h⟩ := h
  obtain ⟨hstored, hsame⟩ := commit_eq_ok hs hcommit
  split at h
  · rename_i hnum
    simp only [deliverConfig, bind_eq_ok, index_eq_ok, deref_eq_ok, orPanic_eq_ok] at h
    obtain ⟨block, hblock, header, hheader, ⟨envelope, sc⟩, hextract, counted, hcounted, h⟩ := h
    obtain ⟨hconfigBlock, tx, htx, henvelope⟩ := extractSmartBFTConfigFromBlock_eq_ok hextract
    have hcountedStored := stored_updateTxCount hstored hcounted
    have hlast : hdr.availableCommonBlocks.getLast? = some block := by
      rw [getLast?_eq_getElem?, hblock]
    dsimp only at h
    split at h
    · rename_i hnewer
      simp only [bind_eq_ok] at h
      obtain ⟨next, happly, hret⟩ := h
      cases hret
      have hmarked : Stored W c p hdr s signatures { counted with
          decisionNumOfLastConfigBlock := hdr.num, lastConfigBlockNum := header.number } :=
        ⟨hcountedStored.num, hcountedStored.partyID, hcountedStored.state, hcountedStored.badb,
          hcountedStored.storage, hcountedStored.prevHash⟩
      obtain ⟨hst, hn, hdn, hconfig⟩ := applyConfig_eq_ok hhdr hs hmarked rfl rfl hnum happly
      rw [hsame.lastConfigBlockNum] at hnewer
      exact ⟨hst, Or.inr ⟨header, envelope,
        ⟨hnum, ⟨block, tx, hlast, hheader, hconfigBlock, htx, henvelope⟩, hnewer⟩, ⟨hn, hdn, hconfig⟩⟩⟩
    · rename_i hnewer
      cases h
      rw [hsame.lastConfigBlockNum] at hnewer
      have hkeep := updateTxCount_eq_ok hcounted
      refine ⟨hcountedStored, Or.inl ⟨?_, ?_⟩⟩
      · rw [hkeep]
        exact ⟨hsame.config, hsame.lastConfigBlockNum, hsame.decisionNumOfLastConfigBlock, hsame.status⟩
      · exact fun _ => ⟨block, header, hlast, hheader, hconfigBlock, Nat.le_of_not_lt hnewer⟩
  · rename_i hnum
    simp only [bind_eq_ok] at h
    obtain ⟨next, hcounted, hret⟩ := h
    cases hret
    refine ⟨stored_updateTxCount hstored hcounted, Or.inl ⟨?_, fun h => absurd h hnum⟩⟩
    rw [updateTxCount_eq_ok hcounted]
    exact ⟨hsame.config, hsame.lastConfigBlockNum, hsame.decisionNumOfLastConfigBlock, hsame.status⟩

theorem applyConfig_txCount {num} (h : c.applyConfig L envelope num = .ok c') :
    (c'.txCount = c.txCount ∧ c'.status = .pendingAdmin) ∨ getTxCount W c.storage = .ok c'.txCount := by
  unfold applyConfig at h
  dsimp only at h
  split at h
  · cases h
    exact .inl ⟨rfl, rfl⟩
  · split at h
    · cases h
      exact .inl ⟨rfl, rfl⟩
    · simp only [configureConsensus, bind_eq_ok] at h
      obtain ⟨_, -, txCount, htx, hret⟩ := h
      cases hret
      exact .inr htx

/-- **The transaction count after a delivery.** A count of 0 is not taken over, unless the node is configured anew. -/
theorem deliver_txCount {reconfig} (hne : c.storage ≠ [])
    (hhdr : Header.deserialize W p.header = .ok hdr) (hs : hdr.state = some s)
    (h : c.deliver L p signatures = .ok (c', reconfig)) : ∃ t, getLastTxCountFromHeader W hdr = .ok t ∧
      ((hdr.availableCommonBlocks ≠ [] ∧ c'.txCount = t) ∨
        (c'.txCount = (if 0 < t then t else c.txCount) ∧ (c'.status = .running → OldConfig W c hdr))) := by
  simp only [deliver, hhdr, orPanic_ok, ok_bind, bind_eq_ok] at h
  obtain ⟨stored, hcommit, h⟩ := h
  obtain ⟨hstored, hkept⟩ := commit_eq_ok hs hcommit
  have hsame : stored.txCount = c.txCount := by
    simp only [commit, bind_eq_ok] at hcommit
    obtain ⟨_, -, _, -, hret⟩ := hcommit
    cases hret
    rfl
  split at h
  · rename_i hnum
    simp only [deliverConfig, bind_eq_ok, index_eq_ok, deref_eq_ok, orPanic_eq_ok] at h
    obtain ⟨block, hblock, header, hheader, ⟨envelope, sc⟩, hextract, counted, hcounted, h⟩ := h
    have hblocks : hdr.availableCommonBlocks ≠ [] := by
      intro hnil
      simp [hnil] at hblock
    obtain ⟨t, ht, rfl⟩ := exists_updateTxCount hcounted
    refine ⟨t, ht, ?_⟩
    dsimp only at h
    split at h
    · simp only [bind_eq_ok] at h
      obtain ⟨next, happly, hret⟩ := h
      cases hret
      rcases applyConfig_txCount happly with ⟨hcount, hparked⟩ | hread
      · exact .inr ⟨by rw [hcount, hsame], fun hrun => by rw [hparked] at hrun; cases hrun⟩
      · rw [hstored.storage, getTxCount_concat hne, txCountFrom_decisionBlock hhdr hblocks, ht] at hread
        exact .inl ⟨hblocks, (Except.ok.inj hread).symm⟩
    · rename_i hnewer
      cases h
      rw [hkept.lastConfigBlockNum] at hnewer
      have hlast : hdr.availableCommonBlocks.getLast? = some block := by
        rw [getLast?_eq_getElem?, hblock]
      exact .inr ⟨by rw [hsame], fun _ _ => ⟨block, header, hlast, hheader,
        (extractSmartBFTConfigFromBlock_eq_ok hextract).1, Nat.le_of_not_lt hnewer⟩⟩
  · rename_i hnum
    simp only [bind_eq_ok] at h
    obtain ⟨next, hcounted, hret⟩ := h
    cases hret
    obtain ⟨t, ht, rfl⟩ := exists_updateTxCount hcounted
    exact ⟨t, ht, .inr ⟨by rw [hsame], fun _ h => absurd h hnum⟩⟩

/-- **A decision without a config block is delivered**, if it is the next one of the ledger and its last
block tells its transaction count. -/
theorem deliver_of_data (hhdr : Header.deserialize W p.header = .ok hdr) (hs : hdr.state = some s)
    (hnum : hdr.num = c.storage.length) (hprev : c.prevHash = ledgerHash W c.storage)
    (hdn : hdr.num ≠ hdr.decisionNumOfLastConfigBlock) {txCount} (htx : getLastTxCountFromHeader W hdr = .ok txCount) :
    ∃ c', c.deliver L p signatures = .ok (c', ⟨c.config.shared.partyIDs, false⟩) ∧
      c'.status = c.status ∧ c'.txCount = if 0 < txCount then txCount else c.txCount := by
  have happend : appendBlock W c.storage (decisionBlock W c p hdr signatures) =
      .ok (c.storage ++ [decisionBlock W c p hdr signatures]) := by
    simp [appendBlock, decisionBlock, createBlockToAppendFromDecision, decisionBlockHeader, hnum, hprev]
  rw [decisionBlock] at happend
  simp only [deliver, hhdr, orPanic_ok, ok_bind, commit, happend, hs,
    deref_some, if_neg hdn, updateTxCount, htx, pure_eq]
  split <;> exact ⟨_, rfl, rfl, rfl⟩

end Consensus

end Arma
