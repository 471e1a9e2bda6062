import Arma.Consensus.Chain

/-!
# Restarting a consenter

Model of what a consenter recovers from its ledger when its process starts again (`configureConsensus` in
`consensus_builder.go`, `GetLastConfigBlockFromConsensusLedger` in `config/config.go`), and of the second way in which
decisions reach the ledger: the BFT synchronizer writes the blocks that it pulls (`ConsenterSupportAdapter`) and has the
node take over their state (`UpdateStateAndRuntimeConfig`). There the config of a config block is not applied at once:
`processNewConfigBlock` runs on a goroutine of its own, while the synchronizer goes on (`SyncNode.reconfigs`).

The five values that the node keeps beside its ledger are each looked for by another scan: state, previous hash and the
decision of the last config in the last decision, the transaction count in the last decision with blocks, the number of
the last config block in the last block of the decision that is said to hold it.

* `Recovers`: the scans find what the node has in memory.
* `Recovers.commit`: a decision keeps that, if the scan finds the transaction count and its config block, should it have
  one, is newer than the one the node knows.
* **`Committing.recover_eq`**: so restarting changes nothing, in the runs whose decisions are all `Restartable`.
* `recovered_count_differs`: the count that `Deliver` does not take over.
-/

namespace Arma

open Arma.Lib Outcome List Consensus

/-! ## Recovering -/

def retrieveBlockByNumber (storage : List Block) (number : Nat) : Outcome Block :=
  match storage[number]? with
  | some block => .ok block
  | none => .error (.err s!"no such block number [{number}] in index")

/-- `GetLastConfigBlockUsingBlockFromConsensusLedger`: the last block of the decision of which `block`, a decision, says
that it is the last one with a config block. -/
def getLastConfigBlockUsingBlockFromConsensusLedger (W : Wire) (storage : List Block) (block : Block) : Outcome Block :=
  match block.header, block.data with
  | none, _ => .error (.err "block header is missing")
  | some _, none => .error (.err "block data is missing")
  | some _, some [] => .error (.err "block data is missing")
  | some _, some (raw :: _) => do
    let proposal ← (bytesToProposal W raw).wrap "failed to read decision from block in consensus ledger"
    let header ← (Header.deserialize W proposal.header).wrap "failed to deserialize decision header from block"
    let decision ← (retrieveBlockByNumber storage header.decisionNumOfLastConfigBlock).wrap
      "failed to retrieve decision of the last config block from consensus ledger"
    let data ← deref decision.data
    let raw ← Outcome.index data 0
    let proposal ← (bytesToProposal W raw).wrap "failed to read proposal from last config block in consensus ledger"
    let header ← (Header.deserialize W proposal.header).wrap "failed to deserialize decision header from last block"
    Outcome.index header.availableCommonBlocks (header.availableCommonBlocks.length - 1)

def getLastConfigBlockFromConsensusLedger (W : Wire) (storage : List Block) : Outcome (Option Block) :=
  match storage.getLast? with
  | none => .ok none
  | some lastBlock => do
    let block ← getLastConfigBlockUsingBlockFromConsensusLedger W storage lastBlock
    return some block

/-- The block that a node is configured from: the last config block of its ledger, unless the bootstrap block is more
advanced. -/
def selectConfigBlock (lastStoredConfigBlock : Option Block) (bootstrapBlock : Block) : Outcome Block :=
  match lastStoredConfigBlock with
  | none => .ok bootstrapBlock
  | some stored => do
    let storedHeader ← deref stored.header
    let bootstrapHeader ← deref bootstrapBlock.header
    return if bootstrapHeader.number ≤ storedHeader.number then stored else bootstrapBlock

/-- The values that a node keeps beside its ledger. -/
structure Recovered where
  state : State
  prevHash : Bytes
  txCount : UInt64
  lastConfigBlockNum : Nat
  decisionNumOfLastConfigBlock : DecisionNum

/-- **What a node recovers** from a ledger that is not empty. -/
def recover (W : Wire) (storage : List Block) (bootstrapBlock : Block) : Outcome Recovered := do
  let lastStoredConfigBlock ← getLastConfigBlockFromConsensusLedger W storage
  let lastConfigBlock ← selectConfigBlock lastStoredConfigBlock bootstrapBlock
  let header ← deref lastConfigBlock.header
  let (state, decisionNumOfLastConfigBlock, prevHash) ← stateFromLedger W storage
  let txCount ← getTxCount W storage
  return ⟨state, prevHash, txCount, header.number, decisionNumOfLastConfigBlock⟩

/-- The values of a node. -/
def Consensus.inMemory (c : Consensus) : Recovered :=
  ⟨c.state, c.prevHash, c.txCount, c.lastConfigBlockNum, c.decisionNumOfLastConfigBlock⟩

/-! ## The synchronizer's commits -/

namespace Consensus

variable {W : Wire} (L : ConfigLib W) (c : Consensus)

def indexAndWrite (W : Wire) (block : Block) : Outcome (Consensus × Header) := do
  let proposal ← (consenterBlockToProposal W block).orPanic fun e => s!"Failed to create proposal from block: {e}"
  let hdr ← (Header.deserialize W proposal.header).orPanic fun e => s!"Failed deserializing header: {e}"
  let storage ← appendBlock W c.storage block
  return ({ c with badb := index c.badb (digestsOf W hdr.availableCommonBlocks), storage }, hdr)

/-- `UpdateStateAndRuntimeConfig`: the node takes over what the block says. With a new config block it starts a
reconfiguration, which is returned; it does not wait for it. -/
def updateStateAndRuntimeConfig (block : Block) : Outcome (Consensus × Option (Envelope × Nat)) := do
  let proposal ← (consenterBlockToProposal W block).orPanic fun e =>
    s!"Failed parsing block we pulled with BFT Synchronizer: {e}"
  let hdr ← (Header.deserialize W proposal.header).orPanic fun e => s!"Failed deserializing header: {e}"
  let state ← deref hdr.state
  let blockHeader ← deref block.header
  let updated := { c with state, prevHash := W.blockHeaderHash blockHeader }
  if hdr.num = hdr.decisionNumOfLastConfigBlock then do
    let configBlock ← Outcome.index hdr.availableCommonBlocks (hdr.availableCommonBlocks.length - 1)
    let header ← deref configBlock.header
    let (envelope, _) ← (extractSmartBFTConfigFromBlock L configBlock).orPanic fun e =>
      s!"Failed extracting smartBFT config from config block: {e}"
    let counted ← updated.updateTxCount W hdr
    if c.lastConfigBlockNum < header.number then
      return ({ counted with
        decisionNumOfLastConfigBlock := hdr.decisionNumOfLastConfigBlock
        lastConfigBlockNum := header.number }, some (envelope, header.number))
    else return (counted, none)
  else do
    let counted ← updated.updateTxCount W hdr
    return (counted, none)

/-- **The synchronizer commits a block**: `WriteBlockSync` or `WriteConfigBlock`, and `OnCommit`. -/
def commitPulled (block : Block) : Outcome (Consensus × Option (Envelope × Nat)) := do
  let (written, hdr) ← c.indexAndWrite W block
  if isConfigBlock W block = true ∧ hdr.availableCommonBlocks = [] then
    .error (.panic s!"Block {hdr.num} does not contain a config block")
  else written.updateStateAndRuntimeConfig L block

end Consensus

/-! ## What a commit does -/

/-- The config bookkeeping after a commit: it is that of the decision if its config block is new, and as before
otherwise. -/
structure Committed (W : Wire) (c : Consensus) (p : Proposal) (hdr : Header) (s : State) (signatures : List Signature)
    (c' : Consensus) : Prop extends Stored W c p hdr s signatures c' where
  txCount : ∃ t, getLastTxCountFromHeader W hdr = .ok t ∧
    (hdr.availableCommonBlocks ≠ [] ∧ c'.txCount = t ∨ c'.txCount = if 0 < t then t else c.txCount)
  config : (c'.lastConfigBlockNum = c.lastConfigBlockNum ∧
      c'.decisionNumOfLastConfigBlock = c.decisionNumOfLastConfigBlock ∧ OldConfig W c hdr) ∨
    ∃ header envelope, NewConfig W c hdr header envelope ∧ c'.lastConfigBlockNum = header.number ∧
      c'.decisionNumOfLastConfigBlock = hdr.num

section Commit

variable {W : Wire} {L : ConfigLib W} {c c' : Consensus} {p : Proposal} {hdr : Header} {s : State}
  {signatures : List Signature}

theorem committed_of_deliver {reconfig} (hne : c.storage ≠ [])
    (hhdr : Header.deserialize W p.header = .ok hdr) (hs : hdr.state = some s)
    (h : c.deliver L p signatures = .ok (c', reconfig)) : Committed W c p hdr s signatures c' := by
  have hd := delivered_of_deliver hhdr hs h
  obtain ⟨t, ht, htx⟩ := deliver_txCount hne hhdr hs h
  refine ⟨hd.toStored, ⟨t, ht, htx.imp_right And.left⟩, ?_⟩
  rcases hd.config with ⟨hsame, hold⟩ | ⟨header, envelope, hnew, hre⟩
  · exact .inl ⟨hsame.lastConfigBlockNum, hsame.decisionNumOfLastConfigBlock, hold⟩
  · exact .inr ⟨header, envelope, hnew, hre.lastConfigBlockNum, hre.decisionNumOfLastConfigBlock⟩

theorem consenterBlockToProposal_decisionBlock :
    consenterBlockToProposal W (decisionBlock W c p hdr signatures) = .ok p.stored :=
  bytesToProposal_proposalToBytes W p

theorem stored_of_indexAndWrite {written hdr'} (hhdr : Header.deserialize W p.header = .ok hdr)
    (h : c.indexAndWrite W (decisionBlock W c p hdr signatures) = .ok (written, hdr')) :
    hdr' = hdr ∧ SameConfig c written ∧ written.txCount = c.txCount ∧ Stored W c p hdr s signatures { written with
        state := s, prevHash := W.blockHeaderHash (decisionBlockHeader W hdr.num p c.prevHash) } := by
  simp only [indexAndWrite, consenterBlockToProposal_decisionBlock, orPanic_ok, ok_bind,
    stored_header hhdr, hhdr, bind_eq_ok] at h
  obtain ⟨storage, happend, hret⟩ := h
  obtain ⟨rfl, header, hheader, hnum⟩ := appendBlock_eq_ok happend
  cases hheader
  cases hret
  exact ⟨rfl, ⟨rfl, rfl, rfl, rfl⟩, rfl, ⟨hnum, rfl, rfl, rfl, rfl, rfl⟩⟩

/-- **What a commit of the synchronizer does**: what a delivery does, but that the reconfiguration it starts is still to
be made. -/
theorem committed_of_commitPulled {started} (hhdr : Header.deserialize W p.header = .ok hdr) (hs : hdr.state = some s)
    (h : c.commitPulled L (decisionBlock W c p hdr signatures) = .ok (c', started)) :
    Committed W c p hdr s signatures c' ∧ c'.status = c.status ∧ c'.config = c.config ∧
      ∀ envelope num, started = some (envelope, num) → num = c'.lastConfigBlockNum := by
  simp only [commitPulled, bind_eq_ok] at h
  obtain ⟨⟨written, hdr'⟩, hwritten, h⟩ := h
  obtain ⟨rfl, hsame, hcount, hstored⟩ := @stored_of_indexAndWrite W c p hdr s signatures _ _ hhdr hwritten
  have hheader : (decisionBlock W c p hdr' signatures).header = some (decisionBlockHeader W hdr'.num p c.prevHash) :=
    rfl
  -- count and config bookkeeping are not among what is stored
  have hkept : ∀ t lastConfigBlockNum dn, Stored W c p hdr' s signatures { written with
      state := s, prevHash := W.blockHeaderHash (decisionBlockHeader W hdr'.num p c.prevHash), txCount := t,
      lastConfigBlockNum, decisionNumOfLastConfigBlock := dn } := fun _ _ _ =>
    ⟨hstored.num, hstored.partyID, hstored.state, hstored.badb, hstored.storage, hstored.prevHash⟩
  dsimp only at h
  split at h
  · cases h
  · simp only [updateStateAndRuntimeConfig, consenterBlockToProposal_decisionBlock, orPanic_ok,
      ok_bind, stored_header hhdr, hhdr, hs, hheader, deref_some] at h
    split at h
    · rename_i hnum
      simp only [bind_eq_ok, index_eq_ok, deref_eq_ok, orPanic_eq_ok] at h
      obtain ⟨block, hblock, header, hblockHeader, ⟨envelope, sc⟩, hextract, counted, hcounted, h⟩ := h
      obtain ⟨t, ht, rfl⟩ := exists_updateTxCount hcounted
      obtain ⟨hconfigBlock, tx, htx, henvelope⟩ := extractSmartBFTConfigFromBlock_eq_ok hextract
      have hlast : hdr'.availableCommonBlocks.getLast? = some block := by
        rw [getLast?_eq_getElem?, hblock]
      dsimp only at h
      split at h
      · rename_i hnewer
        cases h
        rw [hsame.lastConfigBlockNum] at hnewer
        refine ⟨⟨hkept _ _ _, ⟨t, ht, .inr (by rw [hcount])⟩, .inr ⟨header, envelope, ⟨hnum, ⟨block, tx, hlast,
          hblockHeader, hconfigBlock, htx, henvelope⟩, hnewer⟩, rfl, hnum.symm⟩⟩, hsame.status, hsame.config, ?_⟩
        rintro e n ⟨⟩
        rfl
      · rename_i hnewer
        cases h
        rw [hsame.lastConfigBlockNum] at hnewer
        refine ⟨⟨hkept _ _ _, ⟨t, ht, .inr (by rw [hcount])⟩, .inl ⟨hsame.lastConfigBlockNum,
          hsame.decisionNumOfLastConfigBlock, fun _ => ⟨block, header, hlast, hblockHeader, hconfigBlock,
            Nat.le_of_not_lt hnewer⟩⟩⟩, hsame.status, hsame.config, fun _ _ hstarted => by cases hstarted⟩
    · rename_i hnum
      simp only [bind_eq_ok] at h
      obtain ⟨counted, hcounted, hret⟩ := h
      cases hret
      obtain ⟨t, ht, rfl⟩ := exists_updateTxCount hcounted
      exact ⟨⟨hkept _ _ _, ⟨t, ht, .inr (by rw [hcount])⟩, .inl ⟨hsame.lastConfigBlockNum,
        hsame.decisionNumOfLastConfigBlock, fun heq => absurd heq hnum⟩⟩, hsame.status, hsame.config,
        fun _ _ hstarted => by cases hstarted⟩

end Commit

/-! ## The ledger tells what is in memory -/

structure Recovers (W : Wire) (c : Consensus) : Prop where
  state : stateFromLedger W c.storage = .ok (c.state, c.decisionNumOfLastConfigBlock, c.prevHash)
  count : getTxCount W c.storage = .ok c.txCount
  /-- The scan for the count finds it in the genesis decision too, should no later one have blocks. -/
  countFrom : txCountFrom W c.storage.reverse = .ok c.txCount
  config : ∃ decision blocks block header, c.storage[c.decisionNumOfLastConfigBlock]? = some decision ∧
    availableBlocksOf W decision = .ok blocks ∧ blocks.getLast? = some block ∧ block.header = some header ∧
    header.number = c.lastConfigBlockNum

/-- The genesis block as it is stored, with its ORDERER entry filled in. -/
def storedGenesisBlock (W : Wire) (genesisBlock : Block) : Block :=
  { genesisBlock with metadata := genesisBlock.metadata.map (·.set indexOrderer (genesisBlockMetadataBytes W)) }

/-- A genesis block that a node can be started from: it has the number 0, and its metadata can be read once the ORDERER
entry is filled in. -/
structure BootBlock (W : Wire) (genesisBlock : Block) : Prop where
  header : ∃ header, genesisBlock.header = some header ∧ header.number = 0
  readable : ∃ o, assemblerBatchIdOrderingInfoAndTxCountFromBlock W (storedGenesisBlock W genesisBlock) = .ok o

section Recovers

variable {W : Wire} {L : ConfigLib W} {c c' : Consensus} {p : Proposal} {hdr : Header} {s : State}
  {signatures : List Signature} {storage : List Block}

theorem lastDecision_of_stateFromLedger {r} (h : stateFromLedger W storage = .ok r) :
    ∃ block header raw rest proposal hdr, storage.getLast? = some block ∧ block.header = some header ∧
      block.data = some (raw :: rest) ∧ bytesToProposal W raw = .ok proposal ∧
      Header.deserialize W proposal.header = .ok hdr ∧ hdr.decisionNumOfLastConfigBlock = r.2.1 := by
  simp only [stateFromLedger, bind_eq_ok, index_eq_ok, orPanic_eq_ok, deref_eq_ok] at h
  obtain ⟨block, hblock, ⟨proposal, sigs⟩, hdecision, md, -, hdr, hhdr, state, -, header, hheader, hret⟩ := h
  rw [← getLast?_eq_getElem?] at hblock
  simp only [consenterBlockToDecision, bind_eq_ok, wrap_eq_ok] at hdecision
  obtain ⟨proposal', hproposal, sigs', -, hpair⟩ := hdecision
  obtain ⟨rfl, -⟩ := Prod.mk.inj (Except.ok.inj hpair)
  simp only [consenterBlockToProposal, hheader] at hproposal
  split at hproposal
  · rename_i raw rest hdata
    cases hret
    exact ⟨block, header, raw, rest, proposal', hdr, hblock, hheader, hdata, hproposal, hhdr, rfl⟩
  · cases hproposal

theorem Recovers.getLastConfigBlock (hc : Recovers W c) :
    ∃ block header, getLastConfigBlockFromConsensusLedger W c.storage = .ok (some block) ∧
      block.header = some header ∧ header.number = c.lastConfigBlockNum := by
  obtain ⟨last, lastHeader, raw, rest, proposal, hdr, hlast, hheader, hdata, hproposal, hhdr, hdn⟩ :=
    lastDecision_of_stateFromLedger hc.state
  obtain ⟨decision, blocks, block, header, hdecision, hblocks, hblock, hblockHeader, hnumber⟩ := hc.config
  refine ⟨block, header, ?_, hblockHeader, hnumber⟩
  simp only [availableBlocksOf, bind_eq_ok, deref_eq_ok, orPanic_eq_ok] at hblocks
  obtain ⟨data, hdata', raw', hraw', proposal', hproposal', hdr', hhdr', hret⟩ := hblocks
  cases hret
  rw [getLast?_eq_getElem?] at hblock
  simp only [getLastConfigBlockFromConsensusLedger, hlast, getLastConfigBlockUsingBlockFromConsensusLedger, hheader,
    hdata, hproposal, hhdr, hdn, retrieveBlockByNumber, hdecision, hdata', hraw', hproposal', hhdr',
    index_eq_ok.mpr hblock, deref_some, wrap_ok, ok_bind, pure_eq]

/-- **Restarting such a node changes nothing.** -/
theorem Recovers.recover_inMemory (hc : Recovers W c) {bootstrapBlock} (hboot : BootBlock W bootstrapBlock) :
    recover W c.storage bootstrapBlock = .ok c.inMemory := by
  obtain ⟨block, header, hblock, hheader, hnumber⟩ := hc.getLastConfigBlock
  obtain ⟨bootHeader, hbootHeader, hzero⟩ := hboot.header
  have hselect : selectConfigBlock (some block) bootstrapBlock = .ok block := by
    have hle : bootHeader.number ≤ header.number := hzero ▸ Nat.zero_le _
    simp [selectConfigBlock, hheader, hbootHeader, hle]
  simp only [recover, hblock, hselect, hheader, hc.state, hc.count, hnumber, deref_some, ok_bind, pure_eq]
  rfl

theorem deserialize_genesisProposal {config genesisBlock} :
    ∃ hdr, Header.deserialize W (genesisProposal W config genesisBlock).header = .ok hdr ∧
      hdr.state = some (genesisState W config genesisBlock) ∧ hdr.decisionNumOfLastConfigBlock = 0 ∧
      hdr.availableCommonBlocks = [storedGenesisBlock W genesisBlock] := by
  have hsound := (genesisState_wellFormed config genesisBlock : State.WellFormed W _).sound
  refine ⟨_, Header.deserialize_serialize W _ rfl (.inl hsound.n_ne_zero), ?_, rfl, rfl⟩
  exact congrArg some hsound.refresh_eq

/-- The ORDERER entry of the genesis block is that of a config block of one transaction. -/
theorem assemblerBlockMetadataFromBytes_genesis (W : Wire) :
    assemblerBlockMetadataFromBytes W (genesisBlockMetadataBytes W) =
      .ok ⟨configBatchID.primary, configBatchID.shard, configBatchID.seq, 0, 0, 0, 1⟩ := by
  have hne : assemblerBlockMetadataToBytes W configBatchID ⟨0, 0, 0⟩ 1 ≠ [] :=
    assemblerBlockMetadataToBytes_ne_nil (.inl (by decide))
  exact assemblerBlockMetadataFromBytes_toBytes hne

theorem txCount_storedGenesisBlock {genesisBlock o}
    (h : assemblerBatchIdOrderingInfoAndTxCountFromBlock W (storedGenesisBlock W genesisBlock) = .ok o) :
    o.txCount = 1 := by
  obtain ⟨_, md, orderer, v, -, hmd, horderer, hv, -, -, hcount⟩ := blockOrdering_eq_ok h
  obtain ⟨old, -, rfl⟩ := Option.map_eq_some_iff.mp hmd
  obtain rfl : genesisBlockMetadataBytes W = orderer := by
    rw [getElem?_set_self'] at horderer
    obtain ⟨_, -, heq⟩ := Option.map_eq_some_iff.mp horderer
    exact heq
  cases ((assemblerBlockMetadataFromBytes_genesis W).symm.trans hv)
  exact hcount

theorem recovers_newConsensus {partyID config genesisBlock}
    (hboot : BootBlock W genesisBlock) : Recovers W (newConsensus W partyID config genesisBlock) := by
  obtain ⟨hdr, hhdr, hs, hdn, hblocks⟩ := @deserialize_genesisProposal W config genesisBlock
  obtain ⟨header, hheader, hzero⟩ := hboot.header
  obtain ⟨o, ho⟩ := hboot.readable
  have havailable := @availableBlocksOf_create W (genesisProposal W config genesisBlock) hdr [] 0 0 [] hhdr
  have hstate := @stateFromLedger_create W [] (genesisProposal W config genesisBlock) hdr _ [] 0 0 [] default hhdr hs
    W.viewMetadata.unmarshal_nil
  rw [hdn] at hstate
  rw [hblocks] at havailable
  refine ⟨hstate, rfl, ?_, _, _, storedGenesisBlock W genesisBlock, header, rfl, havailable, rfl, hheader, hzero⟩
  change txCountFrom W [_] = .ok 1
  rw [txCountFrom, havailable, ok_bind, getLast?_singleton]
  simp only [ho, orPanic_ok, ok_bind, txCount_storedGenesisBlock ho]
  rfl

/-- What every proposal that a node of the same view accepts has: its metadata can be read, and the decision of the last
config block is the one the node knows, or this one. -/
structure Proper (W : Wire) (c : Consensus) (p : Proposal) (hdr : Header) (s : State) : Prop where
  header : Header.deserialize W p.header = .ok hdr
  state : hdr.state = some s
  metadata : ∃ md, W.viewMetadata.unmarshal (p.metadata.getD []) = .ok md
  lastConfig : hdr.decisionNumOfLastConfigBlock = hdr.num ∨
    hdr.decisionNumOfLastConfigBlock = c.decisionNumOfLastConfigBlock

theorem proper_of_verifyProposal {v : Consensus} {reqInfos}
    (hview : v.decisionNumOfLastConfigBlock = c.decisionNumOfLastConfigBlock)
    (h : v.verifyProposal L p = .ok reqInfos) : ∃ hdr s, Proper W c p hdr s := by
  obtain ⟨d, hd, hnum, -, -, hverify⟩ := verifyProposal_eq_ok.mp h
  obtain ⟨header, hheader, hhdr⟩ := hd.header
  obtain ⟨metadata, hmetadata, hmd⟩ := hd.metadata
  obtain ⟨r, -, hdn, -⟩ := verifyHeader_eq_ok.mp hverify
  refine ⟨d.header, d.state, by rw [hheader]; exact hhdr, hd.state, ⟨d.md, by rw [hmetadata]; exact hmd⟩, ?_⟩
  rw [hdn, nextDecisionNumOfLastConfigBlock, ← hview, ← hnum]
  split
  · exact .inr rfl
  · exact .inl rfl

/-- The last block of a decision is newer than the last config block the node knows. -/
def NewerConfig (c : Consensus) (hdr : Header) : Prop :=
  ∃ block header, hdr.availableCommonBlocks.getLast? = some block ∧ block.header = some header ∧
    c.lastConfigBlockNum < header.number

theorem NewerConfig.not_oldConfig (h : NewerConfig c hdr) (hnum : hdr.num = hdr.decisionNumOfLastConfigBlock) :
    ¬ OldConfig W c hdr := by
  intro hold
  obtain ⟨block, header, hlast, hheader, hnewer⟩ := h
  obtain ⟨block', header', hlast', hheader', -, hle⟩ := hold hnum
  cases hlast.symm.trans hlast'
  cases hheader.symm.trans hheader'
  exact absurd hnewer (Nat.not_lt_of_le hle)

theorem Recovers.storage_ne_nil (hc : Recovers W c) : c.storage ≠ [] := by
  intro hnil
  obtain ⟨block, _, _, _, _, _, hlast, -⟩ := lastDecision_of_stateFromLedger hc.state
  simp [hnil] at hlast

/-- The count after a commit is the one that the scan finds, if the decision's last block does not tell the count 0. -/
theorem Recovers.txCountFrom_commit (hc : Recovers W c) (hhdr : Header.deserialize W p.header = .ok hdr)
    (hcount : hdr.availableCommonBlocks ≠ [] → getLastTxCountFromHeader W hdr ≠ .ok 0)
    (h : Committed W c p hdr s signatures c') :
    txCountFrom W (decisionBlock W c p hdr signatures :: c.storage.reverse) = .ok c'.txCount := by
  obtain ⟨t, ht, htx⟩ := h.txCount
  by_cases hblocks : hdr.availableCommonBlocks = []
  · rw [txCountFrom, availableBlocksOf_decisionBlock hhdr, ok_bind, hblocks]
    -- a decision without blocks is skipped
    change txCountFrom W c.storage.reverse = _
    rw [hc.countFrom]
    have hzero : t = 0 := by
      rw [getLastTxCountFromHeader, hblocks] at ht
      exact (Except.ok.inj ht).symm
    rcases htx with ⟨hne, -⟩ | htx
    · exact absurd hblocks hne
    · rw [htx, hzero, if_neg (by decide)]
  · rw [txCountFrom_decisionBlock hhdr hblocks, ht]
    rcases htx with ⟨-, htx⟩ | htx
    · rw [htx]
    · have hpos : 0 < t := UInt64.pos_iff_ne_zero.mpr fun hzero => hcount hblocks (hzero ▸ ht)
      rw [htx, if_pos hpos]

/-- **A commit keeps the ledger and the memory together**, if the scan finds the count, and the decision's last block is
newer than the last config block, should it be a config block. -/
theorem Recovers.commit (hc : Recovers W c) (hp : Proper W c p hdr s)
    (hfrom : txCountFrom W (decisionBlock W c p hdr signatures :: c.storage.reverse) = .ok c'.txCount)
    (hconfig : hdr.num = hdr.decisionNumOfLastConfigBlock → NewerConfig c hdr)
    (h : Committed W c p hdr s signatures c') : Recovers W c' := by
  obtain ⟨md, hmd⟩ := hp.metadata
  have hstate : stateFromLedger W c'.storage = .ok (s, hdr.decisionNumOfLastConfigBlock, c'.prevHash) := by
    rw [h.storage, h.prevHash]
    exact stateFromLedger_create hp.header hp.state hmd
  have hstored : c'.storage[hdr.num]? = some (decisionBlock W c p hdr signatures) := by
    rw [h.storage, h.num, getElem?_concat_length]
  refine ⟨?_, ?_, ?_, ?_⟩
  · rw [hstate, h.state]
    rcases h.config with ⟨-, hdn, hold⟩ | ⟨header, envelope, hnew, -, hdn⟩
    · have hnum : hdr.num ≠ hdr.decisionNumOfLastConfigBlock := fun hnum => (hconfig hnum).not_oldConfig hnum hold
      rw [hdn, hp.lastConfig.resolve_left hnum.symm]
    · rw [hdn, hnew.num]
  · rw [h.storage, getTxCount_concat hc.storage_ne_nil, hfrom]
  · rw [h.storage, reverse_append]
    exact hfrom
  · rcases h.config with ⟨hlast, hdn, -⟩ | ⟨header, envelope, hnew, hlast, hdn⟩
    · obtain ⟨decision, blocks, block, header, hdecision, hrest⟩ := hc.config
      have hlt := lt_of_getElem? hdecision
      refine ⟨decision, blocks, block, header, ?_, by rwa [hlast]⟩
      rw [hdn, h.storage, getElem?_append_left hlt, hdecision]
    · obtain ⟨block, tx, hblock, hheader, -⟩ := hnew.block
      exact ⟨_, _, block, header, hdn ▸ hstored, availableBlocksOf_decisionBlock hp.header, hblock, hheader, hlast.symm⟩

theorem Recovers.congr (hc : Recovers W c) (hstorage : c'.storage = c.storage) (hmemory : c'.inMemory = c.inMemory) :
    Recovers W c' := by
  simp only [inMemory, Recovered.mk.injEq] at hmemory
  obtain ⟨hstate, hprev, hcount, hlast, hdn⟩ := hmemory
  exact ⟨by rw [hstorage, hc.state, hstate, hdn, hprev], by rw [hstorage, hc.count, hcount],
    by rw [hstorage, hc.countFrom, hcount], by rw [hstorage, hdn, hlast]; exact hc.config⟩

/-- Applying the last config reads back from the ledger what the node has in memory. -/
theorem Recovers.applyConfig {envelope} (hc : Recovers W c)
    (h : c.applyConfig L envelope c.lastConfigBlockNum = .ok c') :
    c'.storage = c.storage ∧ c'.inMemory = c.inMemory := by
  unfold Consensus.applyConfig at h
  dsimp only at h
  split at h
  · cases h
    exact ⟨rfl, rfl⟩
  · split at h
    · cases h
      exact ⟨rfl, rfl⟩
    · simp only [configureConsensus, hc.state, hc.count, ok_bind] at h
      cases h
      exact ⟨rfl, rfl⟩

end Recovers

/-! ## Runs -/

/-- A node, and the reconfigurations that its synchronizer started and that are not yet made. -/
structure SyncNode where
  node : Consensus
  reconfigs : List (Envelope × Nat)

/-- **The runs of one consenter** from its genesis block, by `Deliver` and by the commits of its synchronizer, whose
decisions all meet a condition. -/
inductive Committing {W : Wire} (L : ConfigLib W) (Q : SyncNode → Header → Prop) (genesisBlock : Block) :
    SyncNode → Prop
  | start {partyID config} : Committing L Q genesisBlock ⟨newConsensus W partyID config genesisBlock, []⟩
  | deliver {n c' p hdr s signatures reconfig} (hrun : Committing L Q genesisBlock n)
      (hrunning : n.node.status = .running)
      (hproper : Proper W n.node p hdr s) (hcond : Q n hdr)
      (hdeliver : n.node.deliver L p signatures = .ok (c', reconfig)) :
      Committing L Q genesisBlock { n with node := c' }
  | sync {n c' p hdr s signatures started} (hrun : Committing L Q genesisBlock n)
      (hrunning : n.node.status = .running) (hproper : Proper W n.node p hdr s) (hcond : Q n hdr)
      (hcommit : n.node.commitPulled L (decisionBlock W n.node p hdr signatures) = .ok (c', started)) :
      Committing L Q genesisBlock ⟨c', started.toList ++ n.reconfigs⟩
  | reconfigure {n c' envelope num} (hrun : Committing L Q genesisBlock n) (hstarted : (envelope, num) ∈ n.reconfigs)
      (happly : n.node.applyConfig L envelope num = .ok c') :
      Committing L Q genesisBlock ⟨c', n.reconfigs.erase (envelope, num)⟩

/-- The condition that keeps a node restartable. -/
structure Restartable (W : Wire) (n : SyncNode) (hdr : Header) : Prop where
  /-- The last block of the decision does not tell the count 0. -/
  count : hdr.availableCommonBlocks ≠ [] → getLastTxCountFromHeader W hdr ≠ .ok 0
  /-- A decision that says it has a config block ends with a newer one, and no reconfiguration is under way. -/
  config : hdr.num = hdr.decisionNumOfLastConfigBlock → n.reconfigs = [] ∧ NewerConfig n.node hdr

section Committing

variable {W : Wire} {L : ConfigLib W} {genesisBlock : Block} {n : SyncNode} {c c' : Consensus} {p : Proposal}
  {hdr : Header} {s : State} {signatures : List Signature}

theorem Committing.mono {Q Q'} (hQ : ∀ n hdr, Q n hdr → Q' n hdr)
    (h : Committing L Q genesisBlock n) : Committing L Q' genesisBlock n := by
  induction h with
  | start => exact .start
  | deliver _ hrunning hp hcond hdeliver ih => exact .deliver ih hrunning hp (hQ _ _ hcond) hdeliver
  | sync _ hrunning hp hcond hcommit ih => exact .sync ih hrunning hp (hQ _ _ hcond) hcommit
  | reconfigure _ hstarted happly ih => exact .reconfigure ih hstarted happly

/-- What a run of restartable decisions keeps. A reconfiguration that is under way is the one to the last config. -/
structure SyncNode.Steady (W : Wire) (n : SyncNode) : Prop where
  recovers : Recovers W n.node
  reconfigs : ∀ envelope num, (envelope, num) ∈ n.reconfigs → num = n.node.lastConfigBlockNum

/-- A commit of a restartable decision, in either way, leaves the reconfigurations under way the ones to the last
config. -/
theorem SyncNode.Steady.commit (hn : n.Steady W) (hp : Proper W n.node p hdr s) (hcond : Restartable W n hdr)
    (h : Committed W n.node p hdr s signatures c') : SyncNode.Steady W { n with node := c' } := by
  have hfrom := hn.recovers.txCountFrom_commit hp.header hcond.count h
  refine ⟨hn.recovers.commit hp hfrom (fun hnum => (hcond.config hnum).2) h, fun envelope num hmem => ?_⟩
  by_cases hnum : hdr.num = hdr.decisionNumOfLastConfigBlock
  · rw [(hcond.config hnum).1] at hmem
    cases hmem
  · rcases h.config with ⟨hlast, -⟩ | ⟨_, _, hnew, -⟩
    · exact (hn.reconfigs envelope num hmem).trans hlast.symm
    · exact absurd hnew.num hnum

theorem Committing.steady (hboot : BootBlock W genesisBlock) (h : Committing L (Restartable W) genesisBlock n) :
    n.Steady W := by
  induction h with
  | start => exact ⟨recovers_newConsensus hboot, fun _ _ hmem => by cases hmem⟩
  | deliver _ _ hp hcond hdeliver ih =>
    exact ih.commit hp hcond (committed_of_deliver ih.recovers.storage_ne_nil hp.header hp.state hdeliver)
  | sync _ _ hp hcond hcommit ih =>
    obtain ⟨hcommitted, -, -, hstarted⟩ := committed_of_commitPulled hp.header hp.state hcommit
    have hsteady := ih.commit hp hcond hcommitted
    refine ⟨hsteady.recovers, fun envelope num hmem => ?_⟩
    rcases mem_append.mp hmem with hnew | hold
    · exact hstarted envelope num (Option.mem_toList.mp hnew)
    · exact hsteady.reconfigs envelope num hold
  | reconfigure _ hmem happly ih =>
    obtain rfl := ih.reconfigs _ _ hmem
    obtain ⟨hstorage, hmemory⟩ := ih.recovers.applyConfig happly
    refine ⟨ih.recovers.congr hstorage hmemory, fun envelope num hmem' => ?_⟩
    rw [ih.reconfigs envelope num (mem_of_mem_erase hmem')]
    exact (congrArg Recovered.lastConfigBlockNum hmemory).symm

/-- **Restarting a consenter changes nothing**: after every run of restartable decisions, what is recovered from the
ledger is what the node that never restarted has in memory. -/
theorem Committing.recover_eq (hboot : BootBlock W genesisBlock) (h : Committing L (Restartable W) genesisBlock n) :
    recover W n.node.storage genesisBlock = .ok n.node.inMemory :=
  (h.steady hboot).recovers.recover_inMemory hboot

theorem bootBlock_newBlock : BootBlock W (newBlock 0 []) := by
  refine ⟨⟨_, rfl, rfl⟩, ?_⟩
  have hsigs : getMetadataFromBlock W (storedGenesisBlock W (newBlock 0 [])) indexSignatures "SIGNATURES" =
      .ok default := by
    simp [getMetadataFromBlock, storedGenesisBlock, newBlock, initBlockMetadata, indexSignatures, indexOrderer,
      numMetadataIndices, W.metadata.unmarshal_nil]
  have hheader : (storedGenesisBlock W (newBlock 0 [])).header = some ⟨0, [], []⟩ := rfl
  have hmd : (storedGenesisBlock W (newBlock 0 [])).metadata =
    some (initBlockMetadata.set indexOrderer (genesisBlockMetadataBytes W)) := rfl
  simp only [assemblerBatchIdOrderingInfoAndTxCountFromBlock, hheader, hmd, hsigs, initBlockMetadata,
    numMetadataIndices, indexOrderer, replicate, List.set, getElem?_cons_succ, getElem?_cons_zero,
    assemblerBlockMetadataFromBytes_genesis, wrap_ok, ok_bind]
  exact ⟨_, rfl⟩

theorem Idle.deliver {b : BAF} (hc : Idle W c) (hseq : b.configSequence = 0) (hshard : b.shard = 1)
    (hnew : b.digest ∉ c.badb) :
    ∃ (p : Proposal) (hdr : Header) (s : State) (c' : Consensus) (reconfig : Reconfig), Proper W c p hdr s ∧
      hdr.num ≠ hdr.decisionNumOfLastConfigBlock ∧ hdr.availableCommonBlocks ≠ [] ∧
      getLastTxCountFromHeader W hdr = .ok (c.txCount + b.txCount) ∧ c.deliver L p [] = .ok (c', reconfig) ∧
      c'.txCount = if 0 < c.txCount + b.txCount then c.txCount + b.txCount else c.txCount := by
  obtain ⟨r, c', s, hsim, hr, hfragments, hrs, hdeliver, hidle, hbadb, htx⟩ := @Idle.decide W L c b hc hseq hshard hnew
  obtain ⟨hne, hdn, hcount⟩ := hc.header hfragments hrs
  refine ⟨_, r.header W c c.storage.length, _, c', _, ⟨hr.deserialize_header hc.wellFormed _, rfl,
    ⟨_, Codec.unmarshal_marshal _ _⟩, .inr hdn⟩, ?_, ?_, hcount, hdeliver, htx⟩
  · rw [hdn]
    exact hc.lastConfig.ne'
  · simpa [Computed.header] using hne

end Committing

/-- The run of one decision on a batch of five transactions: the restarted node counts six, with the genesis block. -/
theorem recover_eq_firstBatch : ∃ n, Committing soleLib (Restartable refWire) (newBlock 0 []) n ∧
      n.node.txCount = 6 ∧ recover refWire n.node.storage (newBlock 0 []) = .ok n.node.inMemory := by
  let b : BAF := { firstBatchBy 1 with txCount := 5 }
  obtain ⟨p, hdr, s, c', reconfig, hp, hnum, -, hcount, hdeliver, htx⟩ :=
    (idle_newConsensus (newBlock 0 [])).deliver (L := soleLib) (b := b) rfl rfl not_mem_nil
  have hrun : Committing soleLib (Restartable refWire) (newBlock 0 []) ⟨c', []⟩ := by
    refine .deliver .start rfl hp ⟨fun _ hzero => ?_, fun h => absurd h hnum⟩ hdeliver
    rw [hcount] at hzero
    exact absurd (Except.ok.inj hzero) (by decide)
  exact ⟨_, hrun, htx, Committing.recover_eq bootBlock_newBlock hrun⟩

/-- The condition that lets every decision through. -/
def anyDecision : SyncNode → Header → Prop := fun _ _ => True

/-- **A transaction count that a restart changes**: the first batch has `2 ^ 64 - 1` transactions, so that with the
genesis block the count is 0. `Deliver` takes it for that of a decision without blocks and stays at 1, a restarted node
reads the 0. -/
theorem recovered_count_differs : ∃ n r, Committing soleLib anyDecision (newBlock 0 []) n ∧ n.reconfigs = [] ∧
      recover refWire n.node.storage (newBlock 0 []) = .ok r ∧ n.node.txCount = 1 ∧ r.txCount = 0 ∧
      recover refWire n.node.storage (newBlock 0 []) ≠ .ok n.node.inMemory := by
  let b : BAF := { firstBatchBy 1 with txCount := 18446744073709551615 }
  obtain ⟨p, hdr, s, c', reconfig, hp, hnum, hblocks, hcount, hdeliver, htx⟩ :=
    (idle_newConsensus (newBlock 0 [])).deliver (L := soleLib) (b := b) rfl rfl not_mem_nil
  have hsum : (newConsensus refWire 1 (.permissive 0 oneParty) (newBlock 0 [])).txCount + b.txCount = 0 :=
    show (1 : UInt64) + 18446744073709551615 = 0 by decide
  rw [hsum] at hcount htx
  have hgenesis := @recovers_newConsensus refWire 1 (.permissive 0 oneParty) _ bootBlock_newBlock
  have hcommitted := committed_of_deliver hgenesis.storage_ne_nil hp.header hp.state hdeliver
  -- the ledger is that of the node with the count 0
  let reread : Consensus := { c' with txCount := 0 }
  have hreread : Committed refWire _ p hdr s [] reread :=
    ⟨⟨hcommitted.num, hcommitted.partyID, hcommitted.state, hcommitted.badb, hcommitted.storage, hcommitted.prevHash⟩,
      ⟨0, hcount, .inl ⟨hblocks, rfl⟩⟩, hcommitted.config⟩
  have hrecover : recover refWire c'.storage (newBlock 0 []) = .ok reread.inMemory :=
    (hgenesis.commit hp ((txCountFrom_decisionBlock hp.header hblocks).mpr hcount) (fun h => absurd h hnum)
      hreread).recover_inMemory bootBlock_newBlock
  refine ⟨⟨c', []⟩, _, .deliver .start rfl hp trivial hdeliver, rfl, hrecover, htx, rfl, ?_⟩
  intro heq
  have hcounts : (0 : UInt64) = c'.txCount := congrArg Recovered.txCount (Except.ok.inj (hrecover.symm.trans heq))
  rw [htx] at hcounts
  exact absurd hcounts (by decide)

end Arma
