import Arma.Consensus.Blocks
import Arma.Consensus.Consenter

/-!
# Assembling and verifying a proposal

Model of `Consensus.AssembleProposal` and `Consensus.VerifyProposal` (`node/consensus/consensus.go`). The
leader runs the state transition on the requests and builds a chain of blocks: a data block for each
group of fragments, then a config block for the first config request. A follower runs the same transition,
walks its own groups, and compares the block at each index of the leader's list with what it computed.

The two walks are two pieces of code, `createDataBlocks` and `verifyDataBlocks`; `Plan.lean` says what both
of them are about.
-/

namespace Arma

open Arma.Lib Outcome

/-- The variables both walks carry: the last block's number, its hash, and the transactions so far. -/
structure ChainHead where
  lastBlockNumber : Nat
  prevHash : Bytes
  currentTXCount : UInt64
  deriving DecidableEq, Repr

def numOfAvailableBlocks (attestations : List (List BAF)) (configRequests : List ConfigRequest) : Nat :=
  attestations.length + if configRequests = [] then 0 else 1

/-- The config change, if there is a config request: the first one is applied. -/
def applyConfigRequests {W : Wire} (L : ConfigLib W) (s : State) : List ConfigRequest → Outcome State
  | [] => .ok s
  | configRequest :: _ => applyConfigToState L s configRequest

/-- The app context is the header of the last block, if there is a block. -/
def setAppContext (W : Wire) (s : State) : Option BlockHeader → State
  | none => s
  | some header => { s with appContext := W.blockHeader.marshal header }

/-! ## Assembling -/

/-- The loop of `AssembleProposal` over the attestations, from index `i`. -/
def createDataBlocks (W : Wire) (num : DecisionNum) (count lastConfigBlockNum : Nat) :
    Nat → ChainHead → List (List BAF) → Outcome (List Block × ChainHead)
  | _, head, [] => .ok ([], head)
  | i, head, ba :: rest => do
    let b ← Outcome.index ba 0
    let lastBlockNumber := head.lastBlockNumber + 1
    let currentTXCount := head.currentTXCount + b.txCount
    let block := createDataCommonBlock W lastBlockNumber head.prevHash (batchIDKeyOf b) currentTXCount
      ⟨num, count, i⟩ lastConfigBlockNum
    let header ← deref block.header
    let (blocks, last) ← createDataBlocks W num count lastConfigBlockNum (i + 1)
      ⟨lastBlockNumber, W.blockHeaderHash header, currentTXCount⟩ rest
    return (block :: blocks, last)

/-- The config block of `AssembleProposal`, if there is a config request. -/
def createConfigBlocks (W : Wire) (num : DecisionNum) (count : Nat) (head : ChainHead) : List ConfigRequest → List Block
  | [] => []
  | configRequest :: _ =>
    [createConfigCommonBlock W (head.lastBlockNumber + 1) head.prevHash (head.currentTXCount + 1)
      ⟨num, count, count - 1⟩ (W.envelope.marshal configRequest.envelope)]

/-! ## Verifying -/

/-- The loop of `VerifyProposal` over the attestations, from index `i`: the headers computed. -/
def verifyDataBlocks (W : Wire) (num : DecisionNum) (count lastConfigBlockNum : Nat) (proposed : List Block) :
    Nat → ChainHead → List (List BAF) → Outcome (List BlockHeader × ChainHead)
  | _, head, [] => .ok ([], head)
  | i, head, ba :: rest => do
    let b ← Outcome.index ba 0
    let lastBlockNumber := head.lastBlockNumber + 1
    let currentTXCount := head.currentTXCount + b.txCount
    let block ← Outcome.index proposed i
    (verifyDataCommonBlock W block lastBlockNumber head.prevHash (batchIDKeyOf b) currentTXCount
      ⟨num, count, i⟩ lastConfigBlockNum).wrap
        s!"failed verifying proposed block num {lastBlockNumber} in index {i}"
    let header : BlockHeader := ⟨lastBlockNumber, head.prevHash, b.digest⟩
    let (headers, last) ← verifyDataBlocks W num count lastConfigBlockNum proposed (i + 1)
      ⟨lastBlockNumber, W.blockHeaderHash header, currentTXCount⟩ rest
    return (header :: headers, last)

/-- The config block's check in `VerifyProposal`, if there is a config request. -/
def verifyConfigBlocks (W : Wire) (num : DecisionNum) (count : Nat) (proposed : List Block)
    (head : ChainHead) : List ConfigRequest → Outcome (List BlockHeader)
  | [] => .ok []
  | configRequest :: _ => do
    let dataHash := W.digest [W.envelope.marshal configRequest.envelope]
    let block ← Outcome.index proposed (count - 1)
    (verifyConfigCommonBlock W block (head.lastBlockNumber + 1) head.prevHash dataHash
      (head.currentTXCount + 1) ⟨num, count, count - 1⟩).wrap
        s!"failed verifying proposed config block num {head.lastBlockNumber + 1}"
    return [⟨head.lastBlockNumber + 1, head.prevHash, dataHash⟩]

namespace Consensus

variable {W : Wire} (L : ConfigLib W) (c : Consensus)

/-- The last common block's header, from the app context of the computed state. -/
def lastCommonBlockHeader (W : Wire) (s : State) : Outcome BlockHeader :=
  (ofExcept (W.blockHeader.unmarshal s.appContext)).orPanic fun e =>
    s!"Failed unmarshaling app context to block header from state: {e}"

/-- Where the chain of blocks stands before the proposal. -/
def chainHead (W : Wire) (last : BlockHeader) : ChainHead :=
  ⟨last.number, W.blockHeaderHash last, c.txCount⟩

/-- The decision number of the last config block, after a decision with these config requests. -/
def nextDecisionNumOfLastConfigBlock (configRequests : List ConfigRequest) (num : DecisionNum) : DecisionNum :=
  if configRequests = [] then c.decisionNumOfLastConfigBlock else num

/-- The header that `AssembleProposal` builds. -/
def assembleHeader (metadata : Option Bytes) (requests : BatchedRequests) : Outcome Header := do
  let (newState, attestations, configRequests) ←
    simulateStateTransition W c.badb c.state c.verificationSequence requests
  let newState ← (applyConfigRequests L newState configRequests).orPanic fun e =>
    s!"failed applying config to state, err: {e}"
  let last ← lastCommonBlockHeader W newState
  let md ← (ofExcept (W.viewMetadata.unmarshal (metadata.getD []))).orPanic id
  let count := numOfAvailableBlocks attestations configRequests
  let (dataBlocks, head) ← createDataBlocks W md.latestSequence count c.lastConfigBlockNum 0
    (c.chainHead W last) attestations
  let blocks := dataBlocks ++ createConfigBlocks W md.latestSequence count head configRequests
  return {
    num := md.latestSequence
    prevHash := c.prevHash
    availableCommonBlocks := blocks
    state := some (setAppContext W newState (blocks.getLast?.bind (·.header)))
    decisionNumOfLastConfigBlock :=
      c.nextDecisionNumOfLastConfigBlock configRequests md.latestSequence }

def assembleProposal (metadata : Option Bytes) (requests : BatchedRequests) : Outcome Proposal := do
  let hdr ← c.assembleHeader L metadata requests
  return {
    header := some (hdr.serialize W)
    metadata
    payload := some requests.serialize
    verificationSequence := c.verificationSequence.toInt64 }

/-- The part of `VerifyProposal` that computes the next state and the blocks, and compares them with
those of the header. -/
def verifyHeader (requests : BatchedRequests) (hdr : Header) (state : State) (md : ViewMetadata) : Outcome Unit := do
  let (computedState, attestations, configRequests) ←
    simulateStateTransition W c.badb c.state c.verificationSequence requests
  let computedState ← (applyConfigRequests L computedState configRequests).wrap
    "failed applying config to state, err"
  let count := numOfAvailableBlocks attestations configRequests
  let decisionNumOfLastConfigBlock := c.nextDecisionNumOfLastConfigBlock configRequests md.latestSequence
  require (hdr.decisionNumOfLastConfigBlock = decisionNumOfLastConfigBlock)
    (s!"proposed decision num of last config block {hdr.decisionNumOfLastConfigBlock} isn't equal to computed " ++
      s!"{decisionNumOfLastConfigBlock}")
  let last ← lastCommonBlockHeader W computedState
  let (headers, head) ← verifyDataBlocks W md.latestSequence count c.lastConfigBlockNum
    hdr.availableCommonBlocks 0 (c.chainHead W last) attestations
  let configHeaders ← verifyConfigBlocks W md.latestSequence count hdr.availableCommonBlocks head configRequests
  let computedState := setAppContext W computedState (headers ++ configHeaders).getLast?
  require (state.serialize W = computedState.serialize W)
    "proposed state isn't equal to computed state"

/-- The header, the metadata and the payload of a proposal, when none of them is nil. -/
def proposalParts (p : Proposal) : Outcome (Bytes × Bytes × Bytes) :=
  match p.header, p.metadata, p.payload with
  | some header, some metadata, some payload => .ok (header, metadata, payload)
  | _, _, _ => .error (.err "proposal has a nil header or metadata or payload")

/-- The state in a proposal's header, when there is one. -/
def headerState (hdr : Header) : Outcome State :=
  match hdr.state with
  | some s => .ok s
  | none => .error (.err "state in proposal header is nil")

def verifyProposal (p : Proposal) : Outcome (List RequestInfo) := do
  let (header, metadata, payload) ← proposalParts p
  let requests ← (BatchedRequests.deserialize payload).wrap "failed to deserialize proposal payload"
  let hdr ← (Header.deserialize W (some header)).wrap "failed to deserialize proposal header"
  let state ← headerState hdr
  let md ← (ofExcept (W.viewMetadata.unmarshal metadata)).wrap
    "failed to unmarshal proposal metadata"
  require (md.latestSequence = hdr.num)
    s!"proposed number {hdr.num} isn't equal to computed number {hexNat md.latestSequence}"
  require (c.verificationSequence = p.verificationSequence.toUInt64)
    s!"expected verification sequence {c.verificationSequence}, but proposal has {p.verificationSequence}"
  let reqInfos ← c.verifyProposalRequests L requests c.verificationSequence hdr.num
  c.verifyHeader L requests hdr state md
  return reqInfos

end Consensus

end Arma
