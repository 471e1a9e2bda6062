import Arma.State.Codec

/-!
# Proposals, decisions and the blocks that store them

Model of `node/consensus/state/header.go` and `decision.go`: the header of a proposal with the blocks
and the state it carries, the two records SmartBFT hands around (`Proposal`, `Signature`), and the
block of the consenter's ledger into which `CreateBlockToAppendFromDecision` puts a decision.

* The fields of a proposal and of a signature may be nil, and the code checks that they are not; they
  are `Option`s. Where the code reads such a field without a check, nil is the empty byte string.
* `Header.deserialize_serialize`: a header with a state that is not the zero message survives its
  serialization, the state's threshold and quorum refreshed.
* `bytesToProposal_proposalToBytes`, `bytesToDecisionSignatures_toBytes`: a decision is read back from
  its block.
-/

namespace Arma

open Arma.Lib Outcome

/-- SmartBFT's `Proposal`. -/
structure Proposal where
  payload : Option Bytes
  header : Option Bytes
  metadata : Option Bytes
  verificationSequence : Int64
  deriving DecidableEq, Repr

/-- SmartBFT's `Signature`. -/
structure Signature where
  id : UInt64
  value : Option Bytes
  msg : Option Bytes
  deriving DecidableEq, Repr

structure Header where
  num : DecisionNum
  prevHash : Bytes
  availableCommonBlocks : List Block
  state : Option State
  decisionNumOfLastConfigBlock : DecisionNum
  deriving DecidableEq, Repr

/-! ## The header -/

namespace Header

/-- The message that `Header.Serialize` marshals. -/
def toProto (W : Wire) (h : Header) : ProtoHeader where
  num := h.num
  decisionNumOfLastConfigBlock := h.decisionNumOfLastConfigBlock
  prevHash := h.prevHash
  availableCommonBlocks := h.availableCommonBlocks.map W.block.marshal
  state := (h.state.map (State.serialize W)).getD []

def serialize (W : Wire) (h : Header) : Bytes := W.header.marshal (h.toProto W)

/-- Reading the block at index `i` of a header. -/
def unmarshalBlock (W : Wire) (i : Nat) (rawBlock : Bytes) : Outcome Block :=
  (ofExcept (W.block.unmarshal rawBlock)).wrap
    s!"failed to unmarshal available common block at index {i}"

def readState (W : Wire) (rawState : Bytes) : Outcome (Option State) :=
  if rawState = [] then return none
  else do
    let s ← (State.deserialize W rawState).wrap "failed to deserialize state"
    return some s

/-- The body of `Header.Deserialize` after the message is unmarshalled. -/
def fromProto (W : Wire) (ph : ProtoHeader) : Outcome Header := do
  let blocks ← mapEach (unmarshalBlock W) 0 ph.availableCommonBlocks
  let state ← readState W ph.state
  return {
    num := ph.num
    prevHash := ph.prevHash
    availableCommonBlocks := blocks
    state
    decisionNumOfLastConfigBlock := ph.decisionNumOfLastConfigBlock }

def deserialize (W : Wire) : Option Bytes → Outcome Header
  | none => .error (.err "nil bytes")
  | some rawBytes =>
    if rawBytes = [] then .error (.err "empty bytes")
    else do
      let ph ← (ofExcept (W.header.unmarshal rawBytes)).wrap "failed to unmarshal header"
      fromProto W ph

theorem readState_noPanic (W : Wire) (rawState : Bytes) : (readState W rawState).NoPanic := by
  unfold readState
  split
  · simp
  · simp [State.deserialize_noPanic]

theorem deserialize_eq_ok {W b h} : deserialize W b = .ok h ↔ ∃ raw ph, b = some raw ∧ raw ≠ [] ∧
      W.header.unmarshal raw = .ok ph ∧ fromProto W ph = .ok h := by
  cases b with
  | none => simp [deserialize]
  | some raw =>
    simp only [deserialize]
    by_cases hne : raw = []
    · simp [hne]
    · simp [hne, bind_eq_ok]

/-- The state of a header that was read has its threshold and quorum refreshed. -/
theorem refresh_of_deserialize {W b h s} (hread : deserialize W b = .ok h) (hs : h.state = some s) : s.refresh = s := by
  obtain ⟨raw, ph, -, -, -, hph⟩ := deserialize_eq_ok.mp hread
  simp only [fromProto, readState, bind_eq_ok] at hph
  obtain ⟨blocks, -, state, hstate, hret⟩ := hph
  cases hret
  split at hstate
  · cases hstate
    cases hs
  · simp only [bind_eq_ok, wrap_eq_ok] at hstate
    obtain ⟨s', hs', hret⟩ := hstate
    cases hret
    cases hs
    exact State.refresh_of_deserialize hs'

theorem deserialize_noPanic (W : Wire) (b : Option Bytes) : (deserialize W b).NoPanic := by
  cases b with
  | none => exact noPanic_fail _
  | some b =>
    simp only [deserialize]
    split
    · exact noPanic_fail _
    · refine noPanic_bind_iff.mpr ⟨by simp, fun ph _ => ?_⟩
      refine noPanic_bind_iff.mpr ⟨noPanic_mapEach (fun i b => by simp [unmarshalBlock]) _ _, fun blocks _ => ?_⟩
      exact noPanic_bind_iff.mpr ⟨readState_noPanic W _, fun _ _ => by simp⟩

end Header

theorem State.serialize_ne_nil (W : Wire) {s : State} (h : s.n ≠ 0 ∨ s.appContext ≠ []) : s.serialize W ≠ [] := by
  refine W.state.marshal_ne_nil fun hzero => ?_
  have hn : s.toProto.numberOfParties = 0 := by rw [hzero]; rfl
  have happ : s.toProto.appContext = [] := by rw [hzero]; rfl
  rcases h with h | h
  · refine h (UInt16.toNat.inj ?_)
    have := congrArg UInt32.toNat hn
    simpa [toProto] using this
  · exact h happ

namespace Header

theorem deserialize_serialize (W : Wire) (h : Header) {s : State} (hs : h.state = some s)
    (hne : s.n ≠ 0 ∨ s.appContext ≠ []) :
    deserialize W (some (h.serialize W)) = .ok { h with state := some s.refresh } := by
  have hstate : s.serialize W ≠ [] := State.serialize_ne_nil W hne
  have hheader : h.serialize W ≠ [] := by
    refine W.header.marshal_ne_nil fun hzero => hstate ?_
    have hraw : (h.toProto W).state = [] := by rw [hzero]; rfl
    simpa [toProto, hs] using hraw
  have hread : readState W (s.serialize W) = .ok (some s.refresh) := by
    simp [readState, hstate, State.deserialize_serialize]
  simp only [deserialize]
  rw [if_neg hheader]
  simp only [serialize, Codec.unmarshal_marshal, ofExcept_ok, wrap_ok,
    ok_bind, fromProto, toProto, hs, Option.map_some, Option.getD_some, hread]
  rw [mapEach_map (fun i b => by simp [unmarshalBlock]), ok_bind]
  rfl

end Header

/-! ## Decisions -/

def proposalToBytes (W : Wire) (p : Proposal) : Bytes :=
  W.asn1Proposal.marshal ⟨p.payload.getD [], p.header.getD [], p.metadata.getD [], p.verificationSequence⟩

def bytesToProposal (W : Wire) (rawBytes : Bytes) : Outcome Proposal := do
  let prop ← ofExcept (W.asn1Proposal.unmarshal rawBytes)
  return ⟨some prop.payload, some prop.header, some prop.metadata, prop.verificationSequence⟩

def decisionSignaturesToBytes (W : Wire) (signatures : List Signature) : Bytes :=
  W.byteStrings.marshal <| signatures.map fun sig =>
    W.asn1Signature.marshal ⟨sig.id.toInt64, sig.value.getD [], sig.msg.getD []⟩

/-- Reading one signature of a decision. -/
def unmarshalSignature (W : Wire) (rawSig : Bytes) : Outcome Signature := do
  let sig ← ofExcept (W.asn1Signature.unmarshal rawSig)
  return ⟨sig.id.toUInt64, some sig.value, some sig.msg⟩

def bytesToDecisionSignatures (W : Wire) (rawBytes : Bytes) : Outcome (List Signature) := do
  let rawSigs ← ofExcept (W.byteStrings.unmarshal rawBytes)
  mapEach (fun _ => unmarshalSignature W) 0 rawSigs

def initBlockMetadata : List Bytes := List.replicate numMetadataIndices []

variable (W : Wire)

/-- The LAST_CONFIG entry of a block's metadata. -/
def lastConfigEntry (index : Nat) : Bytes :=
  W.metadata.marshal ⟨W.lastConfig.marshal ⟨index⟩, []⟩

/-- The header under which a decision is stored and signed. -/
def decisionBlockHeader (number : Nat) (p : Proposal) (prevHash : Bytes) : BlockHeader :=
  ⟨number, prevHash, W.digest [proposalToBytes W p]⟩

def createBlockToAppendFromDecision (number : Nat) (p : Proposal)
    (signatures : List Signature) (prevHash : Bytes) (decisionNumOfLastConfigBlock : Nat) : Block where
  header := some (decisionBlockHeader W number p prevHash)
  data := some [proposalToBytes W p]
  metadata := some <| ((initBlockMetadata.set indexSignatures (decisionSignaturesToBytes W signatures)).set
      indexOrderer (p.metadata.getD [])).set indexLastConfig (lastConfigEntry W decisionNumOfLastConfigBlock)

/-- `protoutil.GetMetadataFromBlock`, the entry at `index` being called `name`. -/
def getMetadataFromBlock (block : Block) (index : Nat) (name : String) : Outcome Metadata :=
  match block.metadata with
  | none => .error (.err "no metadata in block")
  | some md =>
    match md[index]? with
    | none => .error (.err s!"no metadata at index [{name}]")
    | some raw => (ofExcept (W.metadata.unmarshal raw)).wrap
        s!"error unmarshaling metadata at index [{name}]"

def getLastConfigIndexFromConsenterBlock (block : Block) : Outcome Nat :=
  match block.header with
  | none => .error (.err "nil block header")
  | some header =>
    if header.number = 0 then return 0
    else do
      let m ← getMetadataFromBlock W block indexLastConfig "LAST_CONFIG"
      let lastConfig ← ofExcept (W.lastConfig.unmarshal m.value)
      return lastConfig.index

def consenterBlockToProposal (block : Block) : Outcome Proposal :=
  match block.header with
  | none => .error (.err "block header is nil")
  | some header =>
    match block.data with
    | some (proposalBytes :: _) => bytesToProposal W proposalBytes
    | _ => .error (.err s!"data is empty for block: {header.number}")

/-- The SIGNATURES entry of a consenter block, as `ConsenterBlockToDecision` reads it. -/
def consenterBlockSignatures (block : Block) : Outcome (List Signature) :=
  match block.metadata with
  | none => .error (.err "metadata is empty for block")
  | some [] => .error (.err "metadata is empty for block")
  | some (signaturesBytes :: _) => do
    require (signaturesBytes ≠ []) "signatures metadata is empty for block"
    (bytesToDecisionSignatures W signaturesBytes).wrap "failed to deserialize signatures for block"

def consenterBlockToDecision (block : Block) : Outcome (Proposal × List Signature) := do
  let proposal ← (consenterBlockToProposal W block).wrap "failed to deserialize proposal for block"
  let signatures ← consenterBlockSignatures W block
  return (proposal, signatures)

/-- A proposal as it is read back from a block: a nil field has become an empty one. -/
def Proposal.stored (p : Proposal) : Proposal :=
  ⟨some (p.payload.getD []), some (p.header.getD []), some (p.metadata.getD []), p.verificationSequence⟩

/-- A signature as it is read back from a block. -/
def Signature.stored (sig : Signature) : Signature :=
  ⟨sig.id, some (sig.value.getD []), some (sig.msg.getD [])⟩

@[simp] theorem bytesToProposal_proposalToBytes (W : Wire) (p : Proposal) :
    bytesToProposal W (proposalToBytes W p) = .ok p.stored := by
  simp [bytesToProposal, proposalToBytes, Proposal.stored]

@[simp] theorem bytesToDecisionSignatures_toBytes (W : Wire) (signatures : List Signature) :
    bytesToDecisionSignatures W (decisionSignaturesToBytes W signatures) = .ok (signatures.map Signature.stored) := by
  unfold bytesToDecisionSignatures decisionSignaturesToBytes
  rw [Codec.unmarshal_marshal, ofExcept_ok, ok_bind]
  refine mapEach_map_eq (fun _ sig => ?_) signatures 0
  simp [unmarshalSignature, Signature.stored]

/-- **A decision is read back from the block that stores it.** -/
theorem consenterBlockToDecision_create (W : Wire) (number : Nat) (p : Proposal)
    (signatures : List Signature) (prevHash : Bytes) (lastConfig : Nat) : consenterBlockToDecision W
        (createBlockToAppendFromDecision W number p signatures prevHash lastConfig) =
      .ok (p.stored, signatures.map Signature.stored) := by
  have hproposal : consenterBlockToProposal W
      (createBlockToAppendFromDecision W number p signatures prevHash lastConfig) = .ok p.stored :=
    bytesToProposal_proposalToBytes W p
  have hne : decisionSignaturesToBytes W signatures ≠ [] := W.byteStrings_ne_nil _
  have hsigs : consenterBlockSignatures W
      (createBlockToAppendFromDecision W number p signatures prevHash lastConfig) =
      .ok (signatures.map Signature.stored) := by
    simp [consenterBlockSignatures, createBlockToAppendFromDecision, initBlockMetadata,
      numMetadataIndices, indexSignatures, indexOrderer, indexLastConfig, List.replicate, hne, require]
  simp [consenterBlockToDecision, hproposal, hsigs]

theorem getMetadataFromBlock_noPanic (W : Wire) (block : Block) (index : Nat) (name : String) :
    (getMetadataFromBlock W block index name).NoPanic := by
  unfold getMetadataFromBlock
  split
  · exact noPanic_fail _
  · split
    · exact noPanic_fail _
    · simp

end Arma
