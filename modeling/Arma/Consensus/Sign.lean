import Arma.Consensus.Reachable

/-!
# Compound signatures

Model of `SignProposal` and `VerifyConsenterSig` (`node/consensus/consensus.go`). A consenter signs a decision
with one signature for the decision's header and one for the header of each block in it. The messages and the
signatures are two lists of byte strings, packed into the two fields of a SmartBFT signature.

* What a message covers is a block header and the orderer's metadata, in which the number of the last config
  block is written. For the decision this is the decision number of the last config block; for a block it
  changes at the config block. The signer carries it from block to block (`signBlocks`), and the verifier
  starts anew at each block (`verifyBlockMessageToSign`).
* A message also holds an identifier header with a nonce. The verifier takes it from the message, and
  compares its identifier with the one of the signature.
* The signing key and the source of nonces are a parameter, `Signer`.

`signProposal_eq_ok` says what is signed, `verifyConsenterSig_eq_ok` what it takes to pass.
-/

namespace Arma

open Arma.Lib Outcome List

/-! ## The messages -/

section Messages

variable (W : Wire)

/-- The message over a block header, with the orderer's metadata. -/
def messageToSign (header : BlockHeader) (identifierHeader : Bytes) (lastConfig : Nat)
    (consenterMetadata : Bytes) : Bytes :=
  W.messageToSign.marshal
    ⟨identifierHeader, W.blockHeaderBytes header, W.ordererBlockMetadata.marshal ⟨some ⟨lastConfig⟩, consenterMetadata⟩⟩

/-- The message over a proposal: over the header of the decision block for it. -/
def proposalMessage (p : Proposal) (num decisionNumOfLastConfigBlock : Nat) (prevHash : Bytes)
    (identifierHeader : Bytes) : Bytes :=
  messageToSign W (decisionBlockHeader W num p prevHash) identifierHeader
    decisionNumOfLastConfigBlock (p.metadata.getD [])

/-- The number of the last config block, from a block on: a config block is its own. -/
def lastConfigFrom (lastConfigBlockNum : Nat) (block : Block) : Outcome Nat :=
  if isConfigBlock W block then do
    let header ← deref block.header
    return header.number
  else return lastConfigBlockNum

/-- The message over a block, whose header and ORDERER entry are taken to be there. -/
def blockMessage (block : Block) (identifierHeader : Bytes) (lastConfigBlockNum : Nat) : Outcome Bytes := do
  let header ← deref block.header
  let metadata ← deref block.metadata
  let orderer ← Outcome.index metadata indexOrderer
  return messageToSign W header identifierHeader lastConfigBlockNum orderer

/-- `NewIdentifierHeaderOrPanic`, marshalled. -/
def newIdentifierHeader (partyID : PartyID) (nonce : Bytes) : Bytes :=
  W.identifierHeader.marshal ⟨partyID.toUInt32, nonce⟩

end Messages

/-! ## Signing -/

/-- The signing key and the nonces of one call: the `i`-th nonce drawn and the `i`-th signature. -/
structure Signer where
  nonce : Nat → Bytes
  sign : Nat → Bytes → Except String Bytes

/-- A message and the signature over it. -/
structure SignedMessage where
  msg : Bytes
  value : Bytes
  deriving DecidableEq, Repr

namespace Consensus

variable {W : Wire} (c : Consensus)

/-- The decision number of the last config block that is signed with a proposal. -/
def signedDecisionNum (hdr : Header) : DecisionNum :=
  if hdr.num = hdr.decisionNumOfLastConfigBlock then hdr.num else c.decisionNumOfLastConfigBlock

/-- The loop of `SignProposal` over the blocks, from the `i`-th signature. -/
def signBlocks (W : Wire) (signer : Signer) : Nat → Nat → List Block → Outcome (List SignedMessage)
  | _, _, [] => .ok []
  | i, lastConfigBlockNum, ab :: rest => do
    let lastConfigBlockNum ← lastConfigFrom W lastConfigBlockNum ab
    let msgBytes ← blockMessage W ab (newIdentifierHeader W c.partyID (signer.nonce i)) lastConfigBlockNum
    let sig ← (ofExcept (signer.sign i msgBytes)).orPanic fun e =>
      s!"Failed signing block header: {e}"
    let signed ← signBlocks W signer (i + 1) lastConfigBlockNum rest
    return ⟨msgBytes, sig⟩ :: signed

/-- The messages that `SignProposal` signs, with their signatures. -/
def signMessages (W : Wire) (signer : Signer) (p : Proposal) (hdr : Header) : Outcome (List SignedMessage) := do
  let proposalMsgBytes := proposalMessage W p hdr.num (c.signedDecisionNum hdr) hdr.prevHash
    (newIdentifierHeader W c.partyID (signer.nonce 0))
  let proposalSig ← (ofExcept (signer.sign 0 proposalMsgBytes)).orPanic fun e =>
    s!"Failed signing proposal: {e}"
  let signed ← c.signBlocks W signer 1 c.lastConfigBlockNum hdr.availableCommonBlocks
  return ⟨proposalMsgBytes, proposalSig⟩ :: signed

/-- The signature with these messages. -/
def packSignature (W : Wire) (signed : List SignedMessage) : Signature where
  id := c.selfID
  value := some (W.byteStrings.marshal (signed.map (·.value)))
  msg := some (W.byteStrings.marshal (signed.map (·.msg)))

def signProposal (W : Wire) (signer : Signer) (p : Proposal) : Outcome Signature := do
  let _ ← (BatchedRequests.deserialize (p.payload.getD [])).orPanic fun e =>
    s!"Failed deserializing proposal payload: {e}"
  let hdr ← (Header.deserialize W p.header).orPanic fun e =>
    s!"Failed deserializing proposal header: {e}"
  let signed ← c.signMessages W signer p hdr
  return c.packSignature W signed

/-! ## Verifying -/

/-- The identifier header of a message names the signer. -/
def verifyIdentifier (W : Wire) (msg : MessageToSign) (signatureID : UInt64)
    (unmarshalErr name : String) : Outcome Unit := do
  let idHeader ← (W.unmarshalIdentifierHeader msg.identifierHeader).wrap unmarshalErr
  require (idHeader.identifier.toUInt64 = signatureID)
    s!"signature ID {signatureID} does not match identifier header ID {idHeader.identifier} in {name}"

def verifyProposalMessageToSign (W : Wire) (proposalMsg : MessageToSign) (proposalMsgBytes : Bytes)
    (signatureID : UInt64) (p : Proposal) (num decisionNumOfLastConfigBlock : Nat)
    (prevHash : Bytes) : Outcome Unit := do
  verifyIdentifier W proposalMsg signatureID
    "failed to unmarshal identifier header from proposal message" "proposal message"
  require (proposalMsgBytes =
      proposalMessage W p num decisionNumOfLastConfigBlock prevHash proposalMsg.identifierHeader)
    "proposal message content is not as expected"

def verifyBlockMessageToSign (W : Wire) (msg : MessageToSign) (msgBytes : Bytes)
    (signatureID : UInt64) (block : Block) (lastConfigBlockNum : Nat) : Outcome Unit := do
  verifyIdentifier W msg signatureID "failed to unmarshal identifier header from message" "message"
  let lastConfigBlockNum ← lastConfigFrom W lastConfigBlockNum block
  let computedMsgBytes ← blockMessage W block msg.identifierHeader lastConfigBlockNum
  require (msgBytes = computedMsgBytes) "message content is not as expected"

/-- `VerifySignature`: under the key of the consenter whose id the signature has. -/
def verifyValue (signatureID : UInt64) (msg value : Bytes) : Outcome Unit :=
  c.verifySig (newConsenterIdentity signatureID.toUInt16) msg value

/-- One of the two lists in a signature. -/
def unpack (W : Wire) (name : String) : Option Bytes → Outcome (List Bytes)
  | none => .error (.err s!"signature {name} is nil")
  | some raw => do
    let l ← (ofExcept (W.byteStrings.unmarshal raw)).wrap
      s!"failed unmarshaling signature {name}"
    require (l ≠ []) s!"signature {name}s array is empty"
    return l

/-- The part of `VerifyConsenterSig` over the proposal. -/
def verifyFirst (W : Wire) (signatureID : UInt64) (p : Proposal) (hdr : Header)
    (msgs values : List Bytes) : Outcome Unit := do
  let proposalMsgBytes ← Outcome.index msgs 0
  let proposalMsg ← ofExcept (W.messageToSign.unmarshal proposalMsgBytes)
  (verifyProposalMessageToSign W proposalMsg proposalMsgBytes signatureID p hdr.num
    (c.signedDecisionNum hdr) hdr.prevHash).wrap "failed verifying proposal msg"
  let value ← Outcome.index values 0
  (c.verifyValue signatureID proposalMsgBytes value).wrap "failed verifying signature over proposal"

/-- One round of the loop of `VerifyConsenterSig` over the blocks. -/
def verifyBlock (W : Wire) (signatureID : UInt64) (msgs values : List Bytes) (i : Nat) (ab : Block) : Outcome Unit := do
  let msgBytes ← Outcome.index msgs (i + 1)
  let msg ← ofExcept (W.messageToSign.unmarshal msgBytes)
  (verifyBlockMessageToSign W msg msgBytes signatureID ab c.lastConfigBlockNum).wrap
    s!"failed verifying msg over block in index {i}"
  let value ← Outcome.index values (i + 1)
  (c.verifyValue signatureID msgBytes value).wrap
    s!"failed verifying signature over block in index {i}"

def verifyConsenterSig (W : Wire) (signature : Signature) (p : Proposal) : Outcome Unit := do
  let values ← unpack W "value" signature.value
  let msgs ← unpack W "msg" signature.msg
  let hdr ← (Header.deserialize W p.header).wrap "failed deserializing proposal header"
  c.verifyFirst W signature.id p hdr msgs values
  forEach (c.verifyBlock W signature.id msgs values) 0 hdr.availableCommonBlocks

end Consensus

/-! ## What is signed -/

/-- What the message over a block covers: its header, its ORDERER entry, and the number of the last config
block. -/
structure Coverage where
  header : BlockHeader
  orderer : Bytes
  lastConfig : Nat
  deriving DecidableEq, Repr

def Coverage.message (W : Wire) (cov : Coverage) (identifierHeader : Bytes) : Bytes :=
  messageToSign W cov.header identifierHeader cov.lastConfig cov.orderer

/-- The header and the ORDERER entry of the block are there, and are those covered. -/
structure Coverage.Of (cov : Coverage) (block : Block) : Prop where
  header : block.header = some cov.header
  orderer : ∃ metadata, block.metadata = some metadata ∧ metadata[indexOrderer]? = some cov.orderer

/-- **What is signed of a list of blocks**, with the number of the last config block carried on from each
config block. -/
inductive Covers (W : Wire) : Nat → List Block → List Coverage → Prop
  | nil (lastConfigBlockNum : Nat) : Covers W lastConfigBlockNum [] []
  | cons {lastConfigBlockNum ab cov blocks covs} (hof : cov.Of ab)
      (hlast : cov.lastConfig = if isConfigBlock W ab then cov.header.number else lastConfigBlockNum)
      (hrest : Covers W cov.lastConfig blocks covs) :
      Covers W lastConfigBlockNum (ab :: blocks) (cov :: covs)

/-- The messages are those over `covs` with the nonces from the `i`-th on, each with its signature. -/
def Consensus.SignedAs (c : Consensus) (W : Wire) (signer : Signer) (i : Nat) (covs : List Coverage)
    (signed : List SignedMessage) : Prop :=
  signed.length = covs.length ∧ ∀ k cov sm, covs[k]? = some cov → signed[k]? = some sm →
    sm.msg = cov.message W (newIdentifierHeader W c.partyID (signer.nonce (i + k))) ∧
      signer.sign (i + k) sm.msg = .ok sm.value

variable {cov : Coverage} {covs : List Coverage} {i : Nat}

section Signed

variable {W : Wire} {c : Consensus} {signer : Signer} {block : Block} {n : Nat} {p : Proposal}

theorem lastConfigFrom_eq (hof : cov.Of block) : lastConfigFrom W n block =
      .ok (if isConfigBlock W block then cov.header.number else n) := by
  unfold lastConfigFrom
  split
  · simp [hof.header]
  · rfl

theorem blockMessage_eq_ok {identifierHeader msg} : blockMessage W block identifierHeader n = .ok msg ↔
      ∃ cov : Coverage, cov.Of block ∧ cov.lastConfig = n ∧ msg = cov.message W identifierHeader := by
  simp only [blockMessage, bind_eq_ok, deref_eq_ok, index_eq_ok, pure_eq]
  constructor
  · rintro ⟨header, hheader, metadata, hmetadata, orderer, horderer, hmsg⟩
    exact ⟨⟨header, orderer, n⟩, ⟨hheader, metadata, hmetadata, horderer⟩, rfl, (Except.ok.inj hmsg).symm⟩
  · rintro ⟨cov, ⟨hheader, metadata, hmetadata, horderer⟩, rfl, rfl⟩
    exact ⟨_, hheader, _, hmetadata, _, horderer, rfl⟩

theorem blockMessage_of {cov : Coverage} (hof : cov.Of block) (identifierHeader : Bytes) :
    blockMessage W block identifierHeader cov.lastConfig = .ok (cov.message W identifierHeader) :=
  blockMessage_eq_ok.mpr ⟨cov, hof, rfl, rfl⟩

theorem Coverage.Of.unique {cov' : Coverage} (h : cov.Of block) (h' : cov'.Of block) :
    cov.header = cov'.header ∧ cov.orderer = cov'.orderer := by
  obtain ⟨md, hmd, horderer⟩ := h.orderer
  obtain ⟨md', hmd', horderer'⟩ := h'.orderer
  cases hmd.symm.trans hmd'
  exact ⟨Option.some.inj (h.header.symm.trans h'.header), Option.some.inj (horderer.symm.trans horderer')⟩

theorem covers_cons {blocks} (h : Covers W n (block :: blocks) covs) : ∃ cov covs', covs = cov :: covs' ∧ cov.Of block ∧
      cov.lastConfig = (if isConfigBlock W block then cov.header.number else n) ∧
      Covers W cov.lastConfig blocks covs' := by
  cases h with
  | cons hof hlast hrest => exact ⟨_, _, rfl, hof, hlast, hrest⟩

theorem Consensus.signedAs_cons {sm signed} : c.SignedAs W signer i (cov :: covs) (sm :: signed) ↔
      (sm.msg = cov.message W (newIdentifierHeader W c.partyID (signer.nonce i)) ∧
        signer.sign i sm.msg = .ok sm.value) ∧ c.SignedAs W signer (i + 1) covs signed := by
  unfold SignedAs
  constructor
  · rintro ⟨hlen, h⟩
    refine ⟨h 0 cov sm rfl rfl, by simpa using hlen, fun k cov' sm' hcov hsm => ?_⟩
    have hk := h (k + 1) cov' sm' (by simpa using hcov) (by simpa using hsm)
    rwa [show i + (k + 1) = i + 1 + k by omega] at hk
  · rintro ⟨hhead, hlen, h⟩
    refine ⟨by simp [hlen], fun k cov' sm' hcov hsm => ?_⟩
    cases k with
    | zero =>
      obtain rfl : cov = cov' := by simpa using hcov
      obtain rfl : sm = sm' := by simpa using hsm
      exact hhead
    | succ k =>
      have hk := h k cov' sm' (by simpa using hcov) (by simpa using hsm)
      rwa [show i + 1 + k = i + (k + 1) by omega] at hk

/-- **What the loop over the blocks signs.** -/
theorem Consensus.signBlocks_eq_ok {blocks signed} : c.signBlocks W signer i n blocks = .ok signed ↔
      ∃ covs, Covers W n blocks covs ∧ c.SignedAs W signer i covs signed := by
  induction blocks generalizing i n signed with
  | nil =>
    constructor
    · rintro h
      cases h
      exact ⟨[], .nil n, rfl, by simp⟩
    · rintro ⟨_, ⟨⟩, hlen, -⟩
      rw [length_eq_zero_iff.mp hlen]
      rfl
  | cons ab blocks ih =>
    simp only [signBlocks, bind_eq_ok, orPanic_eq_ok, ofExcept_eq_ok, pure_eq, ih]
    constructor
    · rintro ⟨last, hlast, msg, hmsg, sig, hsig, signed', ⟨covs, hcovs, hsigned⟩, hret⟩
      obtain ⟨cov, hof, rfl, rfl⟩ := blockMessage_eq_ok.mp hmsg
      rw [lastConfigFrom_eq hof] at hlast
      cases hret
      exact ⟨cov :: covs, .cons hof (Except.ok.inj hlast).symm hcovs, signedAs_cons.mpr ⟨⟨rfl, hsig⟩, hsigned⟩⟩
    · rintro ⟨_, hcovs, hsigned⟩
      obtain ⟨cov, covs, rfl, hof, hlast, hrest⟩ := covers_cons hcovs
      obtain ⟨sm, signed', rfl⟩ : ∃ sm signed', signed = sm :: signed' := by
        cases signed with
        | nil => simp [SignedAs] at hsigned
        | cons sm signed' => exact ⟨sm, signed', rfl⟩
      obtain ⟨⟨hmsg, hsig⟩, hsigned⟩ := signedAs_cons.mp hsigned
      refine ⟨cov.lastConfig, by rw [lastConfigFrom_eq hof, hlast], _, blockMessage_of hof _,
        sm.value, hmsg ▸ hsig, signed', ⟨covs, hrest, hsigned⟩, ?_⟩
      rw [← hmsg]

/-- A compound signature, and what went into it. -/
structure Consensus.Signed (c : Consensus) (W : Wire) (signer : Signer) (p : Proposal)
    (signature : Signature) (hdr : Header) (covs : List Coverage) (first : SignedMessage)
    (signed : List SignedMessage) : Prop where
  header : Header.deserialize W p.header = .ok hdr
  firstMsg : first.msg = proposalMessage W p hdr.num (c.signedDecisionNum hdr) hdr.prevHash
    (newIdentifierHeader W c.partyID (signer.nonce 0))
  firstValue : signer.sign 0 first.msg = .ok first.value
  covers : Covers W c.lastConfigBlockNum hdr.availableCommonBlocks covs
  blocks : c.SignedAs W signer 1 covs signed
  signature : signature = c.packSignature W (first :: signed)

theorem Consensus.signProposal_eq_ok {signature} : c.signProposal W signer p = .ok signature ↔
      (∃ requests, BatchedRequests.deserialize (p.payload.getD []) = .ok requests) ∧
        ∃ hdr covs first signed, c.Signed W signer p signature hdr covs first signed := by
  simp only [signProposal, signMessages, bind_eq_ok, orPanic_eq_ok, ofExcept_eq_ok, pure_eq, signBlocks_eq_ok]
  constructor
  · rintro ⟨requests, hrequests, hdr, hhdr, _, ⟨value, hvalue, signed, ⟨covs, hcovs, hsigned⟩, hall⟩, hsignature⟩
    cases hall
    exact ⟨⟨requests, hrequests⟩, hdr, covs, ⟨_, value⟩, signed, hhdr, rfl, hvalue, hcovs, hsigned,
      (Except.ok.inj hsignature).symm⟩
  · rintro ⟨⟨requests, hrequests⟩, hdr, covs, ⟨msg, value⟩, signed, hhdr, hmsg, hvalue, hcovs, hsigned, rfl⟩
    obtain rfl : msg = _ := hmsg
    exact ⟨requests, hrequests, hdr, hhdr, _, ⟨value, hvalue, signed, ⟨covs, hcovs, hsigned⟩, rfl⟩, rfl⟩

end Signed

/-! ## What passes -/

section Verified

variable {W : Wire} {c v : Consensus} {signer : Signer} {p : Proposal} {signature : Signature}

namespace Consensus

@[simp] theorem unpack_marshal (name : String) {l} (h : l ≠ []) :
    unpack W name (some (W.byteStrings.marshal l)) = .ok l := by
  simp [unpack, h, require_true]

theorem toUInt16_selfID (c : Consensus) : c.selfID.toUInt16 = c.partyID := by
  apply UInt16.toNat_inj.mp
  simp [selfID]

theorem verifyIdentifier_own {msg nonce} (unmarshalErr name : String)
    (h : msg.identifierHeader = newIdentifierHeader W c.partyID nonce) :
    verifyIdentifier W msg c.selfID unmarshalErr name = .ok () := by
  simp [verifyIdentifier, h, newIdentifierHeader, Wire.unmarshalIdentifierHeader, selfID, require_true]

theorem unmarshal_messageToSign (header : BlockHeader) (identifierHeader : Bytes) (lastConfig : Nat)
    (consenterMetadata : Bytes) : ∃ msg, W.messageToSign.unmarshal
        (messageToSign W header identifierHeader lastConfig consenterMetadata) = .ok msg ∧
      msg.identifierHeader = identifierHeader :=
  ⟨_, Codec.unmarshal_marshal _ _, rfl⟩

/-- The signatures of the signer pass at `v` under the key of `c`'s party. -/
def Trusts (v c : Consensus) (signer : Signer) : Prop :=
  ∀ i msg value, signer.sign i msg = .ok value →
    v.config.verifySignature (newConsenterIdentity c.partyID) msg value = .ok ()

theorem Trusts.verifyValue {msg value} (h : Trusts v c signer)
    (hsign : signer.sign i msg = .ok value) : v.verifyValue c.selfID msg value = .ok () := by
  simp [Consensus.verifyValue, verifySig, toUInt16_selfID, h i msg value hsign]

/-- The message over a block passes if it covers the block with the last config that the verifier
computes. -/
theorem verifyBlock_of_signed {msgs values : List Bytes} {ab : Block}
    {sm : SignedMessage} {nonce} (hv : Trusts v c signer) {j} (hof : cov.Of ab)
    (hlast : cov.lastConfig = if isConfigBlock W ab then cov.header.number else v.lastConfigBlockNum)
    (hmsg : sm.msg = cov.message W (newIdentifierHeader W c.partyID nonce))
    (hvalue : signer.sign j sm.msg = .ok sm.value) (hmsgs : msgs[i + 1]? = some sm.msg)
    (hvalues : values[i + 1]? = some sm.value) : v.verifyBlock W c.selfID msgs values i ab = .ok () := by
  obtain ⟨msg, hread, hid⟩ := @unmarshal_messageToSign W cov.header
    (newIdentifierHeader W c.partyID nonce) cov.lastConfig cov.orderer
  have hread : W.messageToSign.unmarshal sm.msg = .ok msg := hmsg ▸ hread
  have hmessage := @blockMessage_of W ab cov hof msg.identifierHeader
  have hverify : verifyBlockMessageToSign W msg sm.msg c.selfID ab v.lastConfigBlockNum = .ok () := by
    rw [verifyBlockMessageToSign, verifyIdentifier_own _ _ hid, Outcome.ok_bind, lastConfigFrom_eq hof,
      ← hlast, Outcome.ok_bind, hmessage, Outcome.ok_bind, hid]
    exact Outcome.require_true _ hmsg
  simp [verifyBlock, hmsgs, hvalues, hread, hverify, hv.verifyValue hvalue, Outcome.index]

/-- The message over the proposal passes if the verifier has the same decision number of the last config
block. -/
theorem verifyFirst_of_signed {msgs values : List Bytes} {hdr : Header} {first : SignedMessage}
    (hv : Trusts v c signer) (hdn : v.signedDecisionNum hdr = c.signedDecisionNum hdr)
    (hmsg : first.msg = proposalMessage W p hdr.num (c.signedDecisionNum hdr) hdr.prevHash
      (newIdentifierHeader W c.partyID (signer.nonce 0)))
    (hvalue : signer.sign 0 first.msg = .ok first.value) (hmsgs : msgs[0]? = some first.msg)
    (hvalues : values[0]? = some first.value) : v.verifyFirst W c.selfID p hdr msgs values = .ok () := by
  obtain ⟨msg, hread, hid⟩ := @unmarshal_messageToSign W (decisionBlockHeader W hdr.num p hdr.prevHash)
    (newIdentifierHeader W c.partyID (signer.nonce 0)) (c.signedDecisionNum hdr) (p.metadata.getD [])
  have hread : W.messageToSign.unmarshal first.msg = .ok msg := hmsg ▸ hread
  have hverify : verifyProposalMessageToSign W msg first.msg c.selfID p hdr.num
      (v.signedDecisionNum hdr) hdr.prevHash = .ok () := by
    rw [verifyProposalMessageToSign, verifyIdentifier_own _ _ hid, Outcome.ok_bind, hdn, hid]
    exact Outcome.require_true _ hmsg
  simp [verifyFirst, hmsgs, hvalues, hread, hverify, hv.verifyValue hvalue, Outcome.index]

/-- **A compound signature passes** wherever the signer's keys are trusted, if the last config of each
message is the one the verifier computes. -/
theorem Signed.verifyConsenterSig {hdr : Header} {first : SignedMessage}
    {signed} (h : c.Signed W signer p signature hdr covs first signed)
    (hv : Trusts v c signer) (hfirst : v.signedDecisionNum hdr = c.signedDecisionNum hdr)
    (hlast : ∀ (k : Nat) (cov : Coverage) ab, covs[k]? = some cov →
      hdr.availableCommonBlocks[k]? = some ab → cov.Of ab ∧
        cov.lastConfig = if isConfigBlock W ab then cov.header.number else v.lastConfigBlockNum)
    (hlen : covs.length = hdr.availableCommonBlocks.length) : v.verifyConsenterSig W signature p = .ok () := by
  have hhead : v.verifyFirst W c.selfID p hdr ((first :: signed).map (·.msg))
      ((first :: signed).map (·.value)) = .ok () :=
    verifyFirst_of_signed hv hfirst h.firstMsg h.firstValue rfl rfl
  have hblocks : forEach (v.verifyBlock W c.selfID ((first :: signed).map (·.msg))
      ((first :: signed).map (·.value))) 0 hdr.availableCommonBlocks = .ok () := by
    refine forEach_eq_ok.mpr fun k ab hab => ?_
    obtain ⟨hsignedlen, hsigned⟩ := h.blocks
    have hk : k < covs.length := hlen ▸ lt_of_getElem? hab
    obtain ⟨cov, hcov⟩ : ∃ cov, covs[k]? = some cov := ⟨_, getElem?_eq_getElem hk⟩
    obtain ⟨sm, hsm⟩ : ∃ sm, signed[k]? = some sm := ⟨_, getElem?_eq_getElem (hsignedlen ▸ hk)⟩
    obtain ⟨hof, hcovlast⟩ := hlast k cov ab hcov hab
    obtain ⟨hmsg, hvalue⟩ := hsigned k cov sm hcov hsm
    exact verifyBlock_of_signed hv hof hcovlast hmsg hvalue (by simp [hsm]) (by simp [hsm])
  simp only [Consensus.verifyConsenterSig, h.signature, packSignature, h.header]
  rw [unpack_marshal _ (by simp), unpack_marshal _ (by simp)]
  simp only [ok_bind, wrap_ok, hhead, hblocks]

end Consensus

end Verified

end Arma
