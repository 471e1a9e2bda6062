import Arma.Consensus.Sign

/-!
# Verifying a stored decision

Model of `BlockSigVerifier` (`node/consensus/synchronizer/sig_verifier.go`), with which a consenter that
synchronizes checks the decisions it pulls from others. From the stored block it recomputes the messages that
were to be signed, keeps of every compound signature what matches them, and puts the signatures over the
decision's header, and those over the header of each block in it, to the block validation policy.

* The header of the decision and its last config come from the stored block; the blocks from the header of the
  proposal in it; the last config of the blocks from the config block that the verifier was made from, and from
  the config blocks it passes on the way, as in `SignProposal`.
* A signature that does not parse is skipped. A signature whose first message does not match has by then been
  added to the sets of the blocks.
* The policy is a parameter: it sees a set of signed data, and accepts or gives an error.
-/

namespace Arma

open Arma.Lib Outcome List

structure Identity where
  mspID : String
  certificate : Bytes
  deriving DecidableEq, Repr

structure Consenter where
  id : UInt32
  identity : Identity
  deriving DecidableEq, Repr

structure SignedData where
  identity : Identity
  data : Bytes
  signature : Bytes
  deriving DecidableEq, Repr

structure BlockSigVerifier where
  policy : List SignedData → Except String Unit
  consenters : List Consenter
  configBlockNum : Nat

/-- `signatureSets`: that of the decision's header, and that of each block. -/
structure SignatureSets where
  first : List SignedData
  blocks : List (List SignedData)
  deriving DecidableEq, Repr

/-- What the blocks of a decision have to be signed with: their headers and their orderer's metadata. -/
structure ExpectedBlocks where
  headers : List BlockHeader
  ordererBlockMetadata : List Bytes
  deriving DecidableEq, Repr

namespace BlockSigVerifier

variable (v : BlockSigVerifier) (W : Wire)

def searchConsenterIdentityByID (identifier : UInt32) : Option Identity :=
  (v.consenters.find? (·.id = identifier)).map (·.identity)

/-! ## What is expected -/

def availableHeaders (blocks : List Block) : Outcome (List BlockHeader) :=
  mapEach (fun i ab =>
    match ab.header with
    | some header => .ok header
    | none => .error (.err s!"available common block header is nil at index {i}")) 0 blocks

/-- The ORDERER entry of the available common block at index `i`. -/
def ordererEntry (i : Nat) (ab : Block) : Outcome Bytes :=
  match ab.metadata with
  | none => .error (.err s!"available common block metadata is nil at index {i}")
  | some md =>
    match md[indexOrderer]? with
    | none => .error (.err s!"available common block metadata is missing ORDERER entry at index {i}")
    | some orderer => .ok orderer

/-- The orderer's metadata of the available common blocks, from index `i`. -/
def ordererMetadata : Nat → Nat → List Block → Outcome (List Bytes)
  | _, _, [] => .ok []
  | i, lastConfigNum, ab :: rest => do
    let orderer ← ordererEntry i ab
    let lastConfigNum ← lastConfigFrom W lastConfigNum ab
    let others ← ordererMetadata (i + 1) lastConfigNum rest
    return W.ordererBlockMetadata.marshal ⟨some ⟨lastConfigNum⟩, orderer⟩ :: others

/-- What the proposal in the block's data says about the blocks. -/
def expectedBlocks (proposalBytes : Bytes) : Outcome ExpectedBlocks := do
  let proposal ← (bytesToProposal W proposalBytes).wrap
    "failed to deserialize proposal from block data"
  let hdr ← (Header.deserialize W proposal.header).wrap "failed deserializing proposal header"
  let headers ← availableHeaders hdr.availableCommonBlocks
  let ordererBlockMetadata ← ordererMetadata W 0 v.configBlockNum hdr.availableCommonBlocks
  return ⟨headers, ordererBlockMetadata⟩

/-! ## Reading a signature -/

/-- Opening a message of the signature with this id: its identifier header, and the identity of the
consenter that it names. -/
def openMessage (id : UInt64) (msg : Bytes) (name header place : String) : Outcome (Bytes × Identity) := do
  let signedMsg ← (ofExcept (W.messageToSign.unmarshal msg)).wrap
    s!"failed to unmarshal {name}"
  let idHeader ← (W.unmarshalIdentifierHeader signedMsg.identifierHeader).wrap
    s!"failed to unmarshal identifier header from {header}"
  require (idHeader.identifier.toUInt64 = id)
    s!"signature ID {id} does not match identifier header ID {idHeader.identifier} in {place}"
  match v.searchConsenterIdentityByID idHeader.identifier with
  | some identity => return (signedMsg.identifierHeader, identity)
  | none => .error (.err s!"signature with id {id} has unknown consenter identity")

/-- One round of the loop of `collectBlocksSignatures`. -/
def blockSignature (id : UInt64) (i : Nat) (msg value : Bytes) (header : BlockHeader)
    (ordererBlockMetadata : Bytes) : Outcome SignedData := do
  let (identifierHeader, signerIdentity) ← v.openMessage W id msg
    s!"the signature msg in index {i} with id {id}" s!"the signature msg in index {i} with id {id}"
    s!"signature msg in index {i}"
  let computed := W.messageToSign.marshal ⟨identifierHeader, W.blockHeaderBytes header, ordererBlockMetadata⟩
  require (computed = msg)
    s!"signature msg in index {i} with id {id} does not match computed message"
  return ⟨signerIdentity, computed, value⟩

def collectBlocksSignatures (msgs values : List Bytes) (expected : ExpectedBlocks) (id : UInt64) :
    Outcome (List SignedData) := do
  require (msgs.length = values.length ∧ msgs.length = expected.headers.length ∧
      msgs.length = expected.ordererBlockMetadata.length)
    (s!"the length of the msgs, values, blockHeaderBytes and ordererBlockMetadata slices are not equal for " ++
      s!"signature id {id}")
  mapEach (fun i x => v.blockSignature W id i x.1.1 x.1.2 x.2.1 x.2.2) 0
    ((msgs.zip values).zip (expected.headers.zip expected.ordererBlockMetadata))

variable (header : BlockHeader) (proposalOrdererBlockMetadata : Bytes) (expected : ExpectedBlocks) (verifyData : Bool)

/-- What a signature adds to the sets: to that of the header, if its first message matches, and to those of
the blocks. An error stands for `continue`. -/
def readSignature (sig : Signature) : Outcome (Option SignedData × List SignedData) := do
  let values ← ofExcept (W.byteStrings.unmarshal (sig.value.getD []))
  let msgs ← ofExcept (W.byteStrings.unmarshal (sig.msg.getD []))
  require (msgs.length = values.length)
    s!"signature with id {sig.id} has different number of values and msgs"
  require (msgs.length ≠ 0) s!"signature with id {sig.id} has no messages"
  require (verifyData = true → msgs.length = expected.headers.length + 1)
    s!"signature with id {sig.id} has different number of messages than available common blocks"
  let msg ← Outcome.index msgs 0
  let value ← Outcome.index values 0
  let (identifierHeader, signerIdentity) ← v.openMessage W sig.id msg
    s!"the first signature msg with id {sig.id}" "proposal message" "proposal message"
  let signatures ← if verifyData then
      v.collectBlocksSignatures W (msgs.drop 1) (values.drop 1) expected sig.id
    else .ok []
  let computed := W.messageToSign.marshal ⟨identifierHeader, W.blockHeaderBytes header, proposalOrdererBlockMetadata⟩
  return (if computed = msg then some ⟨signerIdentity, computed, value⟩ else none, signatures)

/-- One round of the loop of `Verify` over the signatures. -/
def addSignature (sets : SignatureSets) (sig : Signature) : SignatureSets :=
  match v.readSignature W header proposalOrdererBlockMetadata expected verifyData sig with
  | .ok (first, signatures) =>
    { first := sets.first ++ first.toList
      blocks := sets.blocks.zipWith (fun set sd => set ++ [sd]) signatures }
  | .error _ => sets

/-! ## The check -/

/-- The signature sets of a block with this header and these metadata entries. -/
def signatureSets (consenterBlock : Block) (header : BlockHeader) (md data : List Bytes)
    (verifyData : Bool) : Outcome SignatureSets := do
  let sigsBytes ← Outcome.index md indexSignatures
  let sigs ← (bytesToDecisionSignatures W sigsBytes).wrap
    "failed to deserialize signatures from metadata"
  let proposalMetadata ← Outcome.index md indexOrderer
  let lastConfigIndex ← (getLastConfigIndexFromConsenterBlock W consenterBlock).wrap
    "failed to get last config index from consenter block"
  let expected ← if verifyData then
      Outcome.index data 0 >>= v.expectedBlocks W
    else .ok ⟨[], []⟩
  return sigs.foldl (v.addSignature W header
      (W.ordererBlockMetadata.marshal ⟨some ⟨lastConfigIndex⟩, proposalMetadata⟩) expected verifyData)
    ⟨[], expected.headers.map fun _ => []⟩

def evaluate (number : Nat) (sets : SignatureSets) : Outcome Unit := do
  (ofExcept (v.policy sets.first)).wrap
    s!"failed to evaluate signature set of the first (proposal) signature for block ID {number}"
  forEach (fun i set => (ofExcept (v.policy set)).wrap
    s!"failed to evaluate signature set in index {i} for block ID {number}") 0 sets.blocks

/-- **`BlockSigVerifier.Verify`.** -/
def verify (consenterBlock : Block) (verifyData : Bool) : Outcome Unit :=
  match consenterBlock.header with
  | none => .error (.err "consenter block header is nil")
  | some header =>
    match consenterBlock.metadata with
    | none => .error (.err "consenter block metadata is nil")
    | some [] => .error (.err "consenter block metadata is nil")
    | some md => do
      require (numMetadataIndices ≤ md.length)
        "consenter block metadata len is less than expected"
      require (verifyData = true → consenterBlock.data.getD [] ≠ [])
        "consenter block data is nil or empty"
      let sets ← v.signatureSets W consenterBlock header md (consenterBlock.data.getD []) verifyData
      v.evaluate header.number sets

end BlockSigVerifier

/-! ## What is recomputed is what was signed -/

/-- The orderer's metadata in the message over a block. -/
def Coverage.ordererBlockMetadata (W : Wire) (cov : Coverage) : Bytes :=
  W.ordererBlockMetadata.marshal ⟨some ⟨cov.lastConfig⟩, cov.orderer⟩

section Recomputed

variable {W : Wire} {v : BlockSigVerifier} {c : Consensus} {signer : Signer} {n : Nat}
  {blocks : List Block} {covs : List Coverage} {identity : Identity}

namespace BlockSigVerifier

theorem availableHeaders_of_covers (h : Covers W n blocks covs) :
    availableHeaders blocks = .ok (covs.map (·.header)) := by
  unfold availableHeaders
  generalize 0 = i
  induction h generalizing i with
  | nil => rfl
  | cons hof _ _ ih =>
    rw [mapEach, hof.header, ok_bind, ih]
    rfl

theorem ordererEntry_of {cov : Coverage} {ab} (hof : cov.Of ab) (i : Nat) : ordererEntry i ab = .ok cov.orderer := by
  obtain ⟨md, hmd, horderer⟩ := hof.orderer
  simp [ordererEntry, hmd, horderer]

/-- The verifier carries the last config from block to block as the signer does. -/
theorem ordererMetadata_of_covers (h : Covers W n blocks covs) (i : Nat) :
    ordererMetadata W i n blocks = .ok (covs.map (Coverage.ordererBlockMetadata W)) := by
  induction h generalizing i with
  | nil => rfl
  | cons hof hlast _ ih =>
    rw [ordererMetadata, ordererEntry_of hof, ok_bind, lastConfigFrom_eq hof, ok_bind, ← hlast, ih]
    rfl

/-- What has to be signed of these blocks. -/
def expectedOf (W : Wire) (covs : List Coverage) : ExpectedBlocks :=
  ⟨covs.map (·.header), covs.map (Coverage.ordererBlockMetadata W)⟩

/-- **What is recomputed from a stored proposal** is what a signer with the same last config block has
signed. -/
theorem expectedBlocks_of_covers {p hdr} (hhdr : Header.deserialize W p.header = .ok hdr)
    (h : Covers W v.configBlockNum hdr.availableCommonBlocks covs) :
    v.expectedBlocks W (proposalToBytes W p) = .ok (expectedOf W covs) := by
  obtain ⟨raw, ph, hraw, -, -, -⟩ := Header.deserialize_eq_ok.mp hhdr
  have hstored : p.stored.header = p.header := by simp [Proposal.stored, hraw]
  rw [expectedBlocks, bytesToProposal_proposalToBytes, wrap_ok, ok_bind, hstored, hhdr,
    wrap_ok, ok_bind, availableHeaders_of_covers h, ok_bind, ordererMetadata_of_covers h]
  rfl

/-! ## A genuine signature -/

/-- The verifier knows the consenter by its id. -/
def Knows (v : BlockSigVerifier) (c : Consensus) (identity : Identity) : Prop :=
  v.searchConsenterIdentityByID c.partyID.toUInt32 = some identity

theorem openMessage_own (hknows : v.Knows c identity) (header : BlockHeader) (nonce : Bytes)
    (lastConfig : Nat) (consenterMetadata : Bytes) (name idName place : String) :
    v.openMessage W c.selfID (messageToSign W header (newIdentifierHeader W c.partyID nonce) lastConfig
        consenterMetadata) name idName place = .ok (newIdentifierHeader W c.partyID nonce, identity) := by
  have hid : W.identifierHeader.unmarshal (newIdentifierHeader W c.partyID nonce) =
      .ok ⟨c.partyID.toUInt32, nonce⟩ := Codec.unmarshal_marshal _ _
  unfold Knows at hknows
  simp [openMessage, messageToSign, Wire.unmarshalIdentifierHeader, hid, Consensus.selfID, hknows, require_true]

theorem blockSignature_own (hknows : v.Knows c identity) {cov : Coverage} {sm : SignedMessage}
    {nonce} (hmsg : sm.msg = cov.message W (newIdentifierHeader W c.partyID nonce)) (i : Nat) :
    v.blockSignature W c.selfID i sm.msg sm.value cov.header (cov.ordererBlockMetadata W) =
      .ok ⟨identity, sm.msg, sm.value⟩ := by
  rw [hmsg, Coverage.message, blockSignature, openMessage_own hknows, ok_bind]
  simp [messageToSign, Coverage.ordererBlockMetadata, require_true]

def signedDataOf (identity : Identity) (sm : SignedMessage) : SignedData :=
  ⟨identity, sm.msg, sm.value⟩

theorem collectBlocksSignatures_own (hknows : v.Knows c identity) {signed}
    {i : Nat} (hsigned : c.SignedAs W signer i covs signed) :
    v.collectBlocksSignatures W (signed.map (·.msg)) (signed.map (·.value)) (expectedOf W covs)
      c.selfID = .ok (signed.map (signedDataOf identity)) := by
  obtain ⟨hlen, hsigned⟩ := hsigned
  rw [collectBlocksSignatures, require_true _ (by simp [expectedOf, hlen]), ok_bind]
  refine mapEach_eq_ok_of_getElem? (by simp [expectedOf, hlen]) fun k x sd hx hsd => ?_
  obtain ⟨sm, hsm, rfl⟩ := Option.map_eq_some_iff.mp (getElem?_map .. ▸ hsd)
  obtain ⟨cov, hcov⟩ : ∃ cov, covs[k]? = some cov :=
    ⟨_, List.getElem?_eq_getElem (hlen ▸ (lt_of_getElem? hsm))⟩
  obtain ⟨⟨msg, value⟩, header, metadata⟩ := x
  obtain ⟨⟨rfl, rfl⟩, rfl, rfl⟩ : (sm.msg = msg ∧ sm.value = value) ∧ cov.header = header ∧
      cov.ordererBlockMetadata W = metadata := by
    simpa [expectedOf, getElem?_zip_eq_some, hsm, hcov] using hx
  exact blockSignature_own hknows (hsigned k cov sm hcov hsm).1 _

/-- **What a genuine signature adds**: to the sets of the blocks its signatures over them, and to that of
the header its signature over the proposal, if that one covers the header of the stored block. -/
theorem readSignature_own (hknows : v.Knows c identity)
    {first signed signedHeader header signedLastConfig lastConfig metadata}
    (hfirst : first.msg = messageToSign W signedHeader
      (newIdentifierHeader W c.partyID (signer.nonce 0)) signedLastConfig metadata)
    (hsigned : c.SignedAs W signer 1 covs signed) :
    v.readSignature W header (W.ordererBlockMetadata.marshal ⟨some ⟨lastConfig⟩, metadata⟩)
        (expectedOf W covs) true (c.packSignature W (first :: signed)) =
      .ok (if header = signedHeader ∧ lastConfig = signedLastConfig then
          some (signedDataOf identity first) else none, signed.map (signedDataOf identity)) := by
  have hcomputed : (W.messageToSign.marshal ⟨newIdentifierHeader W c.partyID (signer.nonce 0),
      W.blockHeaderBytes header, W.ordererBlockMetadata.marshal ⟨some ⟨lastConfig⟩, metadata⟩⟩ =
        first.msg) ↔ header = signedHeader ∧ lastConfig = signedLastConfig := by
    rw [hfirst]
    simp [messageToSign, Wire.blockHeaderBytes, Codec.marshal_inj]
  have hcollect := collectBlocksSignatures_own hknows hsigned
  have hopen := @openMessage_own W v c identity hknows signedHeader (signer.nonce 0) signedLastConfig
    metadata s!"the first signature msg with id {c.selfID}" "proposal message" "proposal message"
  rw [← hfirst] at hopen
  simp only [readSignature, Consensus.packSignature, Option.getD_some, Codec.unmarshal_marshal,
    Outcome.ofExcept_ok, Outcome.ok_bind, List.map_cons, drop_succ_cons, drop_zero]
  rw [Outcome.require_true _ (by simp), Outcome.ok_bind, Outcome.require_true _ (by simp),
    Outcome.ok_bind, Outcome.require_true _ (by simp [expectedOf, hsigned.1]), Outcome.ok_bind]
  simp only [Outcome.index, List.getElem?_cons_zero, Outcome.ok_bind, hopen, if_true, hcollect,
    hcomputed, Outcome.pure_eq]
  split
  · rename_i heq
    rw [hcomputed.mpr heq]
    rfl
  · rfl

end BlockSigVerifier

end Recomputed

/-! ## The sets -/

section Sets

variable {W : Wire} {v : BlockSigVerifier} {header : BlockHeader} {metadata : Bytes} {expected : ExpectedBlocks}

namespace BlockSigVerifier

theorem length_readSignature {sig first l} (h : v.readSignature W header metadata expected true sig = .ok (first, l)) :
    l.length = expected.headers.length := by
  simp only [readSignature, collectBlocksSignatures, if_true, bind_eq_ok, require_eq_ok] at h
  obtain ⟨values, -, msgs, -, _, -, _, -, _, -, msg, -, value, -, ⟨idHeader, identity⟩, -, signatures,
    ⟨_, ⟨hvalues, hheaders, hmetadata⟩, hcollect⟩, hret⟩ := h
  cases hret
  rw [length_mapEach hcollect, length_zip, length_zip, length_zip]
  omega

variable (v W header metadata expected) in
/-- What a signature adds to the set of the header. -/
def addedToFirst (sig : Signature) : List SignedData :=
  match v.readSignature W header metadata expected true sig with
  | .ok (first, _) => first.toList
  | .error _ => []

variable (v W header metadata expected) in
/-- What a signature adds to the set of the block at index `k`. -/
def addedToBlock (k : Nat) (sig : Signature) : List SignedData :=
  match v.readSignature W header metadata expected true sig with
  | .ok (_, signatures) => signatures[k]?.toList
  | .error _ => []

theorem addSignature_eq {sets} (hlen : sets.blocks.length = expected.headers.length) (sig : Signature) :
    let sets' := v.addSignature W header metadata expected true sets sig
    sets'.first = sets.first ++ v.addedToFirst W header metadata expected sig ∧
      sets'.blocks.length = expected.headers.length ∧
      ∀ k set, sets.blocks[k]? = some set →
        sets'.blocks[k]? = some (set ++ v.addedToBlock W header metadata expected k sig) := by
  unfold addSignature addedToFirst addedToBlock
  cases hread : v.readSignature W header metadata expected true sig with
  | error e => simp [hlen]
  | ok r =>
    obtain ⟨first, signatures⟩ := r
    have hsigs := length_readSignature hread
    refine ⟨rfl, by simp [hlen, hsigs], fun k set hset => ?_⟩
    have hk := lt_of_getElem? hset
    have hsd : signatures[k]? = some (signatures.get ⟨k, by omega⟩) := getElem?_eq_getElem (by omega)
    simp [getElem?_zipWith, hset, hsd]

/-- **The loop over the signatures**: every set is what the signatures add to it, in order. -/
theorem foldl_addSignature (sigs : List Signature) {sets} (hlen : sets.blocks.length = expected.headers.length) :
    let sets' := sigs.foldl (v.addSignature W header metadata expected true) sets
    sets'.first = sets.first ++ sigs.flatMap (v.addedToFirst W header metadata expected) ∧
      sets'.blocks.length = expected.headers.length ∧
      ∀ k set, sets.blocks[k]? = some set → sets'.blocks[k]? =
          some (set ++ sigs.flatMap (v.addedToBlock W header metadata expected k)) := by
  induction sigs generalizing sets with
  | nil => simp [hlen]
  | cons sig sigs ih =>
    obtain ⟨hfirst, hlen', hblocks⟩ := @addSignature_eq W v header metadata expected sets hlen sig
    obtain ⟨hfirst', hlen'', hblocks'⟩ := ih hlen'
    refine ⟨?_, hlen'', fun k set hset => ?_⟩
    · rw [foldl_cons, hfirst', hfirst, flatMap_cons, append_assoc]
    · rw [foldl_cons, hblocks' k _ (hblocks k set hset), flatMap_cons, append_assoc]

def storedSets (v : BlockSigVerifier) (W : Wire) (number : Nat) (p : Proposal)
    (signatures : List Signature) (prevHash : Bytes) (lastConfig : Nat) (covs : List Coverage) : SignatureSets :=
  (signatures.map Signature.stored).foldl (v.addSignature W (decisionBlockHeader W number p prevHash)
      (W.ordererBlockMetadata.marshal ⟨some ⟨lastConfig⟩, p.metadata.getD []⟩) (expectedOf W covs) true)
    ⟨[], (expectedOf W covs).headers.map fun _ => []⟩

theorem getLastConfigIndex_create {number} (hnumber : number ≠ 0) (p : Proposal)
    (signatures : List Signature) (prevHash : Bytes) (lastConfig : Nat) : getLastConfigIndexFromConsenterBlock W
        (createBlockToAppendFromDecision W number p signatures prevHash lastConfig) = .ok lastConfig := by
  have hentry : getMetadataFromBlock W
      (createBlockToAppendFromDecision W number p signatures prevHash lastConfig) indexLastConfig
        "LAST_CONFIG" = .ok ⟨W.lastConfig.marshal ⟨lastConfig⟩, []⟩ := by
    simp [getMetadataFromBlock, createBlockToAppendFromDecision, initBlockMetadata, numMetadataIndices,
      indexSignatures, indexOrderer, indexLastConfig, replicate, lastConfigEntry]
  have hheader : (createBlockToAppendFromDecision W number p signatures prevHash lastConfig).header =
    some (decisionBlockHeader W number p prevHash) := rfl
  simp only [getLastConfigIndexFromConsenterBlock, hheader, decisionBlockHeader, if_neg hnumber, hentry]
  simp

section Stored

variable {number : Nat} {p : Proposal} {hdr : Header} {covs : List Coverage}

section

variable (hnumber : number ≠ 0) (hhdr : Header.deserialize W p.header = .ok hdr)
  (hcovers : Covers W v.configBlockNum hdr.availableCommonBlocks covs) (signatures : List Signature)
  (prevHash : Bytes) (lastConfig : Nat)
include hnumber hhdr hcovers signatures prevHash lastConfig

/-- The sets of a stored decision are computed from what is recomputed of it. -/
theorem signatureSets_stored :
    v.signatureSets W (createBlockToAppendFromDecision W number p signatures prevHash lastConfig)
        (decisionBlockHeader W number p prevHash)
        [decisionSignaturesToBytes W signatures, lastConfigEntry W lastConfig, [], p.metadata.getD [], []]
        [proposalToBytes W p] true = .ok (v.storedSets W number p signatures prevHash lastConfig covs) := by
  have hlast := @getLastConfigIndex_create W number hnumber p signatures prevHash lastConfig
  have hexpected := expectedBlocks_of_covers hhdr hcovers
  simp only [signatureSets, Outcome.index, indexSignatures, indexOrderer, List.getElem?_cons_zero,
    List.getElem?_cons_succ, Outcome.ok_bind, bytesToDecisionSignatures_toBytes, Outcome.wrap_ok,
    hlast, hexpected, if_true]
  rfl

/-- **Verifying a stored decision** puts these sets to the policy. -/
theorem verify_stored : v.verify W (createBlockToAppendFromDecision W number p signatures prevHash lastConfig) true =
      v.evaluate number (v.storedSets W number p signatures prevHash lastConfig covs) := by
  have hsets := signatureSets_stored hnumber hhdr hcovers signatures prevHash lastConfig
  have hmetadata : (createBlockToAppendFromDecision W number p signatures prevHash lastConfig).metadata =
    some [decisionSignaturesToBytes W signatures, lastConfigEntry W lastConfig, [], p.metadata.getD [], []] := rfl
  have hheader : (createBlockToAppendFromDecision W number p signatures prevHash lastConfig).header =
    some (decisionBlockHeader W number p prevHash) := rfl
  have hdata : (createBlockToAppendFromDecision W number p signatures prevHash lastConfig).data.getD [] =
    [proposalToBytes W p] := rfl
  simp only [verify, hheader, hmetadata, hdata]
  rw [require_true _ (by simp [numMetadataIndices]), ok_bind, require_true _ (by simp), ok_bind, hsets]
  rfl

end

theorem storedSets_eq (signatures : List Signature) (prevHash : Bytes) (lastConfig : Nat) :
    let sets := v.storedSets W number p signatures prevHash lastConfig covs
    let header := decisionBlockHeader W number p prevHash
    let metadata := W.ordererBlockMetadata.marshal ⟨some ⟨lastConfig⟩, p.metadata.getD []⟩
    sets.first = (signatures.map Signature.stored).flatMap (v.addedToFirst W header metadata (expectedOf W covs)) ∧
      sets.blocks.length = covs.length ∧
      ∀ k < covs.length, sets.blocks[k]? = some ((signatures.map Signature.stored).flatMap
        (v.addedToBlock W header metadata (expectedOf W covs) k)) := by
  obtain ⟨hfirst, hlen, hblocks⟩ := @foldl_addSignature W v (decisionBlockHeader W number p prevHash)
    (W.ordererBlockMetadata.marshal ⟨some ⟨lastConfig⟩, p.metadata.getD []⟩) (expectedOf W covs)
    (signatures.map Signature.stored) ⟨[], (expectedOf W covs).headers.map fun _ => []⟩ (by simp)
  refine ⟨hfirst, hlen.trans (length_map _), fun k hk => ?_⟩
  exact hblocks k [] (by simp [expectedOf, hk])

theorem evaluate_eq_ok {sets u} : v.evaluate number sets = .ok u ↔
      v.policy sets.first = .ok () ∧ ∀ (k : Nat) set, sets.blocks[k]? = some set → v.policy set = .ok () := by
  cases u
  simp only [evaluate, bind_eq_ok, wrap_eq_ok, ofExcept_eq_ok, forEach_eq_ok]
  constructor
  · rintro ⟨_, h, h'⟩
    exact ⟨h, h'⟩
  · rintro ⟨h, h'⟩
    exact ⟨(), h, h'⟩

end Stored

end BlockSigVerifier

end Sets

end Arma
