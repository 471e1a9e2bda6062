import Arma.Consensus.Chain
import Arma.Synchronizer.Agreement

/-!
# Pulling decisions from others

Model of `ConsenterBlockVerifier` (`node/consensus/synchronizer/consenter_block_verifier.go`) with
`ConsenterConfigBlockOperations` (`node/consensus/state/consenter_block_operations.go`). A consenter that has fallen
behind pulls decisions from nodes that it does not trust. Every block is verified on top of the last one that was
accepted and under the config in force, and after a config decision the config is replaced (`processMsg` in
`common/deliverclient/blocksprovider/block_receiver.go`).

* Whether a decision is a config decision is read from its LAST_CONFIG entry (`isConfigDecision`); the config is the
  one in the last block of the decision.
* The last config of the decision itself is read from its LAST_CONFIG entry and is compared with nothing but the
  messages that were signed; that of the blocks in it is counted by the verifier.

Results:
* **`Pulled.certified`**: the accepted blocks are a chain, and each of them is certified under the config that was in
  force before it.
* `future_index_accepted`: a decision with a last config that is not even a decision yet is accepted if the consenters
  have signed it.
-/

namespace Arma

open Arma.Lib Outcome List

/-! ## Config decisions -/

/-- `channelconfig.Bundle`, of which the block validation policy and the consenters in the orderer section are
read. -/
structure Bundle where
  policy : Option (List SignedData → Except String Unit)
  consenters : Option (List Consenter)

/-- `channelconfig.NewBundle`, from a channel and the bytes of a config envelope. -/
abbrev NewBundle : Type := String → Bytes → Except String Bundle

def sigVerifierFromConfig (newBundle : NewBundle) (configuration : Bytes) (channel : String) (configBlockNum : Nat) :
    Outcome BlockSigVerifier := do
  let bundle ← ofExcept (newBundle channel configuration)
  match bundle.policy, bundle.consenters with
  | none, _ => .error (.err "no `/Channel/Orderer/BlockValidation` policy in config block")
  | some _, none => .error (.err "no orderer section in config block")
  | some policy, some consenters => return { policy, consenters, configBlockNum }

section Operations

variable (W : Wire)

/-- `CommonConfigBlockOperations.ConfigFromBlock`. The config envelope is given back as its bytes. -/
def commonConfigFromBlock (block : Block) : Outcome Bytes :=
  match block.header, block.data with
  | some header, some (txn :: _) => do
    let env ← W.unmarshalEnvelope txn
    let payload ← W.unmarshalPayload env.payload
    if header.number ≠ 0 then
      match payload.channelHeader with
      | none => .error (.err "nil header in payload")
      | some raw => do
        let chdr ← (ofExcept (W.channelHeader.unmarshal raw)).wrap "error unmarshalling ChannelHeader"
        require (chdr.type = headerTypeConfig) "not a config block"
    let _ ← (ofExcept (W.configEnvelope.unmarshal payload.data)).wrap "invalid config envelope"
    return payload.data
  | _, _ => .error (.err "empty block")

/-- `ConsenterConfigBlockOperations.IsConfigBlock`. -/
def isConfigDecision (block : Block) : Bool :=
  match block.header with
  | none => false
  | some header =>
    -- the genesis block is a config block
    if header.number = 0 then true
    else match getLastConfigIndexFromConsenterBlock W block with
      | .ok lastConfigIndex => lastConfigIndex = header.number
      | .error _ => false

def extractFabricConfigBlock (block : Block) : Outcome Block :=
  match block.header, block.data with
  | none, _ => .error (.err "block header is nil")
  | some _, none => .error (.err "block data is empty")
  | some _, some [] => .error (.err "block data is empty")
  | some _, some (_ :: _) => do
    let proposal ← (consenterBlockToProposal W block).wrap "failed to extract proposal from consenter block"
    let header ← (Header.deserialize W proposal.header).wrap "failed to deserialize header"
    match header.availableCommonBlocks.getLast? with
    | none => .error (.err "no available common blocks in consenter block")
    | some fabricConfigBlock => return fabricConfigBlock

def configFromBlock (block : Block) : Outcome Bytes := do
  let fabricConfigBlock ← extractFabricConfigBlock W block
  require (isConfigBlock W fabricConfigBlock = true) "Consenter decision block does not contain a config block"
  commonConfigFromBlock W fabricConfigBlock

def configBlockNumFromBlock (block : Block) : Outcome Nat := do
  let fabricConfigBlock ← extractFabricConfigBlock W block
  require (isConfigBlock W fabricConfigBlock = true) "Consenter decision block does not contain a config block"
  match fabricConfigBlock.header with
  | none => .error (.err "fabric config block header is nil")
  | some header => return header.number

end Operations

/-! ## The verifier -/

structure ConsenterBlockVerifier where
  channelID : String
  lastBlockHeader : BlockHeader
  sigVerifier : BlockSigVerifier

namespace ConsenterBlockVerifier

variable (W : Wire) (newBundle : NewBundle) (c : ConsenterBlockVerifier)

/-- The verifier of signatures under the config in a config decision. -/
def sigVerifierOf (channelID : String) (consenterConfigBlock : Block) : Outcome BlockSigVerifier := do
  let configEnvelope ← (configFromBlock W consenterConfigBlock).wrap "failed to extract config from block"
  let configBlockNum ← (configBlockNumFromBlock W consenterConfigBlock).wrap
    "failed to extract config block number from block"
  require (channelID ≠ "") "channel ID is empty"
  (sigVerifierFromConfig newBundle configEnvelope channelID configBlockNum).wrap "error creating verifier function"

def updateConfig (consenterConfigBlock : Block) : Outcome ConsenterBlockVerifier := do
  let sigVerifier ← sigVerifierOf W newBundle c.channelID consenterConfigBlock
  let lastBlockHeader ← deref consenterConfigBlock.header
  return { c with lastBlockHeader, sigVerifier }

/-- `verifyHeader`, which gives the header back. -/
def verifyHeader (consenterBlock : Block) : Outcome BlockHeader :=
  match consenterBlock.header with
  | none => .error (.err s!"invalid block, header must be different from nil, channel={c.channelID}")
  | some header => do
    require (c.lastBlockHeader.number + 1 = header.number) (s!"expected block number is " ++
      s!"[{c.lastBlockHeader.number + 1}] but actual block number inside block is [{header.number}]")
    let lastBlockHeaderHash := W.blockHeaderHash c.lastBlockHeader
    require (header.previousHash = lastBlockHeaderHash) (s!"Header.PreviousHash of block " ++
      s!"[{header.number}] is different from Hash(block.Header) of previous block, on channel [{c.channelID}], " ++
      s!"received: {hex header.previousHash}, expected: {hex lastBlockHeaderHash}")
    return header

def verifyMetadata (header : BlockHeader) (consenterBlock : Block) : Outcome Unit :=
  require (∃ md ∈ consenterBlock.metadata, numMetadataIndices ≤ md.length)
    (s!"block with id [{header.number}] on channel [{c.channelID}] does not have metadata or contains too few " ++
      "entries")

/-- The part of `VerifyBlock` about the data: they are there, and the header has their hash. -/
def verifyData (header : BlockHeader) : Option (List Bytes) → Outcome Unit
  | none => .error (.err s!"block with id [{header.number}] on channel [{c.channelID}] does not have data")
  | some [] => .error (.err s!"block with id [{header.number}] on channel [{c.channelID}] data length is zero")
  | some data => require (W.digest data = header.dataHash)
      (s!"Header.DataHash is different from Hash(block.Data) for block with id [{header.number}] on channel " ++
        s!"[{c.channelID}]; Header: {hex header.dataHash}, Data: {hex (W.digest data)}")

def verifyBlock (consenterBlock : Block) : Outcome ConsenterBlockVerifier := do
  let header ← c.verifyHeader W consenterBlock
  c.verifyMetadata header consenterBlock
  c.verifyData W header consenterBlock.data
  (c.sigVerifier.verify W consenterBlock true).wrap
    s!"failed to verify signatures of block with id [{header.number}] on channel [{c.channelID}]"
  return { c with lastBlockHeader := header }

/-- A block is taken from another node: it is verified, and a config decision updates the config. -/
def accept (block : Block) : Outcome ConsenterBlockVerifier := do
  let next ← c.verifyBlock W block
  if isConfigDecision W block = true then next.updateConfig W newBundle block else return next

end ConsenterBlockVerifier

/-- **A run of the verifier**: whatever is offered is accepted or refused. What was accepted is kept in order. -/
inductive Pulled (W : Wire) (newBundle : NewBundle) (c₀ : ConsenterBlockVerifier) :
    List Block → ConsenterBlockVerifier → Prop
  | start : Pulled W newBundle c₀ [] c₀
  | refused {blocks c block e} (h : Pulled W newBundle c₀ blocks c) (hverify : c.verifyBlock W block = .error e) :
      Pulled W newBundle c₀ blocks c
  | accepted {blocks c c' block}
      (h : Pulled W newBundle c₀ blocks c) (haccept : c.accept W newBundle block = .ok c') :
      Pulled W newBundle c₀ (blocks ++ [block]) c'

/-! ## Certified decisions -/

/-- **The policy is satisfied by signatures of configured consenters over `cov`**: every one is of a consenter in the
config, over the message with an identifier header that names it. -/
structure BlockSigVerifier.Certifies (v : BlockSigVerifier) (W : Wire) (cov : Coverage) (set : List SignedData) :
    Prop where
  policy : v.policy set = .ok ()
  signed : ∀ sd ∈ set, ∃ consenter ∈ v.consenters, ∃ identifierHeader idHeader,
    W.unmarshalIdentifierHeader identifierHeader = .ok idHeader ∧ idHeader.identifier = consenter.id ∧
      sd.identity = consenter.identity ∧ sd.data = cov.message W identifierHeader

/-- **A decision is certified**: the policy is satisfied over the header of the decision, its ORDERER entry and the
last config that its LAST_CONFIG entry states, and over the header of each block in it, the ORDERER entry of that block
and the number of the last config block up to it. -/
structure CertifiedDecision (W : Wire) (v : BlockSigVerifier) (block : Block) (cov : Coverage) (hdr : Header)
    (covs : List Coverage) : Prop where
  covered : cov.Of block
  lastConfig : getLastConfigIndexFromConsenterBlock W block = .ok cov.lastConfig
  header : ∃ p, consenterBlockToProposal W block = .ok p ∧ Header.deserialize W p.header = .ok hdr
  covers : Covers W v.configBlockNum hdr.availableCommonBlocks covs
  decision : ∃ set, v.Certifies W cov set
  blocks : ∀ cov' ∈ covs, ∃ set, v.Certifies W cov' set

section Certified

variable {W : Wire} {v : BlockSigVerifier} {header : BlockHeader} {metadata : Bytes} {expected : ExpectedBlocks}

namespace BlockSigVerifier

theorem openMessage_eq_ok {id msg identifierHeader name header place identity}
    (h : v.openMessage W id msg name header place = .ok (identifierHeader, identity)) :
    ∃ consenter ∈ v.consenters, ∃ idHeader, W.unmarshalIdentifierHeader identifierHeader = .ok idHeader ∧
      idHeader.identifier = consenter.id ∧ identity = consenter.identity := by
  simp only [openMessage, bind_eq_ok, wrap_eq_ok] at h
  obtain ⟨signedMsg, -, idHeader, hid, -, -, h⟩ := h
  split at h
  · rename_i found hfound
    cases h
    obtain ⟨consenter, hfind, rfl⟩ := Option.map_eq_some_iff.mp hfound
    exact ⟨consenter, mem_of_find?_eq_some hfind, idHeader, hid, Eq.symm (by simpa using find?_some hfind), rfl⟩
  · cases h

/-- What a signature of a set is: one by a consenter of the config, over a message with this header and this
orderer's metadata. -/
def SignedOver (v : BlockSigVerifier) (W : Wire) (header : BlockHeader) (metadata : Bytes) (sd : SignedData) : Prop :=
  ∃ consenter ∈ v.consenters, ∃ identifierHeader idHeader,
    W.unmarshalIdentifierHeader identifierHeader = .ok idHeader ∧ idHeader.identifier = consenter.id ∧
      sd.identity = consenter.identity ∧
      sd.data = W.messageToSign.marshal ⟨identifierHeader, W.blockHeaderBytes header, metadata⟩

variable {sd : SignedData}

theorem blockSignature_eq_ok {id i msg value}
    (h : v.blockSignature W id i msg value header metadata = .ok sd) : v.SignedOver W header metadata sd := by
  simp only [blockSignature, bind_eq_ok] at h
  obtain ⟨⟨identifierHeader, identity⟩, hopen, -, -, hret⟩ := h
  obtain ⟨consenter, hmem, idHeader, hid, hidentifier, rfl⟩ := openMessage_eq_ok hopen
  cases hret
  exact ⟨consenter, hmem, identifierHeader, idHeader, hid, hidentifier, rfl, rfl⟩

variable {sig : Signature}

/-- **What a compound signature adds to the sets**: signatures over what is expected. -/
theorem readSignature_eq_ok {first signatures}
    (h : v.readSignature W header metadata expected true sig = .ok (first, signatures)) :
    (∀ sd ∈ first, v.SignedOver W header metadata sd) ∧
      ∀ (k : Nat) (sd : SignedData) header' metadata', signatures[k]? = some sd →
        expected.headers[k]? = some header' → expected.ordererBlockMetadata[k]? = some metadata' →
        v.SignedOver W header' metadata' sd := by
  simp only [readSignature, collectBlocksSignatures, if_true, bind_eq_ok] at h
  obtain ⟨values, -, msgs, -, -, -, -, -, -, -, msg, -, value, -, ⟨identifierHeader, identity⟩, hopen, signatures',
    ⟨-, -, hcollect⟩, hret⟩ := h
  cases hret
  constructor
  · intro sd hsd
    obtain ⟨consenter, hmem, idHeader, hid, hidentifier, rfl⟩ := openMessage_eq_ok hopen
    split at hsd
    · cases hsd
      exact ⟨consenter, hmem, identifierHeader, idHeader, hid, hidentifier, rfl, rfl⟩
    · cases hsd
  · intro k sd header' metadata' hsd hheader hmetadata
    obtain ⟨x, hx, hsig⟩ := getElem?_of_mapEach hcollect hsd
    simp only [getElem?_zip_eq_some] at hx
    obtain ⟨-, hheader', hmetadata'⟩ := hx
    cases hheader.symm.trans hheader'
    cases hmetadata.symm.trans hmetadata'
    exact blockSignature_eq_ok hsig

theorem signedOver_of_mem_addedToFirst
    (h : sd ∈ v.addedToFirst W header metadata expected sig) : v.SignedOver W header metadata sd := by
  unfold addedToFirst at h
  split at h
  · rename_i first signatures hread
    exact (readSignature_eq_ok hread).1 sd (Option.mem_toList.mp h)
  · cases h

theorem signedOver_of_mem_addedToBlock {k header' metadata'} (hheader : expected.headers[k]? = some header')
    (hmetadata : expected.ordererBlockMetadata[k]? = some metadata')
    (h : sd ∈ v.addedToBlock W header metadata expected k sig) : v.SignedOver W header' metadata' sd := by
  unfold addedToBlock at h
  split at h
  · rename_i first signatures hread
    exact (readSignature_eq_ok hread).2 k sd header' metadata' (Option.mem_toList.mp h) hheader hmetadata
  · cases h

/-! ### What was expected -/

/-- **The blocks that are expected to be signed are covered**, with the last config that the verifier counts. -/
theorem covers_of_expected {blocks i n headers mds} (hheaders : mapEach (fun i ab => match Block.header ab with
      | some header => .ok header
      | none => .error (.err s!"available common block header is nil at index {i}")) i blocks = .ok headers)
    (hmds : ordererMetadata W i n blocks = .ok mds) :
    ∃ covs, Covers W n blocks covs ∧ headers = covs.map (·.header) ∧
      mds = covs.map (Coverage.ordererBlockMetadata W) := by
  induction blocks generalizing i n headers mds with
  | nil =>
    cases hheaders
    cases hmds
    exact ⟨[], .nil n, rfl, rfl⟩
  | cons ab blocks ih =>
    simp only [mapEach, bind_eq_ok] at hheaders
    simp only [ordererMetadata, bind_eq_ok] at hmds
    obtain ⟨header, hheader, headers', hheaders', hret⟩ := hheaders
    obtain ⟨orderer, horderer, last, hlast, mds', hmds', hret'⟩ := hmds
    cases hret
    cases hret'
    obtain ⟨covs, hcovers, rfl, rfl⟩ := ih hheaders' hmds'
    have hof : Coverage.Of ⟨header, orderer, last⟩ ab := by
      refine ⟨?_, ?_⟩
      · split at hheader
        · rename_i header' hab
          rw [hab, Except.ok.inj hheader]
        · cases hheader
      · unfold ordererEntry at horderer
        split at horderer
        · cases horderer
        · rename_i md hmd
          split at horderer
          · cases horderer
          · rename_i entry hentry
            exact ⟨md, hmd, (Except.ok.inj horderer) ▸ hentry⟩
    rw [lastConfigFrom_eq hof] at hlast
    exact ⟨⟨header, orderer, last⟩ :: covs, .cons hof (Except.ok.inj hlast).symm hcovers, rfl, rfl⟩

theorem expectedBlocks_eq_ok {proposalBytes} (h : v.expectedBlocks W proposalBytes = .ok expected) :
    ∃ p hdr covs, bytesToProposal W proposalBytes = .ok p ∧ Header.deserialize W p.header = .ok hdr ∧
      Covers W v.configBlockNum hdr.availableCommonBlocks covs ∧ expected = expectedOf W covs := by
  simp only [expectedBlocks, bind_eq_ok, wrap_eq_ok] at h
  obtain ⟨p, hp, hdr, hhdr, headers, hheaders, mds, hmds, hret⟩ := h
  obtain ⟨covs, hcovers, rfl, rfl⟩ := covers_of_expected hheaders hmds
  exact ⟨p, hdr, covs, hp, hhdr, hcovers, (Except.ok.inj hret).symm⟩

/-- A set of signatures over a header and its metadata that the policy accepts. -/
theorem certifies_of_signedOver {cov set} (hpolicy : v.policy set = .ok ())
    (h : ∀ sd ∈ set, v.SignedOver W cov.header (cov.ordererBlockMetadata W) sd) : v.Certifies W cov set :=
  ⟨hpolicy, h⟩

/-- **What a block that passes has been certified for.** -/
theorem certifiedDecision_of_verify {block} (h : v.verify W block true = .ok ()) :
    ∃ cov hdr covs, CertifiedDecision W v block cov hdr covs := by
  unfold verify at h
  split at h
  · cases h
  · rename_i header hheader
    split at h
    · cases h
    · cases h
    · rename_i md _ hmd
      simp only [signatureSets, bind_eq_ok, require_eq_ok, index_eq_ok, wrap_eq_ok, if_true] at h
      obtain ⟨-, -, -, -, sets, ⟨sigsBytes, -, sigs, -, orderer, horderer, index, hindex, expected,
        ⟨proposalBytes, hproposal, hexpected⟩, hsets⟩, hevaluate⟩ := h
      obtain ⟨p, hdr, covs, hp, hhdr, hcovers, rfl⟩ := expectedBlocks_eq_ok hexpected
      obtain ⟨hpolicy, hpolicies⟩ := evaluate_eq_ok.mp hevaluate
      cases hsets
      obtain ⟨hfirst, hlen, hblocks⟩ := @foldl_addSignature W v header
        (W.ordererBlockMetadata.marshal ⟨some ⟨index⟩, orderer⟩) (expectedOf W covs) sigs
        ⟨[], (expectedOf W covs).headers.map fun _ => []⟩ (by simp)
      refine ⟨⟨header, orderer, index⟩, hdr, covs, ⟨hheader, md, hmd, horderer⟩, hindex, ⟨p, ?_, hhdr⟩, hcovers, ?_,
        fun cov hcov => ?_⟩
      · rw [consenterBlockToProposal, hheader]
        cases hdata : block.data with
        | none => simp [hdata] at hproposal
        | some data =>
          cases data with
          | nil => simp [hdata] at hproposal
          | cons txn rest =>
            obtain rfl : txn = proposalBytes := by simpa [hdata] using hproposal
            exact hp
      · refine ⟨_, certifies_of_signedOver hpolicy fun sd hsd => ?_⟩
        rw [hfirst, nil_append] at hsd
        obtain ⟨sig, -, hadded⟩ := mem_flatMap.mp hsd
        exact signedOver_of_mem_addedToFirst hadded
      · obtain ⟨k, hk⟩ := getElem?_of_mem hcov
        have hset := hblocks k [] (by simp [expectedOf, hk])
        refine ⟨_, certifies_of_signedOver (hpolicies k _ hset) fun sd hsd => ?_⟩
        rw [nil_append] at hsd
        obtain ⟨sig, -, hadded⟩ := mem_flatMap.mp hsd
        exact signedOver_of_mem_addedToBlock (by simp [expectedOf, hk]) (by simp [expectedOf, hk]) hadded

end BlockSigVerifier

end Certified

/-! ## Along a run -/

section Run

variable {W : Wire} {newBundle : NewBundle} {c₀ c c' : ConsenterBlockVerifier} {blocks : List Block} {block : Block}

/-- The last header of a chain of blocks on top of a header. -/
def lastHeader (header : BlockHeader) (blocks : List Block) : BlockHeader :=
  (blocks.getLast?.bind Block.header).getD header

/-- The config in force after some decisions: that of the last config decision among them. -/
def configInForce (W : Wire) (newBundle : NewBundle) (c₀ : ConsenterBlockVerifier) (blocks : List Block) :
    Outcome BlockSigVerifier :=
  match (blocks.filter (isConfigDecision W)).getLast? with
  | none => .ok c₀.sigVerifier
  | some block => ConsenterBlockVerifier.sigVerifierOf W newBundle c₀.channelID block

/-- **A block that fits**: it follows the header, has the hash of its data, and is certified. -/
structure Fits (W : Wire) (last : BlockHeader) (v : BlockSigVerifier) (block : Block) (header : BlockHeader) :
    Prop where
  header_eq : block.header = some header
  follows : Follows W last header
  data : ∃ data, block.data = some data ∧ W.digest data = header.dataHash
  certified : ∃ cov hdr covs, CertifiedDecision W v block cov hdr covs

namespace ConsenterBlockVerifier

theorem verifyBlock_eq_ok (h : c.verifyBlock W block = .ok c') :
    ∃ header, Fits W c.lastBlockHeader c.sigVerifier block header ∧ c' = { c with lastBlockHeader := header } := by
  simp only [verifyBlock, bind_eq_ok, wrap_eq_ok] at h
  obtain ⟨header, hheader, _, -, _, hdata, _, hverify, hret⟩ := h
  refine ⟨header, ?_, (Except.ok.inj hret).symm⟩
  unfold verifyHeader at hheader
  split at hheader
  · cases hheader
  · rename_i header' hblock
    simp only [bind_eq_ok, require_eq_ok] at hheader
    obtain ⟨-, hnumber, -, hprev, hret'⟩ := hheader
    cases hret'
    refine ⟨hblock, ⟨hnumber.symm, hprev⟩, ?_, BlockSigVerifier.certifiedDecision_of_verify hverify⟩
    unfold verifyData at hdata
    split at hdata
    · cases hdata
    · cases hdata
    · rename_i data _ hdata'
      exact ⟨data, hdata', require_eq_ok.mp hdata⟩

theorem accept_eq_ok (h : c.accept W newBundle block = .ok c') :
    ∃ header, Fits W c.lastBlockHeader c.sigVerifier block header ∧ c'.lastBlockHeader = header ∧
      c'.channelID = c.channelID ∧
      if isConfigDecision W block = true then sigVerifierOf W newBundle c.channelID block = .ok c'.sigVerifier
      else c'.sigVerifier = c.sigVerifier := by
  simp only [accept, bind_eq_ok] at h
  obtain ⟨next, hverify, h⟩ := h
  obtain ⟨header, hfits, rfl⟩ := verifyBlock_eq_ok hverify
  refine ⟨header, hfits, ?_⟩
  split at h
  · rename_i hconfig
    simp only [updateConfig, bind_eq_ok, deref_eq_ok] at h
    obtain ⟨sigVerifier, hsig, header', hheader', hret⟩ := h
    cases hfits.header_eq.symm.trans hheader'
    cases hret
    exact ⟨rfl, rfl, by rw [if_pos hconfig]; exact hsig⟩
  · rename_i hconfig
    cases h
    exact ⟨rfl, rfl, by rw [if_neg hconfig]⟩

theorem accept_of_data (hverify : c.verifyBlock W block = .ok c') (hdecision : isConfigDecision W block = false) :
    c.accept W newBundle block = .ok c' := by
  rw [accept, hverify, ok_bind, if_neg (by simp [hdecision])]
  rfl

end ConsenterBlockVerifier

/-- Where the verifier is after a run: on top of the last accepted block, under the config in force. -/
theorem Pulled.position (h : Pulled W newBundle c₀ blocks c) :
    c.lastBlockHeader = lastHeader c₀.lastBlockHeader blocks ∧
      c.lastBlockHeader.number = c₀.lastBlockHeader.number + blocks.length ∧ c.channelID = c₀.channelID ∧
      configInForce W newBundle c₀ blocks = .ok c.sigVerifier := by
  induction h with
  | start => exact ⟨rfl, rfl, rfl, rfl⟩
  | refused _ _ ih => exact ih
  | accepted _ haccept ih =>
    obtain ⟨hlast, hnumber, hchannel, hconfig⟩ := ih
    obtain ⟨header, hfits, rfl, hchannel', hsig⟩ := ConsenterBlockVerifier.accept_eq_ok haccept
    refine ⟨?_, ?_, hchannel'.trans hchannel, ?_⟩
    · simp [lastHeader, hfits.header_eq]
    · rw [hfits.follows.1, hnumber, length_append, length_singleton, Nat.add_assoc]
    · unfold configInForce at hconfig ⊢
      rw [filter_append]
      split at hsig
      · rename_i hdecision
        rw [filter_cons_of_pos hdecision, filter_nil, getLast?_concat, ← hchannel]
        exact hsig
      · rename_i hdecision
        rw [filter_cons_of_neg hdecision, filter_nil, append_nil, hsig]
        exact hconfig

/-- **Only certified decisions are accepted**: the accepted blocks have consecutive numbers, each one has the hash of
the header before it and that of its data, and the policy of the config that was in force before it is satisfied over
its header and the headers in it. -/
theorem Pulled.certified (h : Pulled W newBundle c₀ blocks c) {k : Nat} (hk : blocks[k]? = some block) :
    ∃ header v, header.number = c₀.lastBlockHeader.number + k + 1 ∧
      configInForce W newBundle c₀ (blocks.take k) = .ok v ∧
      Fits W (lastHeader c₀.lastBlockHeader (blocks.take k)) v block header := by
  induction h with
  | start => cases hk
  | refused _ _ ih => exact ih hk
  | @accepted blocks c _ last h haccept ih =>
    by_cases hlt : k < blocks.length
    · rw [getElem?_append_left hlt] at hk
      rw [take_append_of_le_length (Nat.le_of_lt hlt)]
      exact ih hk
    · obtain ⟨header, hfits, -⟩ := ConsenterBlockVerifier.accept_eq_ok haccept
      obtain ⟨hlast, hnumber, -, hconfig⟩ := h.position
      obtain rfl : k = blocks.length := by
        have := lt_of_getElem? hk
        simp only [length_append, length_singleton] at this
        omega
      obtain rfl : last = block := by simpa using hk
      rw [take_left]
      refine ⟨header, c.sigVerifier, ?_, hconfig, hlast ▸ hfits⟩
      rw [hfits.follows.1, hnumber]

end Run

/-! ## A last config that is not checked -/

section Index

variable {W : Wire} {c : ConsenterBlockVerifier} {s : Consensus} {signer : Signer} {p : Proposal} {hdr : Header}
  {covs : List Coverage} {first : SignedMessage} {signed : List SignedMessage} {signature : Signature}
  {identity : Identity}

theorem isConfigDecision_create {number} (hnumber : number ≠ 0) (p : Proposal) (signatures : List Signature)
    (prevHash : Bytes) (lastConfig : Nat) :
    isConfigDecision W (createBlockToAppendFromDecision W number p signatures prevHash lastConfig) =
      decide (lastConfig = number) := by
  have hheader : (createBlockToAppendFromDecision W number p signatures prevHash lastConfig).header =
    some (decisionBlockHeader W number p prevHash) := rfl
  have hindex := @BlockSigVerifier.getLastConfigIndex_create W number hnumber p signatures prevHash lastConfig
  simp only [isConfigDecision, hheader, hindex]
  exact if_neg hnumber

/-- The first message of a signature covers the decision that is stored with the last config of the signer. -/
theorem Consensus.Signed.coversStored (h : s.Signed W signer p signature hdr covs first signed) (hnum : hdr.num ≠ 0)
    (signatures : List Signature) : CoversStored W signature
      (createBlockToAppendFromDecision W hdr.num p signatures hdr.prevHash (s.signedDecisionNum hdr)) :=
  ⟨_, _, _, _, _, _, by rw [h.signature]; rfl, Codec.unmarshal_marshal _ _, rfl,
    BlockSigVerifier.getLastConfigIndex_create hnum _ _ _ _, congrArg some h.firstMsg⟩

/-- **A decision passes with the last config of its signer**, whatever that is. -/
theorem ConsenterBlockVerifier.verifyBlock_create (h : s.Signed W signer p signature hdr covs first signed)
    (hnum : hdr.num = c.lastBlockHeader.number + 1) (hprev : hdr.prevHash = W.blockHeaderHash c.lastBlockHeader)
    (hknows : c.sigVerifier.Knows s identity) (hconfig : c.sigVerifier.configBlockNum = s.lastConfigBlockNum)
    (hpolicy : ∀ set, set ≠ [] → c.sigVerifier.policy set = .ok ()) : c.verifyBlock W
        (createBlockToAppendFromDecision W hdr.num p [signature] hdr.prevHash (s.signedDecisionNum hdr)) =
      .ok { c with lastBlockHeader := decisionBlockHeader W hdr.num p hdr.prevHash } := by
  have hne : hdr.num ≠ 0 := hnum ▸ Nat.succ_ne_zero _
  obtain ⟨header, md, sets, hcounted⟩ := h.counted hknows hne hconfig rfl (mem_singleton_self signature)
  have hverify : c.sigVerifier.verify W
      (createBlockToAppendFromDecision W hdr.num p [signature] hdr.prevHash (s.signedDecisionNum hdr)) true =
        .ok () := by
    rw [hcounted.verify_eq]
    refine BlockSigVerifier.evaluate_eq_ok.mpr ⟨hpolicy _ (ne_nil_of_mem hcounted.mem_first), ?_⟩
    intro k set hset
    have hk : k < signed.length := hcounted.length_eq ▸ lt_of_getElem? hset
    exact hpolicy _ (ne_nil_of_mem (hcounted.mem_blocks k set _ hset (getElem?_eq_getElem hk)))
  have hheader : c.verifyHeader W
      (createBlockToAppendFromDecision W hdr.num p [signature] hdr.prevHash (s.signedDecisionNum hdr)) =
        .ok (decisionBlockHeader W hdr.num p hdr.prevHash) := by
    have hblock : (createBlockToAppendFromDecision W hdr.num p [signature] hdr.prevHash
      (s.signedDecisionNum hdr)).header = some (decisionBlockHeader W hdr.num p hdr.prevHash) := rfl
    have hnumber : c.lastBlockHeader.number + 1 = (decisionBlockHeader W hdr.num p hdr.prevHash).number := hnum.symm
    have hprev' : (decisionBlockHeader W hdr.num p hdr.prevHash).previousHash = W.blockHeaderHash c.lastBlockHeader :=
      hprev
    simp only [verifyHeader, hblock]
    rw [require_true _ hnumber, ok_bind, require_true _ hprev']
    rfl
  have hmetadata : c.verifyMetadata (decisionBlockHeader W hdr.num p hdr.prevHash)
      (createBlockToAppendFromDecision W hdr.num p [signature] hdr.prevHash (s.signedDecisionNum hdr)) = .ok () :=
    require_true _ ⟨_, rfl, by simp [initBlockMetadata]⟩
  have hdata : c.verifyData W (decisionBlockHeader W hdr.num p hdr.prevHash) (some [proposalToBytes W p]) = .ok () :=
    require_true _ rfl
  rw [verifyBlock, hheader, ok_bind, hmetadata, ok_bind]
  change (c.verifyData W _ (some [proposalToBytes W p]) >>= _) = _
  rw [hdata, ok_bind, hverify]
  rfl

end Index

section Reference

/-- A verifier on top of decision 0, under a config with one consenter. -/
def refBlockVerifier : ConsenterBlockVerifier := ⟨"arma", ⟨0, [], []⟩, refVerifier⟩

/-- The reference consenter, with a decision number of the last config block. -/
def refConsenter (n : DecisionNum) : Consensus :=
  { soleNode with decisionNumOfLastConfigBlock := n }

/-- **Decision 1 is accepted with every last config that the consenter has signed.** -/
theorem pulled_refConsenter (newBundle : NewBundle) {n} (hn : n ≠ 1) :
    ∃ p signature block c, (refConsenter n).signProposal refWire refSigner p = .ok signature ∧
      block = createBlockToAppendFromDecision refWire 1 p [signature]
        (refWire.blockHeaderHash refBlockVerifier.lastBlockHeader) n ∧
      CoversStored refWire signature block ∧ isConfigDecision refWire block = false ∧
      Pulled refWire newBundle refBlockVerifier [block] c := by
  obtain ⟨p, d, -, -, -, hfirst, -, -, hsign, -⟩ :=
    exists_first_decision (refWire.blockHeaderHash refBlockVerifier.lastBlockHeader)
  generalize d.header = hdr at hfirst
  obtain ⟨signature, hsignature⟩ := hsign (refConsenter n)
  obtain ⟨-, hdr', covs, first, signed, hsigned⟩ := Consensus.signProposal_eq_ok.mp hsignature
  cases hfirst.header.symm.trans hsigned.header
  have hne : hdr.num ≠ 0 := hfirst.num ▸ Nat.one_ne_zero
  -- decision 1 is not a config decision
  have hindex : (refConsenter n).signedDecisionNum hdr = n := by
    rw [Consensus.signedDecisionNum, hfirst.num, hfirst.decisionNumOfLastConfigBlock, if_neg Nat.one_ne_zero]
    rfl
  have hblock : createBlockToAppendFromDecision refWire 1 p [signature]
      (refWire.blockHeaderHash refBlockVerifier.lastBlockHeader) n =
        createBlockToAppendFromDecision refWire hdr.num p [signature] hdr.prevHash
          ((refConsenter n).signedDecisionNum hdr) := by
    rw [hfirst.num, hfirst.prevHash, hindex]
  have hknows : refBlockVerifier.sigVerifier.Knows (refConsenter n) ⟨"org1", []⟩ := rfl
  have hverify : refBlockVerifier.verifyBlock refWire _ = .ok _ := ConsenterBlockVerifier.verifyBlock_create hsigned
    hfirst.num hfirst.prevHash hknows rfl fun set hset => if_neg hset
  have hdecision : isConfigDecision refWire (createBlockToAppendFromDecision refWire hdr.num p [signature] hdr.prevHash
      ((refConsenter n).signedDecisionNum hdr)) = false := by
    rw [isConfigDecision_create hne, hindex, hfirst.num]
    exact decide_eq_false hn
  have haccept : refBlockVerifier.accept refWire newBundle _ = .ok _ :=
    ConsenterBlockVerifier.accept_of_data hverify hdecision
  have hpulled := Pulled.accepted .start haccept
  rw [← hblock] at hdecision hpulled
  exact ⟨p, signature, _, _, hsignature, rfl, hblock ▸ hsigned.coversStored hne [signature], hdecision, hpulled⟩

/-- A configuration library that makes no bundle. -/
def refNewBundle : NewBundle := fun _ _ => .error "no bundle"

/-- Decision 1 is accepted with decision 77 as its last config, on top of decision 0: the only signature is over it. -/
theorem future_index_accepted : ∃ p signature block header c, Pulled refWire refNewBundle refBlockVerifier [block] c ∧
      refBlockVerifier.lastBlockHeader.number = 0 ∧ block.header = some header ∧ header.number = 1 ∧
      isConfigDecision refWire block = false ∧ consenterBlockToDecision refWire block = .ok (p, [signature]) ∧
      getLastConfigIndexFromConsenterBlock refWire block = .ok 77 ∧ CoversStored refWire signature block := by
  obtain ⟨p, signature, block, c, hsign, rfl, hcovers, hdecision, hpulled⟩ := @pulled_refConsenter refNewBundle 77
    (by decide)
  have hstored : signature.stored = signature := by
    obtain ⟨-, hdr, covs, first, signed, hsigned⟩ := Consensus.signProposal_eq_ok.mp hsign
    rw [hsigned.signature]
    rfl
  refine ⟨p.stored, signature, _, _, c, hpulled, rfl, rfl, rfl, hdecision, ?_,
    BlockSigVerifier.getLastConfigIndex_create Nat.one_ne_zero _ _ _ _, hcovers⟩
  rw [consenterBlockToDecision_create, map_singleton, hstored]

/-- Decision 1 is accepted as the reference node has signed it, and it is certified. -/
theorem certified_refConsenter :
    ∃ block c header v, Pulled refWire refNewBundle refBlockVerifier [block] c ∧ header.number = 1 ∧
      configInForce refWire refNewBundle refBlockVerifier [] = .ok v ∧
      Fits refWire refBlockVerifier.lastBlockHeader v block header := by
  obtain ⟨p, signature, block, c, -, -, -, -, hpulled⟩ := @pulled_refConsenter refNewBundle 0 (by decide)
  obtain ⟨header, v, hnumber, hconfig, hfits⟩ := @Pulled.certified _ _ _ _ _ block hpulled 0 rfl
  exact ⟨block, c, header, v, hpulled, hnumber, hconfig, hfits⟩

end Reference

end Arma
