import Arma.Consensus.Accept
import Arma.Consensus.History
import Arma.Synchronizer.SigVerifier

/-!
# Signed, verified, stored and verified again

The messages of a compound signature are computed three times: by the consenter that signs (`SignProposal`), by
its peers (`VerifyConsenterSig`), and, from the stored decision, by a consenter that synchronizes
(`BlockSigVerifier.Verify`). They agree on everything that comes from the proposal and from the config bookkeeping
that consenters share. They do not agree on where the previous hash comes from: the signer takes it from the
leader's header, the stored block has the one of the node's own chain, and `VerifyProposal` does not compare them.

* **`Reachable.signature_accepted`**: over an honestly assembled proposal the signature of an honest consenter
  passes at its peers, and is counted when the stored decision is verified.
* **`Reachable.stored_as_signed_iff`**: over an accepted proposal the stored header is the signed one, and the
  stored decision passes, iff the leader's header has the node's previous hash.
* **`foreign_prevHash_stored`**: a leader that sends another one is not found out before.
-/

namespace Arma

open Arma.Lib List Consensus BlockSigVerifier

/-- The config bookkeeping: the number of the last config block, and the decision it was in. -/
structure SameBookkeeping (c s : Consensus) : Prop where
  lastConfigBlockNum : s.lastConfigBlockNum = c.lastConfigBlockNum
  decisionNumOfLastConfigBlock : s.decisionNumOfLastConfigBlock = c.decisionNumOfLastConfigBlock

theorem SameBookkeeping.refl (c : Consensus) : SameBookkeeping c c := ⟨rfl, rfl⟩

theorem SameBookkeeping.signedDecisionNum {c s} (h : SameBookkeeping c s) (hdr : Header) :
    s.signedDecisionNum hdr = c.signedDecisionNum hdr := by
  unfold Consensus.signedDecisionNum
  rw [h.decisionNumOfLastConfigBlock]

/-! ## What is covered -/

section Covers

variable {W : Wire} {n : Nat} {blocks : List Block} {covs covs' : List Coverage}

theorem Covers.length_eq (h : Covers W n blocks covs) : covs.length = blocks.length := by
  induction h with
  | nil => rfl
  | cons _ _ _ ih => rw [length_cons, length_cons, ih]

theorem Covers.unique (h : Covers W n blocks covs) (h' : Covers W n blocks covs') : covs = covs' := by
  induction h generalizing covs' with
  | nil => cases h'; rfl
  | @cons n ab cov blocks covs hof hlast _ ih =>
    obtain ⟨cov', rest, rfl, hof', hlast', hrest⟩ := covers_cons h'
    obtain ⟨hheader, horderer⟩ := hof.unique hof'
    obtain rfl : cov = cov' := by
      obtain ⟨header, orderer, last⟩ := cov
      obtain ⟨header', orderer', last'⟩ := cov'
      simp only at hheader horderer hlast hlast'
      subst hheader horderer
      rw [hlast, hlast']
    rw [ih hrest]

theorem exists_covers (h : ∀ ab ∈ blocks, ∃ cov : Coverage, cov.Of ab) (n : Nat) : ∃ covs, Covers W n blocks covs := by
  induction blocks generalizing n with
  | nil => exact ⟨[], .nil n⟩
  | cons ab blocks ih =>
    obtain ⟨cov, hof⟩ := h ab (by simp)
    obtain ⟨covs, hcovs⟩ := ih (fun ab' hab' => h ab' (by simp [hab']))
      (if isConfigBlock W ab then cov.header.number else n)
    exact ⟨{ cov with lastConfig := if isConfigBlock W ab then cov.header.number else n } :: covs,
      .cons ⟨hof.header, hof.orderer⟩ rfl hcovs⟩

/-- **Where only the last block is a config block**, carrying the last config on and starting anew at each
block come to the same. -/
theorem Covers.lastConfig_eq (h : Covers W n blocks covs) (hdata : ∀ ab ∈ blocks.dropLast, isConfigBlock W ab = false) :
    ∀ (k : Nat) (cov : Coverage) ab, covs[k]? = some cov → blocks[k]? = some ab → cov.Of ab ∧
      cov.lastConfig = if isConfigBlock W ab then cov.header.number else n := by
  induction h with
  | nil => simp
  | @cons n ab cov blocks covs hof hlast hrest ih =>
    intro k cov' ab' hcov hab
    cases k with
    | zero =>
      obtain rfl : cov = cov' := by simpa using hcov
      obtain rfl : ab = ab' := by simpa using hab
      exact ⟨hof, hlast⟩
    | succ k =>
      have hab' : blocks[k]? = some ab' := by simpa using hab
      have hne : blocks ≠ [] := ne_nil_of_mem (mem_of_getElem? hab')
      rw [dropLast_cons_of_ne_nil hne] at hdata
      have hn : cov.lastConfig = n := by simp [hlast, hdata ab (by simp)]
      rw [hn] at ih
      exact ih (fun b hb => hdata b (by simp [hb])) k cov' ab' (by simpa using hcov) hab'

end Covers

/-! ## An honest header -/

section Honest

variable {W : Wire} {c s v : Consensus} {r : Computed} {num : DecisionNum} {signer : Signer}

theorem covered_header : ∀ ab ∈ (r.header W c num).availableCommonBlocks, ∃ cov : Coverage, cov.Of ab := by
  intro ab hab
  obtain ⟨pb, -, rfl⟩ := mem_map.mp hab
  exact ⟨⟨pb.header, pb.orderer, 0⟩, rfl, _, rfl, rfl⟩

theorem isConfigBlock_dropLast :
    ∀ ab ∈ (r.header W c num).availableCommonBlocks.dropLast, isConfigBlock W ab = false := by
  intro ab hab
  rw [Computed.header, ← map_dropLast] at hab
  obtain ⟨pb, hpb, rfl⟩ := mem_map.mp hab
  obtain ⟨k, hk⟩ := mem_iff_getElem?.mp hpb
  have hlt := lt_of_getElem? hk
  rw [length_dropLast, Computed.length_plan] at hlt
  rw [getElem?_dropLast, Computed.length_plan, if_pos hlt] at hk
  rcases Computed.getElem?_plan hk with ⟨hdata, -⟩ | ⟨_, _, -, -, hcount, -⟩
  · exact isConfigBlock_create (planData_configTx (mem_of_getElem? hdata))
  · omega

/-- The decision number of the last config block that is signed with a header is the one in it, if that
one was computed. -/
theorem SameBookkeeping.signedDecisionNum_eq {hdr configRequests}
    (h : SameBookkeeping c s) (hdn : hdr.decisionNumOfLastConfigBlock =
      c.nextDecisionNumOfLastConfigBlock configRequests hdr.num) :
    s.signedDecisionNum hdr = hdr.decisionNumOfLastConfigBlock := by
  rw [h.signedDecisionNum]
  unfold Consensus.signedDecisionNum
  rw [hdn]
  unfold Consensus.nextDecisionNumOfLastConfigBlock
  by_cases hrs : configRequests = []
  · simp only [if_pos hrs]
    split
    · assumption
    · rfl
  · simp [if_neg hrs]

theorem exists_signedAs (hsign : ∀ i msg, ∃ value, signer.sign i msg = .ok value)
    (covs : List Coverage) (i : Nat) : ∃ signed, s.SignedAs W signer i covs signed := by
  induction covs generalizing i with
  | nil => exact ⟨[], rfl, by simp⟩
  | cons cov covs ih =>
    obtain ⟨value, hvalue⟩ := hsign i (cov.message W (newIdentifierHeader W s.partyID (signer.nonce i)))
    obtain ⟨signed, hsigned⟩ := ih (i + 1)
    exact ⟨⟨_, value⟩ :: signed, signedAs_cons.mpr ⟨⟨rfl, hvalue⟩, hsigned⟩⟩

end Honest

/-! ## What a signature is counted for -/

section Counted

variable {W : Wire} {v : BlockSigVerifier} {c s : Consensus} {signer : Signer} {p : Proposal}
  {hdr : Header} {covs : List Coverage} {first : SignedMessage} {signed : List SignedMessage}
  {signature : Signature} {identity : Identity} {prevHash : Bytes} {lastConfig : Nat}

section

variable (h : s.Signed W signer p signature hdr covs first signed) (hknows : v.Knows s identity)
include h hknows

/-- What a compound signature adds to the sets of the decision, stored under any previous hash and last
config. -/
theorem Consensus.Signed.readSignature (prevHash : Bytes) (lastConfig : Nat) :
    v.readSignature W (decisionBlockHeader W hdr.num p prevHash)
        (W.ordererBlockMetadata.marshal ⟨some ⟨lastConfig⟩, p.metadata.getD []⟩)
        (expectedOf W covs) true signature.stored =
      .ok (if prevHash = hdr.prevHash ∧ lastConfig = s.signedDecisionNum hdr then
          some (signedDataOf identity first) else none,
        signed.map (signedDataOf identity)) := by
  have hheader : decisionBlockHeader W hdr.num p prevHash =
      decisionBlockHeader W hdr.num p hdr.prevHash ↔ prevHash = hdr.prevHash := by
    simp [decisionBlockHeader]
  have hstored : signature.stored = signature := by rw [h.signature]; rfl
  rw [hstored, h.signature, readSignature_own hknows h.firstMsg h.blocks]
  simp only [hheader]

theorem Consensus.Signed.addedToFirst (prevHash : Bytes) (lastConfig : Nat) :
    v.addedToFirst W (decisionBlockHeader W hdr.num p prevHash)
        (W.ordererBlockMetadata.marshal ⟨some ⟨lastConfig⟩, p.metadata.getD []⟩)
        (expectedOf W covs) signature.stored =
      if prevHash = hdr.prevHash ∧ lastConfig = s.signedDecisionNum hdr then
        [signedDataOf identity first] else [] := by
  rw [BlockSigVerifier.addedToFirst, h.readSignature hknows]
  dsimp only
  split <;> rfl

theorem Consensus.Signed.addedToBlock (prevHash : Bytes) (lastConfig : Nat) {k sm} (hsm : signed[k]? = some sm) :
    v.addedToBlock W (decisionBlockHeader W hdr.num p prevHash)
        (W.ordererBlockMetadata.marshal ⟨some ⟨lastConfig⟩, p.metadata.getD []⟩)
        (expectedOf W covs) k signature.stored = [signedDataOf identity sm] := by
  rw [BlockSigVerifier.addedToBlock, h.readSignature hknows]
  simp [hsm]

/-- **The signature is counted** when the block is verified: its signature over the decision's header is in
the set for that, and its signature over each block in the set for that block. -/
structure Counted (W : Wire) (v : BlockSigVerifier) (block : Block) (identity : Identity)
    (first : SignedMessage) (signed : List SignedMessage) (header : BlockHeader) (md : List Bytes)
    (sets : SignatureSets) : Prop where
  header_eq : block.header = some header
  metadata_eq : block.metadata = some md
  sets_eq : v.signatureSets W block header md (block.data.getD []) true = .ok sets
  verify_eq : v.verify W block true = v.evaluate header.number sets
  mem_first : signedDataOf identity first ∈ sets.first
  length_eq : sets.blocks.length = signed.length
  mem_blocks : ∀ (k : Nat) set sm, sets.blocks[k]? = some set → signed[k]? = some sm → signedDataOf identity sm ∈ set

/-- A signature is counted in the stored decision if what it covers is stored. -/
theorem Consensus.Signed.counted (hnum : hdr.num ≠ 0) (hconfig : v.configBlockNum = s.lastConfigBlockNum)
    (hlast : lastConfig = s.signedDecisionNum hdr) {signatures} (hmem : signature ∈ signatures) :
    ∃ header md sets, Counted W v
      (createBlockToAppendFromDecision W hdr.num p signatures hdr.prevHash lastConfig) identity first
      signed header md sets := by
  have hcovers : Covers W v.configBlockNum hdr.availableCommonBlocks covs := hconfig ▸ h.covers
  obtain ⟨hfirst, hlen, hblocks⟩ := @BlockSigVerifier.storedSets_eq W v hdr.num p covs signatures
    hdr.prevHash lastConfig
  have hmem' : signature.stored ∈ signatures.map Signature.stored := mem_map_of_mem hmem
  refine ⟨_, _, _, rfl, rfl, signatureSets_stored hnum h.header hcovers _ _ _,
    verify_stored hnum h.header hcovers _ _ _, ?_, ?_, ?_⟩
  · rw [hfirst]
    refine mem_flatMap.mpr ⟨_, hmem', ?_⟩
    rw [h.addedToFirst hknows, if_pos ⟨rfl, hlast⟩]
    exact mem_singleton_self _
  · rw [hlen, h.blocks.1]
  · intro k set sm hset hsm
    have hk : k < covs.length := h.blocks.1 ▸ lt_of_getElem? hsm
    cases ((hblocks k hk).symm.trans hset)
    refine mem_flatMap.mpr ⟨_, hmem', ?_⟩
    rw [h.addedToBlock hknows _ _ hsm]
    exact mem_singleton_self _

end

end Counted

/-! ## Honest proposals -/

section Assembled

variable {W : Wire} {L : ConfigLib W} {P : PayloadCondition} {c s : Consensus} {p : Proposal}
  {metadata : Option Bytes} {requests : BatchedRequests} {signer : Signer}

theorem Reachable.storage_ne_nil (h : Reachable L P c) : c.storage ≠ [] := by
  cases h with
  | start => simp [newConsensus]
  | deliver _ _ _ hverify hdeliver =>
    obtain ⟨d, r, ha, -⟩ := verifyProposal_iff_accepted.mp hverify
    obtain ⟨raw, hraw, hhdr⟩ := ha.decodes.header
    have hd := delivered_of_deliver (hraw ▸ hhdr) ha.decodes.state hdeliver
    rw [hd.storage]
    simp

/-- **`SignProposal` signs** a proposal whose parts decode and whose blocks have headers and ORDERER
entries. -/
theorem exists_signed {hdr} (hhdr : Header.deserialize W p.header = .ok hdr)
    (hpayload : BatchedRequests.deserialize (p.payload.getD []) = .ok requests)
    (hof : ∀ ab ∈ hdr.availableCommonBlocks, ∃ cov : Coverage, cov.Of ab)
    (hsign : ∀ i msg, ∃ value, signer.sign i msg = .ok value) (s : Consensus) :
    ∃ covs first signed, s.signProposal W signer p = .ok (s.packSignature W (first :: signed)) ∧
      s.Signed W signer p (s.packSignature W (first :: signed)) hdr covs first signed := by
  obtain ⟨covs, hcovs⟩ := @exists_covers W _ hof s.lastConfigBlockNum
  obtain ⟨signed, hsigned⟩ := @exists_signedAs W s signer hsign covs 1
  obtain ⟨value, hvalue⟩ := hsign 0 (proposalMessage W p hdr.num (s.signedDecisionNum hdr) hdr.prevHash
    (newIdentifierHeader W s.partyID (signer.nonce 0)))
  have h : s.Signed W signer p (s.packSignature W (⟨_, value⟩ :: signed)) hdr covs ⟨_, value⟩ signed :=
    ⟨hhdr, rfl, hvalue, hcovs, hsigned, rfl⟩
  exact ⟨covs, _, signed, signProposal_eq_ok.mpr ⟨⟨requests, hpayload⟩, _, _, _, _, h⟩, h⟩

/-- **Signatures made by an honest consenter are accepted**: over an honestly assembled proposal
`SignProposal` returns a signature that passes at every node with the same bookkeeping, and that is counted when
the decision, stored on the chain that the leader has proposed it for, is verified under the config before it. -/
theorem Reachable.signature_accepted (hleader : Reachable L P c) (hframed : Framed requests)
    (hassemble : c.assembleProposal L metadata requests = .ok p) (hs : SameBookkeeping c s)
    (hsign : ∀ i msg, ∃ value, signer.sign i msg = .ok value) :
    ∃ signature first signed, s.signProposal W signer p = .ok signature ∧
      signature = s.packSignature W (first :: signed) ∧ (∀ v : Consensus, SameBookkeeping c v → v.Trusts s signer →
        v.verifyConsenterSig W signature p = .ok ()) ∧
      ∀ (n n' : Consensus) (signatures : List Signature) (reconfig : Reconfig) (v : BlockSigVerifier)
        (identity : Identity), Reachable L P n → n.prevHash = c.prevHash → signature ∈ signatures →
        n.deliver L p signatures = .ok (n', reconfig) → v.configBlockNum = c.lastConfigBlockNum → v.Knows s identity →
        ∃ block header md sets, n'.storage = n.storage ++ [block] ∧
          Counted W v block identity first signed header md sets := by
  obtain ⟨r, md, hr, -, rfl⟩ := assembleProposal_eq_ok.mp hassemble
  have hpayload := BatchedRequests.deserialize_serialize hframed.1 hframed.2
  have hhdr : Header.deserialize W (r.proposal W c md.latestSequence metadata requests).header = .ok _ :=
    hr.deserialize_header hleader.wellFormed md.latestSequence
  obtain ⟨covs, first, signed, hsigned, h⟩ := exists_signed hhdr hpayload covered_header hsign s
  have hdn : s.signedDecisionNum (r.header W c md.latestSequence) = _ := hs.signedDecisionNum_eq rfl
  refine ⟨_, first, signed, hsigned, rfl, fun v hv htrusts => ?_, ?_⟩
  · have hlast := h.covers.lastConfig_eq isConfigBlock_dropLast
    rw [hs.lastConfigBlockNum, ← hv.lastConfigBlockNum] at hlast
    refine h.verifyConsenterSig htrusts ?_ hlast h.covers.length_eq
    rw [hv.signedDecisionNum, hs.signedDecisionNum]
  · intro n n' signatures reconfig v identity hn hprev hmem hdeliver hconfig hknows
    have hd := delivered_of_deliver h.header rfl hdeliver
    have hnum : (r.header W c md.latestSequence).num ≠ 0 := by
      rw [hd.num]
      exact length_pos_iff.mpr hn.storage_ne_nil |>.ne'
    obtain ⟨header, md', sets, hcounted⟩ :=
      h.counted hknows hnum (hconfig.trans hs.lastConfigBlockNum.symm) hdn.symm hmem
    refine ⟨_, header, md', sets, hd.storage, ?_⟩
    rw [decisionBlock, hprev]
    exact hcounted

/-- A key that signs everything with the empty signature, and no nonces. -/
def refSigner : Signer := ⟨fun _ => [], fun _ _ => .ok []⟩

/-- A verifier that knows party 1, with a policy that asks for a signature. -/
def refVerifier : BlockSigVerifier where
  policy set := if set = [] then .error "no signatures" else .ok ()
  consenters := [⟨1, ⟨"org1", []⟩⟩]
  configBlockNum := 0

theorem trusts_refSigner (W : Wire) (shared : SharedConfig) :
    (genesisNode W shared).Trusts (genesisNode W shared) refSigner := fun _ _ _ _ => rfl

theorem knows_refVerifier (W : Wire) (shared : SharedConfig) :
    refVerifier.Knows (genesisNode W shared) ⟨"org1", []⟩ := rfl

/-- The reference node signs its own proposal, accepts the signature, delivers the decision with it, and the
signature is counted. -/
theorem signature_accepted_genesisNode : ∃ p signature first signed n' reconfig block header md sets,
      soleNode.signProposal refWire refSigner p = .ok signature ∧
      soleNode.verifyConsenterSig refWire signature p = .ok () ∧
      soleNode.deliver soleLib p [signature] = .ok (n', reconfig) ∧ n'.storage = soleNode.storage ++ [block] ∧
      Counted refWire refVerifier block ⟨"org1", []⟩ first signed header md sets := by
  have hreach := reachable_soleNode
  obtain ⟨r, hr, hrs, hfirst⟩ := computes_refWire soleLib
  have hmd := Codec.unmarshal_marshal refWire.viewMetadata.toCodec (⟨1⟩ : ViewMetadata)
  have hassemble : soleNode.assembleProposal soleLib
      (firstMetadata refWire) (fragmentRequests refWire [firstBatchBy 1]) = .ok _ :=
    assembleProposal_eq_ok.mpr ⟨r, ⟨1⟩, hr, hmd, rfl⟩
  obtain ⟨signature, first, signed, hsigned, -, hverify, hcounted⟩ :=
    @Reachable.signature_accepted _ _ _ _ soleNode _ _ _ refSigner hreach
      framed_refWire hassemble (SameBookkeeping.refl _) fun _ _ => ⟨[], rfl⟩
  obtain ⟨n', hdeliver, -⟩ := deliver_genesisNode soleLib oneParty hr hrs [signature]
  obtain ⟨block, header, md, sets, hstorage, hc⟩ := hcounted _ n' [signature] _ refVerifier _ hreach rfl
    (mem_singleton_self _) hdeliver rfl (knows_refVerifier _ _)
  exact ⟨_, signature, first, signed, n', _, block, header, md, sets, hsigned,
    hverify _ (SameBookkeeping.refl _) (trusts_refSigner _ _), hdeliver, hstorage, hc⟩

end Assembled

/-! ## Accepted proposals -/

section Accepted

variable {W : Wire} {L : ConfigLib W} {P : PayloadCondition} {v : BlockSigVerifier} {c c' : Consensus}
  {p : Proposal} {d : Decoded} {signatures : List Signature} {signature : Signature}
  {reqInfos : List RequestInfo} {reconfig : Reconfig}

/-- A consenter that signs, with its key and its identity. -/
structure Endorser where
  node : Consensus
  signer : Signer
  identity : Identity

def Endorser.Signs (e : Endorser) (sd : SignedData) : Prop :=
  sd.identity = e.identity ∧ ∃ i, e.signer.sign i sd.data = .ok sd.signature

/-- **The endorser has signed the proposal**: it has the bookkeeping of `c`, and `v` knows it. -/
structure Endorses (W : Wire) (v : BlockSigVerifier) (c : Consensus) (p : Proposal) (e : Endorser)
    (signature : Signature) : Prop where
  bookkeeping : SameBookkeeping c e.node
  knows : v.Knows e.node e.identity
  signs : e.node.signProposal W e.signer p = .ok signature

/-- A policy that the endorsers satisfy, and nobody does not. -/
structure SatisfiedBy (policy : List SignedData → Except String Unit) (endorsers : List Endorser) :
    Prop where
  accepts : ∀ set, Forall₂ Endorser.Signs endorsers set → policy set = .ok ()
  rejects_nil : policy [] ≠ .ok ()

/-- The first message of the signature covers the header and the last config of the block. -/
def CoversStored (W : Wire) (signature : Signature) (block : Block) : Prop :=
  ∃ raw msgs header identifierHeader lastConfig metadata,
    signature.msg = some raw ∧ W.byteStrings.unmarshal raw = .ok msgs ∧
    block.header = some header ∧ getLastConfigIndexFromConsenterBlock W block = .ok lastConfig ∧
    msgs[0]? = some (messageToSign W header identifierHeader lastConfig metadata)

theorem Endorses.signed {e hdr covs} (h : Endorses W v c p e signature) (hhdr : Header.deserialize W p.header = .ok hdr)
    (hcovers : Covers W c.lastConfigBlockNum hdr.availableCommonBlocks covs) :
    ∃ first signed, e.node.Signed W e.signer p signature hdr covs first signed := by
  obtain ⟨-, hdr', covs', first, signed, hsigned⟩ := signProposal_eq_ok.mp h.signs
  cases hhdr.symm.trans hsigned.header
  obtain rfl := hcovers.unique (h.bookkeeping.lastConfigBlockNum ▸ hsigned.covers)
  exact ⟨first, signed, hsigned⟩

/-- The signed header is the stored one iff the previous hashes are the same. -/
theorem coversStored_iff {e : Endorser} {hdr covs first signed}
    (h : e.node.Signed W e.signer p signature hdr covs first signed)
    (hnum : hdr.num ≠ 0) (hdn : e.node.signedDecisionNum hdr = hdr.decisionNumOfLastConfigBlock) :
    CoversStored W signature (decisionBlock W c p hdr signatures) ↔ hdr.prevHash = c.prevHash := by
  have hlast := @BlockSigVerifier.getLastConfigIndex_create W hdr.num hnum p signatures c.prevHash
    hdr.decisionNumOfLastConfigBlock
  have hread : W.byteStrings.unmarshal (W.byteStrings.marshal ((first :: signed).map (·.msg))) =
    .ok ((first :: signed).map (·.msg)) := Codec.unmarshal_marshal _ _
  have hmsg := h.firstMsg
  rw [proposalMessage, hdn] at hmsg
  constructor
  · rintro ⟨raw, msgs, header, identifierHeader, lastConfig, metadata, hraw, hmsgs, hheader, hlast', hzero⟩
    obtain rfl : W.byteStrings.marshal ((first :: signed).map (·.msg)) = raw := by
      simpa [h.signature, Consensus.packSignature] using hraw
    cases hread.symm.trans hmsgs
    cases hheader
    have hfirst : first.msg = messageToSign W (decisionBlockHeader W hdr.num p c.prevHash)
        identifierHeader lastConfig metadata := by simpa using hzero
    rw [hmsg, messageToSign, messageToSign, Codec.marshal_inj] at hfirst
    have hbytes := congrArg MessageToSign.blockHeader hfirst
    simpa [Wire.blockHeaderBytes, decisionBlockHeader] using hbytes
  · intro hprev
    rw [hprev] at hmsg
    exact ⟨_, _, _, _, _, _, by rw [h.signature]; rfl, hread, rfl, hlast, congrArg some hmsg⟩

/-- Where every signature adds one signature of its endorser, the set is one of the endorsers. -/
theorem forall₂_flatMap {added endorsers}
    (h : Forall₂ (fun e sig => ∃ sd, added sig = [sd] ∧ Endorser.Signs e sd) endorsers
      signatures) : Forall₂ Endorser.Signs endorsers (signatures.flatMap added) := by
  induction h with
  | nil => exact .nil
  | cons hsig _ ih =>
    obtain ⟨sd, hsd, hsigns⟩ := hsig
    rw [flatMap_cons, hsd]
    exact .cons hsigns ih

section Endorsed

variable {endorsers : List Endorser} {hdr : Header} {covs : List Coverage}

section

variable (h : Forall₂ (Endorses W v c p) endorsers signatures) (hhdr : Header.deserialize W p.header = .ok hdr)
  (hcovers : Covers W c.lastConfigBlockNum hdr.availableCommonBlocks covs)
include h hhdr hcovers

theorem forall₂_addedToBlock (prevHash : Bytes) (lastConfig : Nat) {k} (hk : k < covs.length) :
    Forall₂ Endorser.Signs endorsers ((signatures.map Signature.stored).flatMap
      (v.addedToBlock W (decisionBlockHeader W hdr.num p prevHash)
        (W.ordererBlockMetadata.marshal ⟨some ⟨lastConfig⟩, p.metadata.getD []⟩)
        (expectedOf W covs) k)) := by
  rw [flatMap_map]
  refine forall₂_flatMap (h.imp fun e sig he => ?_)
  obtain ⟨first, signed, hsigned⟩ := he.signed hhdr hcovers
  obtain ⟨hlen, hblocks⟩ := hsigned.blocks
  have hsm : signed[k]? = some (signed.get ⟨k, hlen ▸ hk⟩) := getElem?_eq_getElem (hlen ▸ hk)
  exact ⟨_, hsigned.addedToBlock he.knows prevHash lastConfig hsm, rfl, _,
    (hblocks k _ _ (getElem?_eq_getElem hk) hsm).2⟩

/-- The endorsers' signatures over the decision are all counted if its header has the stored previous
hash. -/
theorem forall₂_addedToFirst {lastConfig : Nat}
    (hlast : ∀ s, SameBookkeeping c s → s.signedDecisionNum hdr = lastConfig) :
    Forall₂ Endorser.Signs endorsers ((signatures.map Signature.stored).flatMap
      (v.addedToFirst W (decisionBlockHeader W hdr.num p hdr.prevHash)
        (W.ordererBlockMetadata.marshal ⟨some ⟨lastConfig⟩, p.metadata.getD []⟩)
        (expectedOf W covs))) := by
  rw [flatMap_map]
  refine forall₂_flatMap (h.imp fun e sig he => ?_)
  obtain ⟨first, signed, hsigned⟩ := he.signed hhdr hcovers
  refine ⟨signedDataOf e.identity first, ?_, rfl, 0, hsigned.firstValue⟩
  rw [hsigned.addedToFirst he.knows, if_pos ⟨rfl, (hlast _ he.bookkeeping).symm⟩]

theorem flatMap_addedToFirst_eq_nil {prevHash}
    (hne : prevHash ≠ hdr.prevHash) (lastConfig : Nat) : (signatures.map Signature.stored).flatMap
      (v.addedToFirst W (decisionBlockHeader W hdr.num p prevHash)
        (W.ordererBlockMetadata.marshal ⟨some ⟨lastConfig⟩, p.metadata.getD []⟩)
        (expectedOf W covs)) = [] := by
  induction h with
  | nil => rfl
  | cons he _ ih =>
    obtain ⟨first, signed, hsigned⟩ := he.signed hhdr hcovers
    rw [map_cons, flatMap_cons, hsigned.addedToFirst he.knows, ih, if_neg fun h => hne h.1]
    rfl

end

/-- **The stored decision passes iff it is stored under the previous hash in the leader's header.** -/
theorem verify_decisionBlock_iff (h : Forall₂ (Endorses W v c p) endorsers signatures)
    (hpolicy : SatisfiedBy v.policy endorsers) (hhdr : Header.deserialize W p.header = .ok hdr)
    (hcovers : Covers W c.lastConfigBlockNum hdr.availableCommonBlocks covs) (hnum : hdr.num ≠ 0)
    (hconfig : v.configBlockNum = c.lastConfigBlockNum) (hlast : ∀ s, SameBookkeeping c s →
      s.signedDecisionNum hdr = hdr.decisionNumOfLastConfigBlock) :
    v.verify W (decisionBlock W c p hdr signatures) true = .ok () ↔ hdr.prevHash = c.prevHash := by
  obtain ⟨hfirst, hlen, hblocks⟩ := @BlockSigVerifier.storedSets_eq W v hdr.num p covs signatures
    c.prevHash hdr.decisionNumOfLastConfigBlock
  rw [decisionBlock, verify_stored hnum hhdr (hconfig ▸ hcovers), evaluate_eq_ok, hfirst]
  constructor
  · rintro ⟨hok, -⟩
    by_contra hne
    rw [flatMap_addedToFirst_eq_nil h hhdr hcovers (Ne.symm hne)] at hok
    exact hpolicy.rejects_nil hok
  · intro hprev
    rw [← hprev] at hlen hblocks ⊢
    refine ⟨hpolicy.accepts _ (forall₂_addedToFirst h hhdr hcovers hlast), fun k set hset => ?_⟩
    have hk : k < covs.length := hlen ▸ lt_of_getElem? hset
    cases ((hblocks k hk).symm.trans hset)
    exact hpolicy.accepts _ (forall₂_addedToBlock h hhdr hcovers _ _ hk)

end Endorsed

/-- **The stored header is the signed one, and the stored decision passes, iff the header of the accepted
proposal has the node's previous hash.** -/
theorem Reachable.stored_as_signed_iff (hreach : Reachable L P c) (hd : p.Decodes W d)
    (hverify : c.verifyProposal L p = .ok reqInfos) {endorsers : List Endorser}
    (hendorsed : List.Forall₂ (Endorses W v c p) endorsers signatures)
    (hdeliver : c.deliver L p signatures = .ok (c', reconfig))
    (hconfig : v.configBlockNum = c.lastConfigBlockNum) (hpolicy : SatisfiedBy v.policy endorsers) :
    ∃ block, c'.storage = c.storage ++ [block] ∧
      (∀ signature ∈ signatures, CoversStored W signature block ↔ d.header.prevHash = c.prevHash) ∧
      (v.verify W block true = .ok () ↔ d.header.prevHash = c.prevHash) := by
  obtain ⟨d', r, ha, -⟩ := verifyProposal_iff_accepted.mp hverify
  obtain rfl := hd.unique ha.decodes
  obtain ⟨raw, hraw, hhdr⟩ := hd.header
  have hhdr : Header.deserialize W p.header = .ok d.header := hraw ▸ hhdr
  have hdelivered := delivered_of_deliver hhdr hd.state hdeliver
  have hnum : d.header.num ≠ 0 := by
    rw [hdelivered.num]
    exact (length_pos_iff.mpr hreach.storage_ne_nil).ne'
  have hlast : ∀ s, SameBookkeeping c s → s.signedDecisionNum d.header = d.header.decisionNumOfLastConfigBlock :=
    fun s hs => hs.signedDecisionNum_eq ha.decisionNumOfLastConfigBlock
  -- somebody has signed, so there is something that every block is covered with
  obtain ⟨covs, hcovers⟩ : ∃ covs, Covers W c.lastConfigBlockNum d.header.availableCommonBlocks covs := by
    cases hendorsed with
    | nil => exact absurd (hpolicy.accepts [] .nil) hpolicy.rejects_nil
    | cons he _ =>
      obtain ⟨-, hdr, covs, first, signed, hsigned⟩ := signProposal_eq_ok.mp he.signs
      cases hhdr.symm.trans hsigned.header
      exact ⟨covs, he.bookkeeping.lastConfigBlockNum ▸ hsigned.covers⟩
  refine ⟨_, hdelivered.storage, fun signature hmem => ?_,
    verify_decisionBlock_iff hendorsed hpolicy hhdr hcovers hnum hconfig hlast⟩
  obtain ⟨k, hk⟩ := mem_iff_getElem?.mp hmem
  obtain ⟨hlen, hall⟩ := forall₂_iff_getElem?.mp hendorsed
  have hk' : k < endorsers.length := hlen ▸ lt_of_getElem? hk
  have he := hall k _ signature (getElem?_eq_getElem hk') hk
  obtain ⟨first, signed, hsigned⟩ := he.signed hhdr hcovers
  exact coversStored_iff hsigned hnum (hlast _ he.bookkeeping)

def refEndorser : Endorser := ⟨soleNode, refSigner, ⟨"org1", []⟩⟩

theorem satisfiedBy_refEndorser : SatisfiedBy refVerifier.policy [refEndorser] where
  accepts set hset := by
    obtain ⟨sd, rest, -, -, rfl⟩ := forall₂_cons_left_iff.mp hset
    rfl
  rejects_nil h := by cases h

/-- A first decision after the genesis block, with a previous hash in its header. -/
structure FirstDecision (W : Wire) (p : Proposal) (hdr : Header) (prevHash : Bytes) : Prop where
  header : Header.deserialize W p.header = .ok hdr
  num : hdr.num = 1
  prevHash : hdr.prevHash = prevHash
  decisionNumOfLastConfigBlock : hdr.decisionNumOfLastConfigBlock = 0

/-- The reference node accepts such a decision, which has a block; all consenters sign it, and the node delivers it. -/
theorem exists_first_decision (prevHash : Bytes) :
    ∃ p d acb reqInfos, p.Decodes refWire d ∧ FirstDecision refWire p d.header prevHash ∧
      d.header.availableCommonBlocks[0]? = some acb ∧ soleNode.verifyProposal soleLib p = .ok reqInfos ∧
      (∀ s : Consensus, ∃ sig, s.signProposal refWire refSigner p = .ok sig) ∧
      ∀ signatures, ∃ n' reconfig, soleNode.deliver soleLib p signatures = .ok (n', reconfig) := by
  have hwf := reachable_soleNode.wellFormed
  obtain ⟨r, hr, hrs, hfirst⟩ := computes_refWire soleLib
  have hmd := Codec.unmarshal_marshal refWire.viewMetadata.toCodec (⟨1⟩ : ViewMetadata)
  let hdr : Header := { r.header refWire soleNode 1 with prevHash }
  have hd := @decodes_forged _ _ _ _ _ _ _ hdr 1 hwf framed_refWire hmd hr rfl
  obtain ⟨raw, hraw, hhdr⟩ := hd.header
  obtain ⟨payload, hpayload, hrequests⟩ := hd.payload
  obtain ⟨reqInfos, haccepted⟩ := @accepted_forged _ _ _ _ _ _ _ hdr hwf framed_refWire hmd hr rfl rfl rfl
    (inPlace_create r 1) (requestsPass_refWire _)
  have hblock : 0 < hdr.availableCommonBlocks.length := by
    simp [hdr, Computed.header, Computed.plan, hfirst, planData]
  refine ⟨_, _, _, reqInfos, hd, ⟨hraw ▸ hhdr, rfl, rfl, if_pos hrs⟩, getElem?_eq_getElem hblock, haccepted,
    fun s => ?_, fun signatures => ?_⟩
  · obtain ⟨covs, first, signed, hsign, -⟩ := @exists_signed _ _ _ refSigner hdr (hraw ▸ hhdr)
      (by rw [hpayload]; exact hrequests) covered_header (fun _ _ => ⟨[], rfl⟩) s
    exact ⟨_, hsign⟩
  · obtain ⟨n', hdeliver, -⟩ := deliver_first soleLib oneParty (hraw ▸ hhdr) hrs signatures
    exact ⟨n', _, hdeliver⟩

theorem endorses_refEndorser {p signature} (h : soleNode.signProposal refWire refSigner p = .ok signature) :
    Endorses refWire refVerifier soleNode p refEndorser signature :=
  ⟨SameBookkeeping.refl _, knows_refVerifier _ _, h⟩

/-- The reference node stores what it has signed, with its own previous hash in the header. -/
theorem stored_as_signed_genesisNode : ∃ p d signature c' reconfig block, p.Decodes refWire d ∧
      d.header.prevHash = soleNode.prevHash ∧
      soleNode.deliver soleLib p [signature] = .ok (c', reconfig) ∧ c'.storage = soleNode.storage ++ [block] ∧
      CoversStored refWire signature block ∧ refVerifier.verify refWire block true = .ok () := by
  obtain ⟨p, d, -, reqInfos, hd, hfirst, -, hverify, hsign, hdeliver⟩ := exists_first_decision soleNode.prevHash
  obtain ⟨signature, hsign⟩ := hsign soleNode
  obtain ⟨c', reconfig, hdeliver⟩ := hdeliver [signature]
  obtain ⟨block, hstorage, hcovers, hpasses⟩ := Reachable.stored_as_signed_iff reachable_soleNode hd
    hverify (.cons (endorses_refEndorser hsign) .nil) hdeliver rfl satisfiedBy_refEndorser
  exact ⟨p, d, signature, c', reconfig, block, hd, hfirst.prevHash, hdeliver, hstorage,
    (hcovers signature (mem_singleton_self _)).mpr hfirst.prevHash, hpasses.mpr hfirst.prevHash⟩

/-- **A leader can make the followers sign a header that they do not store**: the previous hash in the
leader's header is one byte longer than the node's, the node accepts, signs and delivers, and the decision that it
stores is not the one that it has signed, and does not pass. -/
theorem foreign_prevHash_stored : Reachable soleLib anyPayload soleNode ∧
      SatisfiedBy refVerifier.policy [refEndorser] ∧ ∃ p reqInfos signature c' reconfig block,
        soleNode.verifyProposal soleLib p = .ok reqInfos ∧
        soleNode.signProposal refWire refSigner p = .ok signature ∧
        soleNode.deliver soleLib p [signature] = .ok (c', reconfig) ∧ c'.storage = soleNode.storage ++ [block] ∧
        ¬ CoversStored refWire signature block ∧ refVerifier.verify refWire block true ≠ .ok () := by
  obtain ⟨p, d, -, reqInfos, hd, hfirst, -, hverify, hsign, hdeliver⟩ := exists_first_decision (0 :: soleNode.prevHash)
  obtain ⟨signature, hsign⟩ := hsign soleNode
  obtain ⟨c', reconfig, hdeliver⟩ := hdeliver [signature]
  obtain ⟨-, hdr, covs, first, signed, hsigned⟩ := signProposal_eq_ok.mp hsign
  cases hfirst.header.symm.trans hsigned.header
  have hnum : d.header.num ≠ 0 := hfirst.num ▸ Nat.one_ne_zero
  have hne : d.header.prevHash ≠ soleNode.prevHash := by
    rw [hfirst.prevHash]
    exact cons_ne_self _ _
  have hlast : ∀ s, SameBookkeeping soleNode s →
      s.signedDecisionNum d.header = d.header.decisionNumOfLastConfigBlock := by
    intro s hs
    rw [hs.signedDecisionNum, Consensus.signedDecisionNum, hfirst.decisionNumOfLastConfigBlock, if_neg hnum]
    rfl
  have hstored := delivered_of_deliver hsigned.header hd.state hdeliver
  have hendorsed : Forall₂ (Endorses refWire refVerifier soleNode p)
    [refEndorser] [signature] := .cons (endorses_refEndorser hsign) .nil
  refine ⟨reachable_genesisNode _ _ _ (by decide), satisfiedBy_refEndorser, p, reqInfos, signature, c',
    reconfig, _, hverify, hsign, hdeliver, hstored.storage, fun hcovers => hne ?_, fun hpasses => hne ?_⟩
  · exact (@coversStored_iff _ _ _ _ _ refEndorser _ _ _ _ hsigned hnum (hlast _ (SameBookkeeping.refl _))).mp hcovers
  · exact (verify_decisionBlock_iff hendorsed satisfiedBy_refEndorser hsigned.header hsigned.covers hnum
      rfl hlast).mp hpasses

end Accepted

end Arma
