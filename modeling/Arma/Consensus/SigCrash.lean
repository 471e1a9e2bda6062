import Arma.Consensus.Accept
import Arma.Consensus.Sign

/-!
# Signatures that crash a verifier

`VerifyConsenterSig` checks that a signature packs some messages and some values, and then takes the message
and the value at index `i + 1` for the block at index `i`, however many there are. It also takes the header and
the ORDERER entry of every block to be there; for the blocks that were computed `VerifyProposal` has seen to
that, for those after them nobody has.

* **`Consensus.verifyConsenterSig_noPanic_iff`**: no panic iff every round that is reached is safe.
* **`short_signature_panics`**: a signature with one message, over a proposal with one block.
-/

namespace Arma

open Arma.Lib Outcome List Consensus

variable {u : Unit}

section Rounds

variable {W : Wire} {c : Consensus} {signatureID : UInt64} {msgs values : List Bytes} {i : Nat} {ab : Block}

namespace Consensus

/-- Message `i + 1` decodes, and names the signer. -/
structure ReadsBlockMsg (W : Wire) (signatureID : UInt64) (msgs : List Bytes) (i : Nat)
    (msgBytes : Bytes) (msg : MessageToSign) : Prop where
  at_index : msgs[i + 1]? = some msgBytes
  decodes : W.messageToSign.unmarshal msgBytes = .ok msg
  identifier : ∃ idHeader, W.identifierHeader.unmarshal msg.identifierHeader = .ok idHeader ∧
    idHeader.identifier.toUInt64 = signatureID

/-- Message `i + 1` is the one over the block. -/
structure CoversBlock (W : Wire) (c : Consensus) (signatureID : UInt64) (msgs : List Bytes) (i : Nat)
    (ab : Block) (msgBytes : Bytes) : Prop where
  covers : ∃ msg cov, ReadsBlockMsg W signatureID msgs i msgBytes msg ∧ Coverage.Of cov ab ∧
    cov.lastConfig = (if isConfigBlock W ab then cov.header.number else c.lastConfigBlockNum) ∧
    msgBytes = cov.message W msg.identifierHeader

/-- **Round `i` goes through**: message `i + 1` is the one over the block, and value `i + 1` a signature
over it. -/
def RoundPasses (W : Wire) (c : Consensus) (signatureID : UInt64) (msgs values : List Bytes) (i : Nat)
    (ab : Block) : Prop :=
  ∃ msgBytes value, CoversBlock W c signatureID msgs i ab msgBytes ∧ values[i + 1]? = some value ∧
    c.config.verifySignature (newConsenterIdentity signatureID.toUInt16) msgBytes value = .ok ()

/-- **Round `i` is safe**: there is a message `i + 1`; if it is read, the block has a header and an ORDERER
entry; if it is the message over the block, there is a value `i + 1`. -/
structure SafeRound (W : Wire) (c : Consensus) (signatureID : UInt64) (msgs values : List Bytes)
    (i : Nat) (ab : Block) : Prop where
  msg : i + 1 < msgs.length
  block : ∀ msgBytes msg, ReadsBlockMsg W signatureID msgs i msgBytes msg → ∃ cov : Coverage, cov.Of ab
  value : ∀ msgBytes, CoversBlock W c signatureID msgs i ab msgBytes → i + 1 < values.length

variable {msg : MessageToSign}

theorem verifyIdentifier_eq_ok {unmarshalErr name} : verifyIdentifier W msg signatureID unmarshalErr name = .ok u ↔
      ∃ idHeader, W.identifierHeader.unmarshal msg.identifierHeader = .ok idHeader ∧
        idHeader.identifier.toUInt64 = signatureID := by
  simp [verifyIdentifier, Wire.unmarshalIdentifierHeader, bind_eq_ok]

theorem verifyIdentifier_noPanic (msg : MessageToSign) (unmarshalErr name : String) :
    (verifyIdentifier W msg signatureID unmarshalErr name).NoPanic := by
  simp [verifyIdentifier, Wire.unmarshalIdentifierHeader]

theorem verifyBlockMessageToSign_eq_ok {msgBytes n} : verifyBlockMessageToSign W msg msgBytes signatureID ab n = .ok u ↔
      (∃ idHeader, W.identifierHeader.unmarshal msg.identifierHeader = .ok idHeader ∧
        idHeader.identifier.toUInt64 = signatureID) ∧ ∃ cov : Coverage, cov.Of ab ∧
        cov.lastConfig = (if isConfigBlock W ab then cov.header.number else n) ∧
        msgBytes = cov.message W msg.identifierHeader := by
  simp only [verifyBlockMessageToSign, bind_eq_ok, verifyIdentifier_eq_ok, require_eq_ok, blockMessage_eq_ok]
  constructor
  · rintro ⟨_, hid, last, hlast, _, ⟨cov, hof, rfl, rfl⟩, rfl⟩
    rw [lastConfigFrom_eq hof] at hlast
    exact ⟨hid, cov, hof, (Except.ok.inj hlast).symm, rfl⟩
  · rintro ⟨hid, cov, hof, hlast, rfl⟩
    exact ⟨(), hid, _, lastConfigFrom_eq hof, _, ⟨cov, hof, hlast, rfl⟩, rfl⟩

/-- The header and the ORDERER entry are dereferenced once the identifier is right. -/
theorem noPanic_verifyBlockMessageToSign_iff {msgBytes n} :
    (verifyBlockMessageToSign W msg msgBytes signatureID ab n).NoPanic ↔
      ((∃ idHeader, W.identifierHeader.unmarshal msg.identifierHeader = .ok idHeader ∧
        idHeader.identifier.toUInt64 = signatureID) → ∃ cov : Coverage, cov.Of ab) := by
  simp only [verifyBlockMessageToSign, noPanic_bind_iff, verifyIdentifier_noPanic, verifyIdentifier_eq_ok, true_and]
  constructor
  · intro h hid
    obtain ⟨hlast, h⟩ := h () hid
    -- a block whose last config is computed has a header, or is no config block
    obtain ⟨last, hlast⟩ : ∃ last, lastConfigFrom W n ab = .ok last := by
      unfold lastConfigFrom at hlast ⊢
      by_cases hconfig : isConfigBlock W ab = true
      · rw [if_pos hconfig] at hlast ⊢
        obtain ⟨header, hheader⟩ := noPanic_deref_iff.mp (noPanic_bind_iff.mp hlast).1
        exact ⟨header.number, by simp [hheader]⟩
      · exact ⟨n, by rw [if_neg hconfig]; rfl⟩
    have hmsg := (h last hlast).1
    simp only [blockMessage, noPanic_bind_iff, noPanic_deref_iff, noPanic_index_iff, deref_eq_ok] at hmsg
    obtain ⟨⟨header, hheader⟩, hmsg⟩ := hmsg
    obtain ⟨⟨md, hmd⟩, hmsg⟩ := hmsg header hheader
    obtain ⟨hlt, -⟩ := hmsg md hmd
    exact ⟨⟨header, md[indexOrderer], n⟩, hheader, md, hmd, getElem?_eq_getElem hlt⟩
  · intro h _ hid
    obtain ⟨cov, hof⟩ := h hid
    rw [lastConfigFrom_eq hof]
    refine ⟨noPanic_ok _, fun last _ => ?_⟩
    have hmsg := @blockMessage_of W ab { cov with lastConfig := last } ⟨hof.header, hof.orderer⟩ msg.identifierHeader
    rw [show blockMessage W ab msg.identifierHeader last = _ from hmsg]
    exact ⟨noPanic_ok _, fun _ _ => noPanic_require _ _⟩

theorem verifyValue_eq_ok {msg value} : c.verifyValue signatureID msg value = .ok u ↔
      c.config.verifySignature (newConsenterIdentity signatureID.toUInt16) msg value = .ok () := by
  cases u
  simp [verifyValue, verifySig]

theorem verifyBlock_eq_ok : c.verifyBlock W signatureID msgs values i ab = .ok () ↔
      RoundPasses W c signatureID msgs values i ab := by
  simp only [verifyBlock, bind_eq_ok, index_eq_ok, ofExcept_eq_ok,
    wrap_eq_ok, verifyBlockMessageToSign_eq_ok, verifyValue_eq_ok]
  constructor
  · rintro ⟨msgBytes, hidx, msg, hread, _, ⟨hid, cov, hof, hlast, hmsg⟩, value, hvalue, hverify⟩
    exact ⟨msgBytes, value, ⟨msg, cov, ⟨hidx, hread, hid⟩, hof, hlast, hmsg⟩, hvalue, hverify⟩
  · rintro ⟨msgBytes, value, ⟨msg, cov, ⟨hidx, hread, hid⟩, hof, hlast, hmsg⟩, hvalue, hverify⟩
    exact ⟨msgBytes, hidx, msg, hread, (), ⟨hid, cov, hof, hlast, hmsg⟩, value, hvalue, hverify⟩

theorem verifyValue_noPanic (msg value : Bytes) : (c.verifyValue signatureID msg value).NoPanic := by
  simp [verifyValue, verifySig]

theorem noPanic_verifyBlock_iff : (c.verifyBlock W signatureID msgs values i ab).NoPanic ↔
      SafeRound W c signatureID msgs values i ab := by
  simp only [verifyBlock, noPanic_bind_iff, noPanic_index_iff, index_eq_ok,
    noPanic_ofExcept, ofExcept_eq_ok, noPanic_wrap_iff, wrap_eq_ok,
    noPanic_verifyBlockMessageToSign_iff, verifyBlockMessageToSign_eq_ok, verifyValue_noPanic,
    true_and, implies_true, and_true]
  constructor
  · rintro ⟨hmsg, h⟩
    refine ⟨hmsg, fun msgBytes msg hreads => ?_, fun msgBytes hread => ?_⟩
    · exact (h msgBytes hreads.at_index msg hreads.decodes).1 hreads.identifier
    · obtain ⟨msg, cov, hreads, hcovers⟩ := hread
      exact (h msgBytes hreads.at_index msg hreads.decodes).2 () ⟨hreads.identifier, cov, hcovers⟩
  · rintro ⟨hmsg, hblock, hvalue⟩
    refine ⟨hmsg, fun msgBytes hidx msg hread => ⟨fun hid => ?_, ?_⟩⟩
    · exact hblock msgBytes msg ⟨hidx, hread, hid⟩
    · rintro _ ⟨hid, cov, hcovers⟩
      exact hvalue msgBytes ⟨msg, cov, ⟨hidx, hread, hid⟩, hcovers⟩

end Consensus

end Rounds

/-! ## The whole signature -/

section Signature

variable {W : Wire} {L : ConfigLib W} {c : Consensus} {p : Proposal} {signature : Signature}

/-- The first message is the one over the proposal, and the first value a signature over it. -/
def FirstPasses (W : Wire) (c : Consensus) (signatureID : UInt64) (p : Proposal) (hdr : Header)
    (msgs values : List Bytes) : Prop :=
  ∃ msgBytes msg value, msgs[0]? = some msgBytes ∧ W.messageToSign.unmarshal msgBytes = .ok msg ∧
    (∃ idHeader, W.identifierHeader.unmarshal msg.identifierHeader = .ok idHeader ∧
      idHeader.identifier.toUInt64 = signatureID) ∧
    msgBytes = proposalMessage W p hdr.num (c.signedDecisionNum hdr) hdr.prevHash msg.identifierHeader ∧
    values[0]? = some value ∧
    c.config.verifySignature (newConsenterIdentity signatureID.toUInt16) msgBytes value = .ok ()

/-- **The rounds over the blocks are reached**: the signature packs messages and values, and the first of
them pass for the proposal. -/
structure ReachesRounds (W : Wire) (c : Consensus) (signature : Signature) (p : Proposal)
    (values msgs : List Bytes) (hdr : Header) : Prop where
  unpackValues : ∃ raw, signature.value = some raw ∧ W.byteStrings.unmarshal raw = .ok values ∧ values ≠ []
  unpackMsgs : ∃ raw, signature.msg = some raw ∧ W.byteStrings.unmarshal raw = .ok msgs ∧ msgs ≠ []
  header : Header.deserialize W p.header = .ok hdr
  first : FirstPasses W c signature.id p hdr msgs values

/-- Every round is safe that comes after rounds that go through. -/
def SafeRounds (W : Wire) (c : Consensus) (signatureID : UInt64) (msgs values : List Bytes)
    (blocks : List Block) : Prop :=
  ∀ k ab, blocks[k]? = some ab →
    (∀ j ab', j < k → blocks[j]? = some ab' → c.RoundPasses W signatureID msgs values j ab') →
      c.SafeRound W signatureID msgs values k ab

theorem unpack_eq_ok {name o l} : unpack W name o = .ok l ↔
      ∃ raw, o = some raw ∧ W.byteStrings.unmarshal raw = .ok l ∧ l ≠ [] := by
  cases o with
  | none => simp [unpack]
  | some raw =>
    simp only [unpack, bind_eq_ok, wrap_eq_ok, ofExcept_eq_ok, require_eq_ok, pure_eq]
    constructor
    · rintro ⟨l', hl', _, hne, hret⟩
      cases hret
      exact ⟨raw, rfl, hl', hne⟩
    · rintro ⟨_, ⟨⟩, hl, hne⟩
      exact ⟨l, hl, (), hne, rfl⟩

theorem unpack_noPanic (name : String) (o : Option Bytes) : (unpack W name o).NoPanic := by
  cases o with
  | none => exact noPanic_fail _
  | some raw => simp [unpack]

theorem verifyFirst_eq_ok {hdr msgs values} : c.verifyFirst W signature.id p hdr msgs values = .ok u ↔
      FirstPasses W c signature.id p hdr msgs values := by
  simp only [verifyFirst, verifyProposalMessageToSign, bind_eq_ok,
    index_eq_ok, ofExcept_eq_ok, wrap_eq_ok, verifyIdentifier_eq_ok,
    require_eq_ok, verifyValue_eq_ok]
  constructor
  · rintro ⟨msgBytes, hidx, msg, hread, _, ⟨_, hid, hmsg⟩, value, hvalue, hverify⟩
    exact ⟨msgBytes, msg, value, hidx, hread, hid, hmsg, hvalue, hverify⟩
  · rintro ⟨msgBytes, msg, value, hidx, hread, hid, hmsg, hvalue, hverify⟩
    exact ⟨msgBytes, hidx, msg, hread, (), ⟨(), hid, hmsg⟩, value, hvalue, hverify⟩

/-- There is a first message and a first value, so the part over the proposal does not panic. -/
theorem verifyFirst_noPanic {hdr msgs values} (hmsgs : msgs ≠ [])
    (hvalues : values ≠ []) : (c.verifyFirst W signature.id p hdr msgs values).NoPanic := by
  have hm := length_pos_iff.mpr hmsgs
  have hv := length_pos_iff.mpr hvalues
  simp [verifyFirst, verifyProposalMessageToSign, hm, hv, verifyIdentifier_noPanic, verifyValue_noPanic]

/-- **When `VerifyConsenterSig` cannot panic**, over any signature and any proposal: iff every round over
the blocks that is reached finds its message, the header and ORDERER entry of its block, and its value. -/
theorem Consensus.verifyConsenterSig_noPanic_iff (c : Consensus) (signature : Signature) (p : Proposal) :
    (c.verifyConsenterSig W signature p).NoPanic ↔ ∀ values msgs hdr, ReachesRounds W c signature p values msgs hdr →
        SafeRounds W c signature.id msgs values hdr.availableCommonBlocks := by
  simp only [verifyConsenterSig, noPanic_bind_iff, unpack_noPanic, unpack_eq_ok,
    noPanic_wrap_iff, wrap_eq_ok, Header.deserialize_noPanic, verifyFirst_eq_ok,
    noPanic_forEach_iff, noPanic_verifyBlock_iff, verifyBlock_eq_ok, true_and, Nat.zero_add]
  constructor
  · rintro h values msgs hdr ⟨hvalues, hmsgs, hhdr, hfirst⟩
    exact (h values hvalues msgs hmsgs hdr hhdr).2 () hfirst
  · intro h values hvalues msgs hmsgs hdr hhdr
    obtain ⟨-, -, -, hvne⟩ := id hvalues
    obtain ⟨-, -, -, hmne⟩ := id hmsgs
    exact ⟨verifyFirst_noPanic hmne hvne, fun _ hfirst =>
      h values msgs hdr ⟨hvalues, hmsgs, hhdr, hfirst⟩⟩

/-- A signature that packs nothing but the message over the proposal, over a proposal with blocks. -/
theorem verifyConsenterSig_of_first {signer hdr first}
    (hhdr : Header.deserialize W p.header = .ok hdr) (hblocks : hdr.availableCommonBlocks ≠ [])
    (htrusts : c.Trusts c signer) (hmsg : first.msg = proposalMessage W p hdr.num (c.signedDecisionNum hdr) hdr.prevHash
      (newIdentifierHeader W c.partyID (signer.nonce 0))) (hvalue : signer.sign 0 first.msg = .ok first.value) :
    ∃ msg, c.verifyConsenterSig W (c.packSignature W [first]) p = .error (.panic msg) := by
  have hfirst : c.verifyFirst W c.selfID p hdr [first.msg] [first.value] = .ok () :=
    verifyFirst_of_signed htrusts rfl hmsg hvalue rfl rfl
  obtain ⟨ab, rest, hcons⟩ := exists_cons_of_ne_nil hblocks
  simp only [verifyConsenterSig, packSignature, map_cons, map_nil, hhdr]
  rw [unpack_marshal _ (by simp), unpack_marshal _ (by simp)]
  simp only [ok_bind, wrap_ok, hfirst, hcons]
  exact ⟨_, rfl⟩

/-- **A short signature crashes a verifier**: the proposal is accepted and has one block, and the signature
packs one message and one value. -/
theorem short_signature_panics : ∃ p reqInfos signature msg, soleNode.verifyProposal soleLib p = .ok reqInfos ∧
      soleNode.verifyConsenterSig refWire signature p = .error (.panic msg) := by
  have hwf := reachable_soleNode.wellFormed
  obtain ⟨r, hr, -, hfirst⟩ := computes_refWire soleLib
  have hmd := Codec.unmarshal_marshal refWire.viewMetadata.toCodec (⟨1⟩ : ViewMetadata)
  obtain ⟨reqInfos, haccepted⟩ := (accepted_assembled_iff hwf framed_refWire hmd hr
    (SameView.refl _)).mpr (requestsPass_refWire _)
  have hblocks : (r.header refWire soleNode 1).availableCommonBlocks ≠ [] := by
    refine ne_nil_of_length_pos ?_
    simp [Computed.header, Computed.count, hfirst]
  let signer : Signer := ⟨fun _ => [], fun _ _ => .ok []⟩
  have htrusts : soleNode.Trusts soleNode signer := fun _ _ _ _ => rfl
  have hhdr : Header.deserialize refWire (r.proposal refWire soleNode 1
      (firstMetadata refWire) (fragmentRequests refWire [firstBatchBy 1])).header = .ok _ :=
    hr.deserialize_header hwf 1
  obtain ⟨msg, hpanic⟩ := @verifyConsenterSig_of_first refWire _ _ signer _ ⟨_, []⟩ hhdr hblocks htrusts rfl rfl
  exact ⟨_, reqInfos, _, msg, haccepted, hpanic⟩

end Signature

end Arma
