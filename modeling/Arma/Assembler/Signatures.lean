import Arma.Assembler.Ledger
import Arma.Lib.Grid
import Arma.Synchronizer.Agreement

/-!
# From compound signatures to the signatures of a block

A decision is stored with the compound signatures of the consenters that signed it, each of which packs one signature
over the decision and one over each of its blocks. The assembler reads them back (`ConsenterBlockToDecision`), unpacks
them (`node/consensus/state/compound_sig.go`) and writes those over a block into the block (`Append`, `AppendConfig`).

* `unPack` and `unpackBlockHeaderSigs` are `CompoundSig.UnPack` and `UnpackBlockHeaderSigs`. The latter fills a table
  with a row for each block and a column for each signer (`Lib/Grid.lean`).
* `extractHeaderAndSigsFromBlock` (`node/delivery/utils.go`) is what the assembler reads of a decision.
* **`signatures_reach_block`**: in the SIGNATURES entry of a block that was appended there is one signature of each
  consenter, over that block, and its value is the metadata that they cover.
-/

namespace Arma

open Arma.Lib AssemblerLedger Outcome List

/-! ## Unpacking -/

section Unpack

variable (W : Wire)

def unPack (cSig : Signature) : Outcome (List Signature) := do
  require (cSig.value.getD [] ≠ []) "empty signature value"
  let values ← (ofExcept (W.byteStrings.unmarshal (cSig.value.getD []))).wrap "failed to unmarshal values"
  require (values ≠ []) "zero signature values"
  let msgs ← (ofExcept (W.byteStrings.unmarshal (cSig.msg.getD []))).wrap "failed to unmarshal msgs"
  require (msgs ≠ []) "zero signature msgs"
  require (msgs.length = values.length)
    s!"number of msgs ({msgs.length}) does not match number of values ({values.length})"
  mapEach (fun i v => do
    let msg ← Outcome.index msgs i
    return ⟨cSig.id, some v, some msg⟩) 0 values

def signatureText (sig : Signature) : String :=
  s!"\x7bID:{sig.id} Value:{sliceText (sig.value.getD [])} Msg:{sliceText (sig.msg.getD [])}\x7d"

/-- The inner loop of `UnpackBlockHeaderSigs`, from `blockIdx` on: the signature on the proposal is left out. -/
def placeSigs (partyIdx : Nat) : Nat → List Signature → List (List Signature) → List (List Signature)
  | _, [], sigsBnP => sigsBnP
  | blockIdx, sig :: partySigs, sigsBnP =>
    placeSigs partyIdx (blockIdx + 1) partySigs
      (if blockIdx = 0 then sigsBnP else put sigsBnP (blockIdx - 1) partyIdx sig)

/-- The loop of `UnpackBlockHeaderSigs` over the signers, from `partyIdx` on. -/
def unpackLoop (numBlocks : Nat) : Nat → List Signature → List (List Signature) → Outcome (List (List Signature))
  | _, [], sigsBnP => .ok sigsBnP
  | partyIdx, cSig :: compoundSigs, sigsBnP => do
    let partySigs ← (unPack W cSig).wrap s!"failed to Unpack compound sig: {signatureText cSig}"
    require (partySigs.length = numBlocks + 1) (s!"extracted {partySigs.length} signatures but expected " ++
      s!"{numBlocks + 1}, compound sig: {signatureText cSig}")
    unpackLoop numBlocks (partyIdx + 1) compoundSigs (placeSigs partyIdx 0 partySigs sigsBnP)

def unpackBlockHeaderSigs (compoundSigs : List Signature) (numBlocks : Nat) : Outcome (List (List Signature)) :=
  if compoundSigs = [] then .error (.err "zero compound sigs")
  else if numBlocks = 0 then .ok []
  else unpackLoop W numBlocks 0 compoundSigs (replicate numBlocks (replicate compoundSigs.length ⟨0, none, none⟩))

def extractHeaderAndSigsFromBlock (block : Block) : Outcome (Header × List (List Signature)) :=
  match block.header with
  | none => .error (.err "block header is nil")
  | some blockHeader => do
    let (proposal, signatures) ← (consenterBlockToDecision W block).wrap
      s!"failed to extract decision from consenter block: {blockHeader.number}"
    let header ← (Header.deserialize W proposal.header).wrap
      s!"failed to deserialize proposal header from block: {blockHeader.number}"
    -- the genesis block has no signatures
    if blockHeader.number = 0 then return (header, [[]])
    else do
      let sigs ← (unpackBlockHeaderSigs W signatures header.availableCommonBlocks.length).wrap
        s!"failed to extract header signatures from compound signature, block {blockHeader.number}"
      return (header, sigs)

end Unpack

variable {columns : List (List Signature)}

section Table

variable {W : Wire} {numBlocks : Nat}

theorem unPack_packSignature (c : Consensus) {signed} (h : signed ≠ []) : unPack W (c.packSignature W signed) =
      .ok (signed.map fun sm => ⟨c.selfID, some sm.value, some sm.msg⟩) := by
  have hloop : Outcome.mapEach (fun i v => do
      let msg ← Outcome.index (signed.map (·.msg)) i
      return (⟨c.selfID, some v, some msg⟩ : Signature)) 0 (signed.map (·.value)) =
      .ok (signed.map fun sm => ⟨c.selfID, some sm.value, some sm.msg⟩) := by
    refine Outcome.mapEach_eq_ok_of_getElem? (by simp) fun k value sig hvalue hsig => ?_
    rw [List.getElem?_map, Option.map_eq_some_iff] at hvalue hsig
    obtain ⟨sm, hsm, rfl⟩ := hvalue
    obtain ⟨sm', hsm', rfl⟩ := hsig
    cases hsm.symm.trans hsm'
    simp [Outcome.index, hsm]
  have hvalue : (c.packSignature W signed).value.getD [] ≠ [] := W.byteStrings_ne_nil _
  rw [unPack, Outcome.require_true _ hvalue, Outcome.ok_bind]
  simp only [Consensus.packSignature, Option.getD_some, Codec.unmarshal_marshal, Outcome.ofExcept_ok, Outcome.wrap_ok,
    Outcome.ok_bind]
  rw [Outcome.require_true _ (by simpa using h), Outcome.ok_bind, Outcome.require_true _ (by simpa using h),
    Outcome.ok_bind, Outcome.require_true _ (by simp), Outcome.ok_bind]
  exact hloop

theorem placeSigs_succ (partyIdx blockIdx : Nat) (partySigs : List Signature) (sigsBnP) :
    placeSigs partyIdx (blockIdx + 1) partySigs sigsBnP = putColumn partyIdx blockIdx partySigs sigsBnP := by
  induction partySigs generalizing blockIdx sigsBnP with
  | nil => rfl
  | cons sig partySigs ih =>
    rw [placeSigs, putColumn, ih, if_neg (Nat.succ_ne_zero blockIdx), Nat.add_sub_cancel]

theorem placeSigs_cons (partyIdx : Nat) (sig : Signature) (partySigs : List Signature) (sigsBnP) :
    placeSigs partyIdx 0 (sig :: partySigs) sigsBnP = putColumn partyIdx 0 partySigs sigsBnP := by
  rw [placeSigs, if_pos rfl, placeSigs_succ]

/-- A compound signature of `numBlocks` blocks, unpacked: the signatures over the blocks are `column`. -/
def Unpacks (W : Wire) (numBlocks : Nat) (cSig : Signature) (column : List Signature) : Prop :=
  ∃ sig, unPack W cSig = .ok (sig :: column) ∧ column.length = numBlocks

variable {compoundSigs : List Signature}

theorem unpackLoop_eq (h : Forall₂ (Unpacks W numBlocks) compoundSigs columns) (partyIdx : Nat) (sigsBnP) :
    unpackLoop W numBlocks partyIdx compoundSigs sigsBnP = .ok (putColumns partyIdx columns sigsBnP) := by
  induction h generalizing partyIdx sigsBnP with
  | nil => rfl
  | cons hunpacks _ ih =>
    obtain ⟨sig, hsig, hlen⟩ := hunpacks
    rw [unpackLoop, hsig, wrap_ok, ok_bind, require_true _ (by simp [hlen]), ok_bind, placeSigs_cons, ih, putColumns]

/-- **The table**: in the row of a block there is the signature of each signer over it. -/
theorem unpackBlockHeaderSigs_eq_ok
    (h : Forall₂ (Unpacks W numBlocks) compoundSigs columns) (hne : compoundSigs ≠ []) :
    ∃ sigs, unpackBlockHeaderSigs W compoundSigs numBlocks = .ok sigs ∧ ∀ i < numBlocks,
      ∃ row, sigs[i]? = some row ∧ Forall₂ (fun column sig => column[i]? = some sig) columns row := by
  by_cases hzero : numBlocks = 0
  · refine ⟨[], ?_, fun i hi => absurd hi (by omega)⟩
    rw [unpackBlockHeaderSigs, if_neg hne, if_pos hzero]
  · have hlen : ∀ column ∈ columns, column.length = numBlocks := by
      intro column hcolumn
      obtain ⟨i, hi⟩ := getElem?_of_mem hcolumn
      obtain ⟨cSig, hcSig⟩ : ∃ cSig, compoundSigs[i]? = some cSig :=
        ⟨_, List.getElem?_eq_getElem (h.length_eq ▸ (lt_of_getElem? hi))⟩
      obtain ⟨sig, -, hlen⟩ := (forall₂_iff_getElem?.mp h).2 i cSig column hcSig hi
      exact hlen
    refine ⟨_, by rw [unpackBlockHeaderSigs, if_neg hne, if_neg hzero, unpackLoop_eq h], fun i hi => ?_⟩
    exact (shaped_replicate numBlocks compoundSigs.length _).putColumns_row h.length_eq.symm hlen hi

end Table

/-! ## The signatures in a block -/

/-- What the message of a consenter over the block at an index of a decision covers. -/
def Consensus.CoversAt (c : Consensus) (W : Wire) (blocks : List Block) (i : Nat) (cov : Coverage) : Prop :=
  ∃ covs, Covers W c.lastConfigBlockNum blocks covs ∧ covs[i]? = some cov

/-- A consenter and the key and nonces of its call of `SignProposal`. -/
abbrev Consenting : Type := Consensus × Signer

/-- **An entry of a block's signatures is the consenter's over that block**: it has the identifier of the consenter
and the nonce of the message, and the signature is over the header, the ORDERER entry and the last config of the
block. -/
structure Consenting.SignsBlock (W : Wire) (blocks : List Block) (i : Nat) (s : Consenting) (cov : Coverage)
    (sig : MetadataSignature) : Prop where
  covers : s.1.CoversAt W blocks i cov
  identifierHeader : sig.identifierHeader = newIdentifierHeader W s.1.partyID (s.2.nonce (i + 1))
  signature : s.2.sign (i + 1) (cov.message W sig.identifierHeader) = .ok sig.signature

/-- **The SIGNATURES entry of the block at an index of a decision**: one signature of each consenter, each over that
block, and the orderer metadata that is in the messages of all consenters which have the last config block of the
first. -/
structure BlockSignatures (W : Wire) (blocks : List Block) (i : Nat) (signers : List Consenting) (md : Metadata) :
    Prop where
  each : Forall₂ (fun s sig => ∃ cov, s.SignsBlock W blocks i cov sig) signers md.signatures
  once : (md.signatures.map MetadataSignature.identifierHeader).Nodup
  value : ∀ first s cov, signers.head? = some first → s ∈ signers →
    s.1.lastConfigBlockNum = first.1.lastConfigBlockNum → s.1.CoversAt W blocks i cov →
    md.value = cov.ordererBlockMetadata W

section Reach

variable {W : Wire} {p : Proposal} {hdr : Header} {signers : List Consenting} {signatures row : List Signature}
  {blocks : List Block} {i : Nat}

theorem Consensus.CoversAt.unique {c c' : Consensus} {cov cov'}
    (hlast : c.lastConfigBlockNum = c'.lastConfigBlockNum) (h : c.CoversAt W blocks i cov)
    (h' : c'.CoversAt W blocks i cov') : cov = cov' := by
  obtain ⟨covs, hcovs, hcov⟩ := h
  obtain ⟨covs', hcovs', hcov'⟩ := h'
  obtain rfl := hcovs.unique (hlast ▸ hcovs')
  exact Option.some.inj (hcov.symm.trans hcov')

/-- What `arrangeSignatures` makes of the consenter's signature over a block. -/
def Consenting.Arranged (W : Wire) (blocks : List Block) (i : Nat) (s : Consenting) (a : MetadataSignature × Bytes) :
    Prop :=
  ∃ cov, s.SignsBlock W blocks i cov a.1 ∧ a.2 = cov.ordererBlockMetadata W

/-- The signatures over the blocks are unpacked from a compound signature in the order of the blocks. -/
theorem Consenting.exists_column {s : Consenting} {signature}
    (hhdr : Header.deserialize W p.header = .ok hdr) (h : s.1.signProposal W s.2 p = .ok signature) :
    signature.stored = signature ∧ ∃ column, Unpacks W hdr.availableCommonBlocks.length signature column ∧
      ∀ i sig, column[i]? = some sig →
        ∃ a, arrangeSignature W sig = .ok a ∧ s.Arranged W hdr.availableCommonBlocks i a := by
  obtain ⟨-, hdr', covs, first, signed, hsigned⟩ := Consensus.signProposal_eq_ok.mp h
  cases hhdr.symm.trans hsigned.header
  obtain ⟨hlen, hblocks⟩ := hsigned.blocks
  rw [hsigned.signature]
  refine ⟨rfl, _, ⟨_, unPack_packSignature s.1 (cons_ne_nil first signed), ?_⟩, fun i sig hsig => ?_⟩
  · rw [length_map, hlen, hsigned.covers.length_eq]
  · change (signed.map _)[i]? = some sig at hsig
    rw [getElem?_map, Option.map_eq_some_iff] at hsig
    obtain ⟨sm, hsm, rfl⟩ := hsig
    have hi : i < covs.length := hlen ▸ lt_of_getElem? hsm
    obtain ⟨hmsg, hvalue⟩ := hblocks i _ sm (getElem?_eq_getElem hi) hsm
    rw [Nat.add_comm 1 i] at hmsg hvalue
    refine ⟨(⟨sm.value, newIdentifierHeader W s.1.partyID (s.2.nonce (i + 1))⟩, covs[i].ordererBlockMetadata W), ?_,
      covs[i], ⟨⟨covs, hsigned.covers, getElem?_eq_getElem hi⟩, rfl, hmsg ▸ hvalue⟩, rfl⟩
    simp only [arrangeSignature, hmsg, Coverage.message, messageToSign, Option.getD_some, Codec.unmarshal_marshal,
      ofExcept_ok, orPanic_ok, ok_bind]
    rfl

theorem exists_columns (hhdr : Header.deserialize W p.header = .ok hdr)
    (h : Forall₂ (fun (s : Consenting) sig => s.1.signProposal W s.2 p = .ok sig) signers signatures) :
    signatures.map Signature.stored = signatures ∧ ∃ columns,
      Forall₂ (Unpacks W hdr.availableCommonBlocks.length) signatures columns ∧
      Forall₂ (fun (s : Consenting) (column : List Signature) => ∀ i sig, column[i]? = some sig →
        ∃ a, arrangeSignature W sig = .ok a ∧ s.Arranged W hdr.availableCommonBlocks i a) signers columns := by
  induction h with
  | nil => exact ⟨rfl, [], .nil, .nil⟩
  | cons hsign _ ih =>
    obtain ⟨hstored, columns, hunpacks, hcolumns⟩ := ih
    obtain ⟨hstored', column, hunpacks', hcolumn⟩ := Consenting.exists_column hhdr hsign
    exact ⟨by rw [map_cons, hstored', hstored], column :: columns, .cons hunpacks' hunpacks, .cons hcolumn hcolumns⟩

theorem exists_arranged
    (h : Forall₂ (fun (s : Consenting) (column : List Signature) => ∀ i sig, column[i]? = some sig →
      ∃ a, arrangeSignature W sig = .ok a ∧ s.Arranged W blocks i a) signers columns)
    (hrow : Forall₂ (fun column sig => column[i]? = some sig) columns row) :
    ∃ arranged, mapEach (fun _ => arrangeSignature W) 0 row = .ok arranged ∧
      Forall₂ (Consenting.Arranged W blocks i) signers arranged := by
  simp only [mapEach_eq_ok]
  induction h generalizing row with
  | nil =>
    obtain rfl := forall₂_nil_left_iff.mp hrow
    exact ⟨[], .nil, .nil⟩
  | cons hcolumn _ ih =>
    obtain ⟨sig, row', hsig, hrow', rfl⟩ := forall₂_cons_left_iff.mp hrow
    obtain ⟨arranged, harranged, hsigners⟩ := ih hrow'
    obtain ⟨a, ha, hsigner⟩ := hcolumn i sig hsig
    exact ⟨a :: arranged, .cons ha harranged, .cons hsigner hsigners⟩

variable {arranged : List (MetadataSignature × Bytes)}

section

variable (hdistinct : (signers.map fun s => s.1.partyID).Nodup)
  (h : Forall₂ (Consenting.Arranged W blocks i) signers arranged)
include hdistinct h

theorem nodup_identifierHeader : ((arranged.map Prod.fst).map MetadataSignature.identifierHeader).Nodup := by
  have hmap : (arranged.map Prod.fst).map MetadataSignature.identifierHeader =
      signers.map fun s => newIdentifierHeader W s.1.partyID (s.2.nonce (i + 1)) := by
    clear hdistinct
    induction h with
    | nil => rfl
    | cons harranged _ ih =>
      obtain ⟨cov, hsigns, -⟩ := harranged
      rw [map_cons, map_cons, map_cons, ih, hsigns.identifierHeader]
  rw [hmap, Nodup, pairwise_map]
  refine (pairwise_map.mp hdistinct).imp fun hne heq => hne ?_
  have hid := congrArg IdentifierHeader.identifier (W.identifierHeader.marshal_injective heq)
  apply UInt16.toNat_inj.mp
  simpa using congrArg UInt32.toNat hid

/-- **What is written into a block** from its row. -/
theorem blockSignatures_of_arranged : BlockSignatures W blocks i signers
      ⟨(arranged.head?.map Prod.snd).getD [], arranged.map Prod.fst⟩ where
  each := by
    rw [forall₂_map_right_iff]
    refine h.imp fun s a harranged => ?_
    obtain ⟨cov, hsigns, -⟩ := harranged
    exact ⟨cov, hsigns⟩
  once := nodup_identifierHeader hdistinct h
  value := by
    intro first s cov hfirst _ hlast hcovers
    cases h with
    | nil => cases hfirst
    | cons harranged _ =>
      cases hfirst
      obtain ⟨cov', hsigns, hvalue⟩ := harranged
      rw [Consensus.CoversAt.unique hlast hcovers hsigns.covers]
      exact hvalue

end

theorem extractHeaderAndSigsFromBlock_decisionBlock {c}
    (hhdr : Header.deserialize W p.header = .ok hdr) (hnum : hdr.num ≠ 0)
    (hstored : signatures.map Signature.stored = signatures) {result} :
    extractHeaderAndSigsFromBlock W (decisionBlock W c p hdr signatures) = .ok result ↔ result.1 = hdr ∧
      unpackBlockHeaderSigs W signatures hdr.availableCommonBlocks.length = .ok result.2 := by
  have hheader : (decisionBlock W c p hdr signatures).header = some (decisionBlockHeader W hdr.num p c.prevHash) := rfl
  have hdecision : consenterBlockToDecision W (decisionBlock W c p hdr signatures) = .ok (p.stored, signatures) := by
    rw [decisionBlock, consenterBlockToDecision_create, hstored]
  have hnumber : (decisionBlockHeader W hdr.num p c.prevHash).number ≠ 0 := hnum
  simp only [extractHeaderAndSigsFromBlock, hheader, hdecision, stored_header hhdr, hhdr, wrap_ok,
    ok_bind, if_neg hnumber, bind_eq_ok, wrap_eq_ok, pure_eq, Except.ok.injEq]
  constructor
  · rintro ⟨sigs, hsigs, rfl⟩
    exact ⟨rfl, hsigs⟩
  · rintro ⟨rfl, hsigs⟩
    exact ⟨_, hsigs, rfl⟩

theorem Consensus.exists_state_of_deliver {L : ConfigLib W} {n n' : Consensus} {reconfig}
    (h : n.deliver L p signatures = .ok (n', reconfig)) :
    ∃ hdr, Header.deserialize W p.header = .ok hdr ∧ ∃ s, hdr.state = some s := by
  simp only [deliver, commit, bind_eq_ok, orPanic_eq_ok, deref_eq_ok] at h
  obtain ⟨hdr, hhdr, -, ⟨-, -, s, hs, -⟩, -⟩ := h
  exact ⟨hdr, hhdr, s, hs⟩

theorem Covers.exists_metadata {m covs} (h : Covers W m blocks covs) {acb} (hacb : blocks[i]? = some acb) :
    ∃ mds orderer, acb.metadata = some mds ∧ mds[indexOrderer]? = some orderer := by
  induction h generalizing i with
  | nil => cases hacb
  | cons hof _ _ ih =>
    cases i with
    | zero =>
      cases hacb
      obtain ⟨mds, hmds, horderer⟩ := hof.orderer
      exact ⟨mds, _, hmds, horderer⟩
    | succ i => exact ih hacb

/-- What is written into the block at an index of a decision with its row of signatures. -/
structure Written (W : Wire) (blocks : List Block) (i : Nat) (signers : List Consenting) (acb : Block)
    (row : List Signature) (mds : List Bytes) (md : Metadata) : Prop where
  metadata : acb.metadata = some mds
  signatures : BlockSignatures W blocks i signers md
  append : ∀ storage batch oba, oba.commonBlock = acb → oba.signatures = row →
    append W storage batch oba = appendBlock W storage
      ⟨acb.header, some batch.requests, some (mds.set indexSignatures (W.metadata.marshal md))⟩
  appendConfig : isConfigBlock W acb = true → ∀ storage oba, oba.commonBlock = acb → oba.signatures = row →
    appendConfig W storage oba = appendBlock W storage
      ⟨acb.header, acb.data, some (mds.set indexSignatures (W.metadata.marshal md))⟩

theorem exists_written {acb mds orderer}
    (hsigners : signers ≠ []) (hdistinct : (signers.map fun s => s.1.partyID).Nodup)
    (hmds : acb.metadata = some mds) (horderer : mds[indexOrderer]? = some orderer)
    (harranged : mapEach (fun _ => arrangeSignature W) 0 row = .ok arranged)
    (h : Forall₂ (Consenting.Arranged W blocks i) signers arranged) :
    ∃ md, Written W blocks i signers acb row mds md := by
  have hlt : indexSignatures < mds.length := Nat.lt_of_le_of_lt (by decide) (lt_of_getElem? horderer)
  have hne : arranged.map Prod.fst ≠ [] := by
    rintro hnil
    rw [map_eq_nil_iff.mp hnil, forall₂_nil_right_iff] at h
    exact hsigners h
  refine ⟨_, hmds, blockSignatures_of_arranged hdistinct h, ?_, ?_⟩
  · rintro storage batch oba rfl rfl
    simp [AssemblerLedger.append, arrangeSignatures, harranged, hmds, setSignatures, Outcome.index,
      List.getElem?_eq_getElem hlt]
  · rintro hconfig storage oba rfl rfl
    simp [AssemblerLedger.appendConfig, hconfig, arrangeSignatures, harranged, hmds, hne, setSignatures, Outcome.index,
      List.getElem?_eq_getElem hlt]

/-- **The signatures on a decision reach its blocks.** A decision that consenters with distinct identities have signed
is stored and can be read back if there is a signature on it. Whoever reads it has a row of signatures for each of its
blocks, and what `Append` and `AppendConfig` write with the row into the block is one signature of each consenter over
that block. -/
theorem signatures_reach_block {L : ConfigLib W} {n n' : Consensus} {reconfig : Reconfig}
    (hstorage : n.storage ≠ []) (hdistinct : (signers.map fun s => s.1.partyID).Nodup)
    (hsigned : List.Forall₂ (fun (s : Consenting) sig => s.1.signProposal W s.2 p = .ok sig) signers signatures)
    (hdeliver : n.deliver L p signatures = .ok (n', reconfig)) : ∃ block, n'.storage = n.storage ++ [block] ∧
      (signers ≠ [] → ∃ hdr sigs, extractHeaderAndSigsFromBlock W block = .ok (hdr, sigs)) ∧
      ∀ hdr sigs, extractHeaderAndSigsFromBlock W block = .ok (hdr, sigs) → Header.deserialize W p.header = .ok hdr ∧
        ∀ i acb, hdr.availableCommonBlocks[i]? = some acb → ∃ row mds md, sigs[i]? = some row ∧
          Written W hdr.availableCommonBlocks i signers acb row mds md := by
  obtain ⟨hdr, hhdr, s, hs⟩ := Consensus.exists_state_of_deliver hdeliver
  have hd := Consensus.delivered_of_deliver hhdr hs hdeliver
  have hnum : hdr.num ≠ 0 := by
    rw [hd.num]
    exact fun hzero => hstorage (length_eq_zero_iff.mp hzero)
  obtain ⟨hstored, columns, hunpacks, hcolumns⟩ := exists_columns hhdr hsigned
  refine ⟨_, hd.storage, fun hsigners => ?_, fun hdr' sigs hextract => ?_⟩
  · have hne : signatures ≠ [] := by
      rintro rfl
      exact hsigners (forall₂_nil_right_iff.mp hsigned)
    obtain ⟨sigs, hsigs, -⟩ := unpackBlockHeaderSigs_eq_ok hunpacks hne
    exact ⟨hdr, sigs, (extractHeaderAndSigsFromBlock_decisionBlock hhdr hnum hstored).mpr ⟨rfl, hsigs⟩⟩
  · obtain ⟨rfl, hsigs⟩ := (extractHeaderAndSigsFromBlock_decisionBlock hhdr hnum hstored).mp hextract
    refine ⟨hhdr, fun i acb hacb => ?_⟩
    -- without a signature there is nothing to unpack, and the reader fails
    have hne : signatures ≠ [] := by
      rintro rfl
      cases hsigs
    obtain ⟨sigs', hsigs', hrows⟩ := unpackBlockHeaderSigs_eq_ok hunpacks hne
    cases hsigs.symm.trans hsigs'
    obtain ⟨row, hrow, hcolumn⟩ := hrows i (lt_of_getElem? hacb)
    obtain ⟨arranged, harranged, hsigns⟩ := exists_arranged hcolumns hcolumn
    obtain ⟨s₀, signers', rfl⟩ : ∃ s₀ signers', signers = s₀ :: signers' :=
      exists_cons_of_ne_nil fun hnil => hne (forall₂_nil_left_iff.mp (hnil ▸ hsigned))
    obtain ⟨sig₀, -, hsign₀, -, -⟩ := forall₂_cons_left_iff.mp hsigned
    obtain ⟨-, hdr₀, covs₀, first₀, signed₀, hsigned₀⟩ := Consensus.signProposal_eq_ok.mp hsign₀
    cases hhdr.symm.trans hsigned₀.header
    obtain ⟨mds, orderer, hmds, horderer⟩ := hsigned₀.covers.exists_metadata hacb
    obtain ⟨md, hwritten⟩ := exists_written (cons_ne_nil _ _) hdistinct hmds horderer harranged hsigns
    exact ⟨row, mds, md, hrow, hwritten⟩

/-- The reference node and a second party with its view. -/
def refConsenters : List Consenting :=
  [(soleNode, refSigner), ({ soleNode with partyID := 2 }, refSigner)]

/-- Two parties sign the first decision of the reference node, and their signatures reach its block. -/
theorem signatures_reach_block_first : ∃ p signatures n' reconfig block hdr sigs acb row mds md,
      List.Forall₂ (fun (s : Consenting) sig => s.1.signProposal refWire s.2 p = .ok sig) refConsenters signatures ∧
      soleNode.deliver soleLib p signatures = .ok (n', reconfig) ∧
      n'.storage = soleNode.storage ++ [block] ∧
      extractHeaderAndSigsFromBlock refWire block = .ok (hdr, sigs) ∧
      hdr.availableCommonBlocks[0]? = some acb ∧ sigs[0]? = some row ∧
      Written refWire hdr.availableCommonBlocks 0 refConsenters acb row mds md := by
  obtain ⟨p, d, acb, -, -, hfirst, hacb, -, hsign, hdeliver⟩ := exists_first_decision []
  obtain ⟨sig₁, hsig₁⟩ := hsign soleNode
  obtain ⟨sig₂, hsig₂⟩ := hsign { soleNode with partyID := 2 }
  have hsigned : Forall₂ (fun (s : Consenting) sig => s.1.signProposal refWire s.2 p = .ok sig) refConsenters
      [sig₁, sig₂] := .cons hsig₁ (.cons hsig₂ .nil)
  obtain ⟨n', reconfig, hdeliver⟩ := hdeliver [sig₁, sig₂]
  obtain ⟨block, hstorage, hread, hreach⟩ := signatures_reach_block (cons_ne_nil _ _) (by decide) hsigned hdeliver
  obtain ⟨hdr', sigs, hextract⟩ := hread (cons_ne_nil _ _)
  obtain ⟨hhdr', hrows⟩ := hreach hdr' sigs hextract
  cases hfirst.header.symm.trans hhdr'
  obtain ⟨row, mds, md, hrow, hwritten⟩ := hrows 0 acb hacb
  exact ⟨p, _, n', reconfig, block, d.header, sigs, acb, row, mds, md, hsigned, hdeliver, hstorage, hextract, hacb,
    hrow, hwritten⟩

end Reach

end Arma
