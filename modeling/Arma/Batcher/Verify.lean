import Arma.Batcher.Role
import Arma.Consensus.Reference

/-!
# What a secondary accepts

`verifyBatch_eq_ok` says what it takes for a batch to be accepted by a secondary.

The primary's signature on a batch is checked twice over bytes that are rebuilt from different sources: by the
secondary from the batch, and by a consenter from the secondary's fragment. The bytes hold a config sequence:
the batch's in the first case, the secondary's in the second. The secondary only logs a difference.
**`attestable_iff`**: the fragment passes at a consenter iff there is none.

The signature scheme is a parameter, `SignatureScheme`, with the one law that a signature belongs to one
message. ECDSA signatures are not empty.
-/

namespace Arma

open Arma.Lib Outcome List ControlEvent

/-- A signature scheme: who signed which bytes, and with what signature. -/
structure SignatureScheme where
  Signed : NodeIdentity → Bytes → Bytes → Prop
  unique : ∀ {id : NodeIdentity} {msg msg' sig : Bytes}, Signed id msg sig → Signed id msg' sig → msg = msg'
  ne_nil : ∀ {id : NodeIdentity} {msg sig : Bytes}, Signed id msg sig → sig ≠ []

namespace SignatureScheme

variable (S : SignatureScheme)

/-- The verifier accepts exactly the bytes that were signed. -/
def VerifiedBy (verify : NodeIdentity → Bytes → Bytes → Except String Unit) : Prop :=
  ∀ id msg sig, verify id msg sig = .ok () ↔ S.Signed id msg sig

def SignedBy (sign : Bytes → Except String Bytes) (id : NodeIdentity) : Prop :=
  ∀ msg sig, sign msg = .ok sig → S.Signed id msg sig

end SignatureScheme

theorem Consensus.verifyControlEvent_baf {W : Wire} {L : ConfigLib W} {c : Consensus} {baf proposalNum} :
    (∃ result, c.verifyControlEvent L ((ControlEvent.baf baf).bytes W) proposalNum = .ok result) ↔
      c.verifyBAF W baf = .ok () := by
  have hread : fromBytes W ((ControlEvent.baf baf).bytes W) = .ok (.baf baf) :=
    fromBytes_bytes W trivial
  simp only [verifyControlEvent, hread, ok_bind, verifyEvent, bind_eq_ok]
  constructor
  · rintro ⟨-, _, hok, -⟩
    exact hok
  · exact fun hok => ⟨_, (), hok, rfl⟩

theorem Consensus.verifyBAF_secondary {W : Wire} {c : Consensus} {baf} (h : baf.primary ≠ baf.signer) :
    c.verifyBAF W baf = .ok () ↔ baf.configSequence ≤ c.verificationSequence ∧
      (baf.primarySignature ≠ [] ∧ c.config.verifySignature (newBatcherIdentity baf.primary baf.shard)
        ((duplicateBAFSetSigner baf baf.primary).toBeSigned W) baf.primarySignature = .ok ()) ∧
      c.config.verifySignature (newBatcherIdentity baf.signer baf.shard) (baf.toBeSigned W) baf.signature = .ok () := by
  simp [verifyBAF, verifyPrimarySignature, verifySig, h, bind_eq_ok, require_eq_ok,
    wrap_eq_ok, ofExcept_eq_ok, Unique.exists_iff, and_assoc]

namespace BatcherRole

variable {W : Wire} {party : PartyID} {shard : ShardID} {r : BatcherRole W party shard} {batch : FabricBatch}
  {verifyBatchedRequests : BatchedRequests → Except String (List String)} {reqIDs : List String}

/-- A batch that a secondary accepts. -/
structure Accepts (r : BatcherRole W party shard)
    (verifyBatchedRequests : BatchedRequests → Except String (List String)) (batch : FabricBatch)
    (reqIDs : List String) : Prop where
  primary_eq : batch.primary = r.primary
  shard_eq : batch.shard = shard
  seq_eq : batch.seq = r.seq
  requests_ne_nil : batch.requests ≠ []
  digest : batch.digest = batch.requests.digest W.sha256
  signature : r.verifySignature (newBatcherIdentity r.primary shard) ((primaryBAF batch).toBeSigned W)
    batch.primarySignature = .ok ()
  requests : verifyBatchedRequests batch.requests = .ok reqIDs

theorem verifyBatch_eq_ok :
    r.verifyBatch verifyBatchedRequests batch = .ok reqIDs ↔ r.Accepts verifyBatchedRequests batch reqIDs := by
  simp only [verifyBatch, bind_eq_ok, require_eq_ok, wrap_eq_ok, ofExcept_eq_ok]
  constructor
  · rintro ⟨-, hprimary, -, hshard, -, hseq, -, hne, -, hdigest, _, hsig, hrequests⟩
    refine ⟨hprimary, hshard, hseq, by simpa using hne, hdigest, ?_, ?_⟩
    · rw [hprimary, hshard] at hsig
      exact hsig
    · split at hrequests
      · next hok =>
        rw [hok]
        exact congrArg Except.ok (Except.ok.inj hrequests)
      · cases hrequests
  · rintro ⟨hprimary, hshard, hseq, hne, hdigest, hsig, hrequests⟩
    refine ⟨(), hprimary, (), hshard, (), hseq, (), by simpa using hne, (), hdigest, (), ?_, ?_⟩
    · rw [hprimary, hshard]
      exact hsig
    · rw [hrequests]
      rfl

/-! ## The fragment of an accepted batch -/

variable {sign : Bytes → Except String Bytes} {baf : BAF}

/-- The fragment that `runSecondary` creates for a batch, as it is before it is signed. -/
def fragmentFor (r : BatcherRole W party shard) (batch : FabricBatch) : BAF :=
  newSimpleBatchAttestationFragment shard r.primary r.seq batch.digest party r.configSequence
    (UInt64.ofNat batch.requests.length) batch.primarySignature

theorem createBAF_eq_ok (h : r.createBAF sign r.seq r.primary batch.digest
    (UInt64.ofNat batch.requests.length) batch.primarySignature = .ok baf) :
    ∃ signature, sign ((r.fragmentFor batch).toBeSigned W) = .ok signature ∧
      baf = { r.fragmentFor batch with signature } := by
  simp only [createBAF, Arma.createBAF, orPanic_eq_ok, bind_eq_ok, ofExcept_eq_ok] at h
  obtain ⟨signature, hsign, hret⟩ := h
  exact ⟨signature, hsign, (Except.ok.inj hret).symm⟩

/-- The bytes that the consenter rebuilds from the fragment are those of the batch iff the config sequences
agree. -/
theorem toBeSigned_primaryBAF_eq_iff (h : r.Accepts verifyBatchedRequests batch reqIDs) (signature : Bytes) :
    (duplicateBAFSetSigner { r.fragmentFor batch with signature } r.primary).toBeSigned W =
      (primaryBAF batch).toBeSigned W ↔ batch.configSequence = r.configSequence := by
  rw [BAF.toBeSigned_inj]
  simp [BAF.toAsn1, duplicateBAFSetSigner, fragmentFor, primaryBAF, newSimpleBatchAttestationFragment,
    h.primary_eq, h.shard_eq, h.seq_eq, UInt64.toNat_inj, eq_comm]

/-! ## A scheme, a secondary and a consenter -/

/-- A scheme without secrets: the signature is the tagged message. -/
def taggedScheme : SignatureScheme where
  Signed _ msg sig := sig = 1 :: msg
  unique h h' := tail_eq_of_cons_eq (h.symm.trans h')
  ne_nil h := h ▸ cons_ne_nil _ _

def taggedVerify (_ : NodeIdentity) (msg sig : Bytes) : Except String Unit :=
  if sig = 1 :: msg then .ok () else .error "bad signature"

theorem verifiedBy_taggedVerify : taggedScheme.VerifiedBy taggedVerify := by
  intro id msg sig
  by_cases h : sig = 1 :: msg <;> simp [taggedVerify, taggedScheme, h]

/-- Party 1 in shard 1, as a secondary of party 2. -/
def secondaryRole (W : Wire) (configSequence : ConfigSequence) : BatcherRole W 1 1 where
  batchers := [1, 2]
  n := 2
  configSequence
  verifySignature := taggedVerify
  ledger := ⟨fun primary => some (newBatchLedgerPart W (.empty 1 primary))⟩
  primary := 2
  seq := 0
  term := 0
  termChan := none
  stopChan := false
  control := .receive
  notifier := .listening

/-- A first batch of party 2, signed under a config sequence. -/
def batchSignedUnder (W : Wire) (configSequence : ConfigSequence) : FabricBatch :=
  let digest := twoRequests.digest W.sha256
  newFabricBatchFromRequests 1 2 0 twoRequests digest configSequence []
    (1 :: (newSimpleBatchAttestationFragment 1 2 0 digest 2 configSequence 2 []).toBeSigned W)

/-- A consenter of a config sequence that knows the batchers' keys. -/
def taggedConsenter (W : Wire) (sequence : ConfigSequence) : Consensus :=
  { genesisNode W fourParties with
    config := { NodeConfig.permissive sequence fourParties with verifySignature := taggedVerify } }

theorem verifyBatch_secondaryRole (W : Wire) (configSequence batchSequence : ConfigSequence) :
    (secondaryRole W configSequence).verifyBatch (fun _ => .ok []) (batchSignedUnder W batchSequence) = .ok [] := by
  refine verifyBatch_eq_ok.mpr ⟨primary_new, shard_new, seq_new, ?_, ?_, ?_, rfl⟩
  · rw [batchSignedUnder, requests_new]
    exact cons_ne_nil _ _
  · rw [batchSignedUnder, digest_new, requests_new]
  · refine (verifiedBy_taggedVerify (newBatcherIdentity 2 1) _ _).mpr ?_
    simp only [batchSignedUnder, primaryBAF, primary_new, shard_new, seq_new, digest_new, requests_new,
      configSequence_new, primarySignature_new]
    rfl

theorem createBAF_secondaryRole (W : Wire) (configSequence batchSequence : ConfigSequence) :
    ∃ baf, (secondaryRole W configSequence).createBAF (fun msg => .ok (1 :: msg)) 0 2
      (batchSignedUnder W batchSequence).digest 2 (batchSignedUnder W batchSequence).primarySignature = .ok baf :=
  ⟨_, rfl⟩

/-- The consenter refuses the fragment of a batch that was signed under another config sequence. -/
theorem refused_secondaryRole {W : Wire} {L : ConfigLib W} {configSequence batchSequence : ConfigSequence}
    {baf} (hne : batchSequence ≠ configSequence)
    (hbaf : (secondaryRole W configSequence).createBAF (fun msg => .ok (1 :: msg)) 0 2
      (batchSignedUnder W batchSequence).digest 2 (batchSignedUnder W batchSequence).primarySignature = .ok baf) :
    ¬ ∃ result, (taggedConsenter W configSequence).verifyControlEvent L ((ControlEvent.baf baf).bytes W) 0 =
      .ok result := by
  intro hpasses
  have haccepts := verifyBatch_eq_ok.mp (verifyBatch_secondaryRole W configSequence batchSequence)
  have hconsenter : taggedScheme.VerifiedBy (taggedConsenter W configSequence).config.verifySignature :=
    verifiedBy_taggedVerify
  have hsecondary : taggedScheme.VerifiedBy (secondaryRole W configSequence).verifySignature := verifiedBy_taggedVerify
  have htwo : (2 : PartyID) ≠ 1 := by decide
  obtain ⟨signature, -, rfl⟩ := createBAF_eq_ok hbaf
  have hchecked := (Consensus.verifyBAF_secondary htwo).mp (Consensus.verifyControlEvent_baf.mp hpasses)
  have hcopied := (hconsenter _ _ _).mp hchecked.2.1.2
  have hsigned := (hsecondary _ _ _).mp haccepts.signature
  have hsame := (toBeSigned_primaryBAF_eq_iff haccepts signature).mp (taggedScheme.unique hcopied hsigned)
  rw [batchSignedUnder, configSequence_new] at hsame
  exact hne hsame

/-- **When an accepted batch is attestable**: the fragment that the secondary creates passes at a consenter of its
config sequence iff the batch has that config sequence too. -/
theorem attestable_iff (S : SignatureScheme) {L : ConfigLib W} {c : Consensus} (proposalNum : DecisionNum)
    (hr : S.VerifiedBy r.verifySignature) (hc : S.VerifiedBy c.config.verifySignature)
    (hsign : S.SignedBy sign (newBatcherIdentity party shard)) (hseq : c.verificationSequence = r.configSequence)
    (hsecondary : r.primary ≠ party) (hbatch : r.verifyBatch verifyBatchedRequests batch = .ok reqIDs)
    (hbaf : r.createBAF sign r.seq r.primary batch.digest (UInt64.ofNat batch.requests.length)
      batch.primarySignature = .ok baf) :
    (∃ result, c.verifyControlEvent L ((ControlEvent.baf baf).bytes W) proposalNum = .ok result) ↔
      batch.configSequence = r.configSequence := by
  have haccepts := verifyBatch_eq_ok.mp hbatch
  obtain ⟨signature, hsig, rfl⟩ := createBAF_eq_ok hbaf
  have hprimary := (hr _ _ _).mp haccepts.signature
  rw [Consensus.verifyControlEvent_baf, Consensus.verifyBAF_secondary hsecondary,
    ← toBeSigned_primaryBAF_eq_iff haccepts signature]
  constructor
  · rintro ⟨-, ⟨-, hcopied⟩, -⟩
    exact S.unique ((hc _ _ _).mp hcopied) hprimary
  · intro hbytes
    refine ⟨hseq ▸ UInt64.le_refl _, ⟨S.ne_nil hprimary, (hc _ _ _).mpr ?_⟩, (hc _ _ _).mpr (hsign _ _ hsig)⟩
    exact hbytes ▸ hprimary

/-- With one config sequence the fragment of the batch passes. -/
theorem attestable_sameSequence : ∃ baf, (secondaryRole refWire 0).createBAF (fun msg => .ok (1 :: msg)) 0 2
        (batchSignedUnder refWire 0).digest 2 (batchSignedUnder refWire 0).primarySignature = .ok baf ∧
      ∃ result, (taggedConsenter refWire 0).verifyControlEvent fourLib
        ((ControlEvent.baf baf).bytes refWire) 0 = .ok result := by
  obtain ⟨baf, hbaf⟩ := createBAF_secondaryRole refWire 0 0
  refine ⟨baf, hbaf, (attestable_iff taggedScheme 0 verifiedBy_taggedVerify verifiedBy_taggedVerify ?_ rfl
    (by decide) (verifyBatch_secondaryRole refWire 0 0) hbaf).mpr configSequence_new⟩
  exact fun msg sig h => (Except.ok.inj h).symm

/-- **A batch of an older config sequence is accepted and cannot be attested**: the primary signed it before a
reconfiguration, the secondary takes it after that, and every consenter of the new config sequence refuses the
secondary's fragment. -/
theorem older_batch_not_attestable :
    (secondaryRole refWire 1).verifyBatch (fun _ => .ok []) (batchSignedUnder refWire 0) = .ok [] ∧
      ∃ baf, (secondaryRole refWire 1).createBAF (fun msg => .ok (1 :: msg)) 0 2
          (batchSignedUnder refWire 0).digest 2 (batchSignedUnder refWire 0).primarySignature = .ok baf ∧
        ¬ ∃ result, (taggedConsenter refWire 1).verifyControlEvent fourLib
          ((ControlEvent.baf baf).bytes refWire) 0 = .ok result := by
  obtain ⟨baf, hbaf⟩ := createBAF_secondaryRole refWire 1 0
  exact ⟨verifyBatch_secondaryRole refWire 1 0, baf, hbaf, refused_secondaryRole (by decide) hbaf⟩

end BatcherRole

end Arma
