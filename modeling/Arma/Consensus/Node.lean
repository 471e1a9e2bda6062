import Arma.State.Events
import Arma.Consensus.Decision

/-!
# The consenter

Model of the state of a consenter node (`Consensus` of `node/consensus/consensus.go`), of the
configuration it runs under, and of how it verifies requests: `verifyControlEvent` for one event, and
`verifyProposalRequests` for the payload of a proposal.

* A configuration is read out of an envelope by libraries outside this repository (the channel bundle,
  its policies, ECDSA). `ConfigLib` is what the node gets from them, `NodeConfig` what it keeps. The one
  thing assumed of the reader is that a config it extracts has the sequence and the parties written in the
  envelope it was extracted from.
* The functions run under the node's lock, or on a snapshot taken under it, and are atomic here.
* The BADB is the list of the digests put into it.

`verifyProposalRequests_eq_ok` says what it takes for a payload to pass; requests of a config sequence
that `Process` ignores are decoded, and not verified (`reqAffectsState`).
-/

namespace Arma

open Arma.Lib Outcome List

/-! ## Configurations -/

/-- A party of the shared config: its id, and the shards of its batchers. -/
structure PartyConfig where
  partyID : PartyID
  batchers : List ShardID
  deriving DecidableEq, Repr

/-- `ordererpb.SharedConfig`: the parties. There is at least one, as nobody runs under a config without
parties. Their ids are distinct and of sixteen bits, so there are fewer than `2 ^ 16` of them. -/
structure SharedConfig where
  parties : List PartyConfig
  parties_ne_nil : parties ≠ []
  length_lt : parties.length < 2 ^ 16

namespace SharedConfig

variable (sc : SharedConfig)

/-- The ids of the parties, which are those of the consenters (`ExtractConsenters`). -/
def partyIDs : List PartyID := sc.parties.map (·.partyID)

/-- `Configuration.ExtractShards`: the shards of all batchers, each once, sorted. -/
def extractShards : List ShardID :=
  (sc.parties.flatMap (·.batchers)).dedup.insertionSort (· ≤ ·)

theorem toNat_length : (UInt16.ofNat sc.parties.length).toNat = sc.parties.length := by
  rw [UInt16.toNat_ofNat']
  exact Nat.mod_eq_of_lt sc.length_lt

theorem ofNat_length_ne_zero : UInt16.ofNat sc.parties.length ≠ 0 := by
  intro h
  have hlen := congrArg UInt16.toNat h
  rw [toNat_length] at hlen
  exact sc.parties_ne_nil (length_eq_zero_iff.mp hlen)

theorem nodup_extractShards : sc.extractShards.Nodup :=
  (perm_insertionSort _ _).nodup_iff.mpr (nodup_dedup _)

end SharedConfig

/-- `ConsenterNodeConfig`, with the verifiers that `configureConsensus` builds from it. -/
structure NodeConfig where
  sequence : ConfigSequence
  shared : SharedConfig
  /-- `SigVerifier.VerifySignature`: identity, message, signature. -/
  verifySignature : NodeIdentity → Bytes → Bytes → Except String Unit
  /-- What `ValidateConfigRequest` checks of an envelope of type CONFIG. -/
  configRequestRules : Envelope → Except String Unit
  /-- `ConfigRulesVerifier.ValidateTransition`, from this config. It cannot panic
  (`Config/Safety`). -/
  validateTransition : Envelope → Except String Unit

/-- What a node gets from the configuration libraries. -/
structure ConfigLib (W : Wire) where
  /-- `NewBundleFromEnvelope`, its orderer section and the shared config in it. -/
  sharedConfig : Envelope → Except String SharedConfig
  /-- `GetBFTConfig`: the SmartBFT section of the shared config parses. -/
  checkBFTConfig : SharedConfig → Except String Unit
  /-- The rules of `ValidateNewConfig`, which come after the shared config was read. They can panic
  (`Config/Safety`). -/
  newConfigRules : PartyID → Envelope → Outcome Unit
  /-- `ExtractConsenterConfig`: the config of the node after the config block with this envelope. -/
  nodeConfig : Envelope → NodeConfig
  /-- `IsNodeConfigChangeRestartRequired`: the node's own address or certificates changed. -/
  isRestartRequired : PartyID → NodeConfig → Envelope → Bool
  nodeConfig_sequence : ∀ envelope seq,
    ConfigRequest.configSequence W ⟨envelope⟩ = .ok seq → (nodeConfig envelope).sequence = seq
  nodeConfig_shared : ∀ envelope sc, sharedConfig envelope = .ok sc → (nodeConfig envelope).shared = sc

/-- `NodeStatus`, of a node that has started: it runs, or it waits for its administrator. -/
inductive NodeStatus where
  | running
  | pendingAdmin
  deriving DecidableEq, Repr

structure Consensus where
  partyID : PartyID
  config : NodeConfig
  state : State
  badb : List Bytes
  lastConfigBlockNum : Nat
  decisionNumOfLastConfigBlock : DecisionNum
  txCount : UInt64
  prevHash : Bytes
  storage : List Block
  status : NodeStatus

namespace Consensus

abbrev verificationSequence (c : Consensus) : ConfigSequence := c.config.sequence

/-- `c.Config.BFTConfig.SelfID`, which `GetBFTConfig` sets to the node's party. -/
def selfID (c : Consensus) : UInt64 := c.partyID.toUInt64

end Consensus

/-! ## Verifying one event -/

/-- `verifyReportDecisionNum`; `proposalNum` is 0 outside a proposal. -/
def verifyReportDecisionNum (storage : List Block) (report : AssemblerDecisionReport)
    (proposalNum : DecisionNum) : Outcome Unit :=
  if proposalNum = 0 then
    if storage.length = 0 then
      .error (.err (s!"assembler decision report of decision {report.decisionNum} received before any decision is " ++
        "committed: assembler decision report of a decision not committed yet"))
    else
      require (report.decisionNum ≤ storage.length - 1)
        (s!"assembler decision report of decision {report.decisionNum} is ahead of the last committed decision " ++
          s!"{storage.length - 1}: assembler decision report of a decision not committed yet")
  else
    require (report.decisionNum < proposalNum)
      s!"assembler decision report of decision {report.decisionNum} is not below the proposed decision {proposalNum}"

def maxAssemblerReportSignatureSize : Nat := 256

def NodeConfig.validateConfigRequest (W : Wire) (config : NodeConfig) (envelope : Envelope) : Outcome Unit := do
  require (W.envelopeType envelope = some headerTypeConfig)
    "config envelope: unexpected type, expected CONFIG"
  ofExcept (config.configRequestRules envelope)

def ConfigLib.validateNewConfig {W : Wire} (L : ConfigLib W) (envelope : Envelope)
    (partyID : PartyID) : Outcome Unit := do
  let _ ← ofExcept (L.sharedConfig envelope)
  L.newConfigRules partyID envelope

namespace Consensus

variable {W : Wire} (L : ConfigLib W) (c : Consensus)

/-- `SigVerifier.VerifySignature`. -/
def verifySig (id : NodeIdentity) (msg sig : Bytes) : Outcome Unit :=
  ofExcept (c.config.verifySignature id msg sig)

/-- The complaint branch of `verifyControlEvent`. -/
def verifyComplaint (complaint : Complaint) : Outcome Unit := do
  require (complaint.configSeq = c.verificationSequence)
    (s!"mismatch config sequence; the complaint's config seq is {complaint.configSeq} while the config seq should " ++
      s!"be {c.verificationSequence}")
  c.verifySig (newBatcherIdentity complaint.signer complaint.shard) complaint.toBeSigned complaint.signature

/-- The check that a secondary's fragment carries its primary's signature. -/
def verifyPrimarySignature (W : Wire) (baf : BAF) : Outcome Unit :=
  if baf.primary ≠ baf.signer then do
    require (baf.primarySignature ≠ []) "missing primary signature"
    (c.verifySig (newBatcherIdentity baf.primary baf.shard)
      ((duplicateBAFSetSigner baf baf.primary).toBeSigned W) baf.primarySignature).wrap
        "failed to verify primary signature"
  else .ok ()

/-- The BAF branch of `verifyControlEvent`: a fragment may be behind the config sequence. -/
def verifyBAF (W : Wire) (baf : BAF) : Outcome Unit := do
  require (baf.configSequence ≤ c.verificationSequence)
    (s!"config sequence ahead; the BAF's config seq is {baf.configSequence} while it should be at most " ++
      s!"{c.verificationSequence}")
  c.verifyPrimarySignature W baf
  c.verifySig (newBatcherIdentity baf.signer baf.shard) (baf.toBeSigned W) baf.signature

/-- The config-request branch of `verifyControlEvent`. -/
def verifyConfigRequest (r : ConfigRequest) : Outcome Unit := do
  let reqConfigSeq ← (r.configSequence W).wrap "failed getting config request's config seq"
  require (reqConfigSeq = c.verificationSequence + 1)
    (s!"mismatch config sequence; the config request's config seq is {reqConfigSeq} while the config seq should be " ++
      s!"{c.verificationSequence + 1}")
  (c.config.validateConfigRequest W r.envelope).wrap "failed to verify and classify request"
  (L.validateNewConfig r.envelope c.partyID).wrap "failed to validate rules in new config"
  (ofExcept (c.config.validateTransition r.envelope)).wrap
    "failed to validate config transition rules"

/-- The assembler-report branch of `verifyControlEvent`. -/
def verifyAssemblerReport (report : AssemblerDecisionReport) (proposalNum : DecisionNum) : Outcome Unit := do
  require (report.configSeq = c.verificationSequence)
    (s!"mismatch config sequence; the assembler decision report's config seq is {report.configSeq} while the config " ++
      s!"seq should be {c.verificationSequence}")
  require (report.signature ≠ []) "missing assembler decision report signature"
  verifyReportDecisionNum c.storage report proposalNum
  require (report.signature.length ≤ maxAssemblerReportSignatureSize)
    (s!"assembler decision report signature too large ({report.signature.length} > " ++
      s!"{maxAssemblerReportSignatureSize} bytes)")
  (c.verifySig (newAssemblerIdentity report.party) report.toBeSigned report.signature).wrap
    "invalid assembler decision report signature"

def verifyEvent (proposalNum : DecisionNum) : ControlEvent → Outcome Unit
  | .complaint complaint => c.verifyComplaint complaint
  | .baf baf => c.verifyBAF W baf
  | .configRequest r => c.verifyConfigRequest L r
  | .assemblerReport report => c.verifyAssemblerReport report proposalNum

/-- `verifyControlEvent`, which is `verifyCE` when `proposalNum` is 0 and `verifyProposalCE` otherwise. -/
def verifyControlEvent (req : Bytes) (proposalNum : DecisionNum) : Outcome (RequestInfo × ControlEvent) := do
  let ce ← ControlEvent.fromBytes W req
  c.verifyEvent L proposalNum ce
  return (requestID W req, ce)

/-! ## Verifying the payload of a proposal -/

/-- The switch of `getReqConfigSeq`: the config sequence under which an event is to be verified, and
whether the event is a fragment. -/
def eventConfigSeq (W : Wire) : ControlEvent → Outcome (ConfigSequence × Bool)
  | .complaint complaint => .ok (complaint.configSeq, false)
  | .baf baf => .ok (baf.configSequence, true)
  | .configRequest r => do
    let configSeq ← r.configSequence W
    if configSeq = 0 then return (0, false) else return (configSeq - 1, false)
  | .assemblerReport report => .ok (report.configSeq, false)

def getReqConfigSeq (W : Wire) (req : Bytes) : Outcome (ConfigSequence × Bool) := do
  let ce ← ControlEvent.fromBytes W req
  eventConfigSeq W ce

/-- One round of the loop of `verifyProposalRequests`. -/
def verifyProposalRequest (verificationSeq : ConfigSequence) (proposalNum : DecisionNum)
    (rawReq : Bytes) : Outcome RequestInfo := do
  let (configSeq, isBAF) ← (getReqConfigSeq W rawReq).wrap s!"invalid request {rawReq}"
  if configSeq = verificationSeq ∨ (isBAF ∧ configSeq < verificationSeq) then do
    let (reqID, _) ← (c.verifyControlEvent L rawReq proposalNum).wrap s!"invalid request {rawReq}"
    return reqID
  else return requestID W rawReq

def verifyProposalRequests (requests : BatchedRequests) (verificationSeq : ConfigSequence)
    (proposalNum : DecisionNum) : Outcome (List RequestInfo) :=
  mapEach (fun _ => c.verifyProposalRequest L verificationSeq proposalNum) 0 requests

/-! ## What it takes for a payload to pass -/

/-- Whether `verifyProposalRequests` verifies a request under this config sequence: one of the current
sequence, or a fragment behind it. -/
def AffectsState (verificationSeq configSeq : ConfigSequence) (isBAF : Bool) : Prop :=
  configSeq = verificationSeq ∨ (isBAF ∧ configSeq < verificationSeq)

variable {L c} {verificationSeq : ConfigSequence} {proposalNum : DecisionNum}

theorem verifyProposalRequest_eq_ok {rawReq reqInfo} :
    c.verifyProposalRequest L verificationSeq proposalNum rawReq = .ok reqInfo ↔
      reqInfo = requestID W rawReq ∧ ∃ ce configSeq isBAF,
        ControlEvent.fromBytes W rawReq = .ok ce ∧ eventConfigSeq W ce = .ok (configSeq, isBAF) ∧
          (AffectsState verificationSeq configSeq isBAF → c.verifyEvent L proposalNum ce = .ok ()) := by
  simp only [verifyProposalRequest, getReqConfigSeq, verifyControlEvent, bind_eq_ok, wrap_eq_ok]
  constructor
  · rintro ⟨⟨configSeq, isBAF⟩, ⟨ce, hce, hseq⟩, h⟩
    split at h
    · rename_i haffects
      obtain ⟨⟨reqID, ce'⟩, ⟨ce'', hce'', _, hverify, hret⟩, hinfo⟩ := by
        simpa only [bind_eq_ok, wrap_eq_ok] using h
      obtain rfl : ce = ce'' := Except.ok.inj (hce.symm.trans hce'')
      cases hret
      cases hinfo
      exact ⟨rfl, ce, configSeq, isBAF, hce, hseq, fun _ => hverify⟩
    · rename_i hnot
      cases h
      exact ⟨rfl, ce, configSeq, isBAF, hce, hseq, fun haffects => absurd haffects hnot⟩
  · rintro ⟨rfl, ce, configSeq, isBAF, hce, hseq, hverify⟩
    refine ⟨(configSeq, isBAF), ⟨ce, hce, hseq⟩, ?_⟩
    split
    · rename_i haffects
      simp [hce, hverify haffects]
    · rfl

/-- **What it takes for a payload to pass**: every request decodes to an event with a config sequence,
and is verified if it affects the state. -/
theorem verifyProposalRequests_eq_ok {requests reqInfos} :
    c.verifyProposalRequests L requests verificationSeq proposalNum = .ok reqInfos ↔
      reqInfos = requests.map (requestID W) ∧ ∀ req ∈ requests, ∃ ce configSeq isBAF,
        ControlEvent.fromBytes W req = .ok ce ∧ eventConfigSeq W ce = .ok (configSeq, isBAF) ∧
          (AffectsState verificationSeq configSeq isBAF → c.verifyEvent L proposalNum ce = .ok ()) := by
  rw [verifyProposalRequests, mapEach_eq_ok]
  simp only [verifyProposalRequest_eq_ok]
  induction requests generalizing reqInfos with
  | nil => simp
  | cons req requests ih =>
    rw [forall₂_cons_left_iff]
    simp only [ih, map_cons, forall_mem_cons]
    constructor
    · rintro ⟨_, _, ⟨rfl, hreq⟩, ⟨rfl, hrest⟩, rfl⟩
      exact ⟨rfl, hreq, hrest⟩
    · rintro ⟨rfl, hreq, hrest⟩
      exact ⟨_, _, ⟨rfl, hreq⟩, ⟨rfl, hrest⟩, rfl⟩

/-! ## When verifying a request can panic -/

/-- The verification of a request of a proposal gets to the rules of a new config: those of `r`. -/
structure ReachesRules (W : Wire) (c : Consensus) (req : Bytes) (r : ConfigRequest) : Prop where
  decodes : ControlEvent.fromBytes W req = .ok (.configRequest r)
  verified : eventConfigSeq W (.configRequest r) = .ok (c.verificationSequence, false)
  configSequence : r.configSequence W = .ok (c.verificationSequence + 1)
  valid : c.config.validateConfigRequest W r.envelope = .ok ()

theorem noPanic_verifyConfigRequest_iff {r : ConfigRequest} : (c.verifyConfigRequest L r).NoPanic ↔
    (r.configSequence W = .ok (c.verificationSequence + 1) → c.config.validateConfigRequest W r.envelope = .ok () →
      (L.validateNewConfig r.envelope c.partyID).NoPanic) := by
  have hrequest : (c.config.validateConfigRequest W r.envelope).NoPanic := by
    simp [NodeConfig.validateConfigRequest]
  simp only [verifyConfigRequest, noPanic_bind_iff, noPanic_wrap_iff, wrap_eq_ok,
    ConfigRequest.configSequence_noPanic, noPanic_require, require_eq_ok, hrequest,
    noPanic_ofExcept, implies_true, true_and, and_true]
  constructor
  · exact fun h hseq hvalid => h _ hseq () rfl () hvalid
  · rintro h seq hseq _ rfl _ hvalid
    exact h hseq hvalid

/-- Verifying an event that is no config request cannot panic. -/
theorem verifyEvent_noPanic {ce : ControlEvent} (hce : ∀ r, ce ≠ .configRequest r) :
    (c.verifyEvent L proposalNum ce).NoPanic := by
  have hsig : ∀ id msg sig, (c.verifySig id msg sig).NoPanic := fun _ _ _ =>
    noPanic_ofExcept _
  cases ce with
  | baf baf =>
    have hprimary : (c.verifyPrimarySignature W baf).NoPanic := by
      unfold verifyPrimarySignature
      split
      · simp [hsig]
      · exact noPanic_ok _
    simp [verifyEvent, verifyBAF, hprimary, hsig]
  | complaint => simp [verifyEvent, verifyComplaint, hsig]
  | configRequest r => exact absurd rfl (hce r)
  | assemblerReport report =>
    have hnum : (verifyReportDecisionNum c.storage report proposalNum).NoPanic := by
      unfold verifyReportDecisionNum
      split
      · split
        · exact noPanic_fail _
        · simp
      · simp
    simp [verifyEvent, verifyAssemblerReport, hnum, hsig]

theorem eventConfigSeq_noPanic (ce : ControlEvent) : (eventConfigSeq W ce).NoPanic := by
  cases ce with
  | baf | complaint | assemblerReport => exact noPanic_ok _
  | configRequest r =>
    refine noPanic_bind_iff.mpr ⟨ConfigRequest.configSequence_noPanic W r, fun seq _ => ?_⟩
    split <;> exact noPanic_ok _

/-- A config request is no fragment. -/
theorem eventConfigSeq_configRequest {r : ConfigRequest} {configSeq isBAF}
    (h : eventConfigSeq W (.configRequest r) = .ok (configSeq, isBAF)) : isBAF = false := by
  obtain ⟨seq, -, hret⟩ := bind_eq_ok.mp h
  split at hret
  all_goals
    cases hret
    rfl

/-- **Verifying a request of a proposal cannot panic** iff the rules of a new config, where it gets to them, do not. -/
theorem noPanic_verifyProposalRequest_iff {req} :
    (c.verifyProposalRequest L c.verificationSequence proposalNum req).NoPanic ↔
      ∀ r, ReachesRules W c req r → (L.validateNewConfig r.envelope c.partyID).NoPanic := by
  have hget : (getReqConfigSeq W req).NoPanic :=
    noPanic_bind_iff.mpr ⟨ControlEvent.fromBytes_noPanic W req, fun ce _ => eventConfigSeq_noPanic ce⟩
  rw [verifyProposalRequest, noPanic_bind_iff, and_iff_right (noPanic_wrap_iff.mpr hget)]
  constructor
  · rintro h r ⟨hce, hverified, hseq, hvalid⟩
    have hreq := h (c.verificationSequence, false) (wrap_eq_ok.mpr (by rw [getReqConfigSeq, hce]; exact hverified))
    dsimp only at hreq
    rw [if_pos (Or.inl rfl), noPanic_bind_iff, noPanic_wrap_iff, verifyControlEvent, hce,
      ok_bind, noPanic_bind_iff] at hreq
    exact noPanic_verifyConfigRequest_iff.mp hreq.1.1 hseq hvalid
  · rintro h ⟨configSeq, isBAF⟩ hfound
    rw [wrap_eq_ok, getReqConfigSeq, bind_eq_ok] at hfound
    obtain ⟨ce, hce, hseq⟩ := hfound
    dsimp only
    split
    · next hverified =>
      have hevent : (c.verifyEvent L proposalNum ce).NoPanic := by
        by_cases hconfig : ∃ r, ce = .configRequest r
        · obtain ⟨r, rfl⟩ := hconfig
          cases eventConfigSeq_configRequest hseq
          obtain rfl : configSeq = c.verificationSequence := by simpa using hverified
          exact noPanic_verifyConfigRequest_iff.mpr fun hr hv => h r ⟨hce, hseq, hr, hv⟩
        · exact verifyEvent_noPanic fun r hr => hconfig ⟨r, hr⟩
      simp [verifyControlEvent, hce, hevent]
    · exact noPanic_ok _

end Consensus

end Arma
