import Arma.Consensus.Reachable
import Arma.State.Evidence

/-!
# A reference cluster

An instance of everything the model takes as a parameter, so that what is assumed of the parameters is seen
to be consistent and theorems can be applied to a node that exists. `ConfigLib.permissive` reads the same
parties out of every envelope and has no rules, and a `NodeConfig.permissive` accepts every signature.
-/

namespace Arma

open Arma.Lib Outcome List

/-- One party, with a batcher in shard 1. -/
def oneParty : SharedConfig := ⟨[⟨1, [1]⟩], by decide, by decide⟩

/-- Four parties, each with a batcher in shard 1. -/
def fourParties : SharedConfig :=
  ⟨[⟨1, [1]⟩, ⟨2, [1]⟩, ⟨3, [1]⟩, ⟨4, [1]⟩], by decide, by decide⟩

/-- A config that lets everything through. -/
def NodeConfig.permissive (sequence : ConfigSequence) (shared : SharedConfig) : NodeConfig where
  sequence
  shared
  verifySignature _ _ _ := .ok ()
  configRequestRules _ := .ok ()
  validateTransition _ := .ok ()

/-- Configuration libraries without rules, that find the same parties in every envelope. -/
def ConfigLib.permissive (W : Wire) (shared : SharedConfig) : ConfigLib W where
  sharedConfig _ := .ok shared
  checkBFTConfig _ := .ok ()
  newConfigRules _ _ := .ok ()
  nodeConfig envelope := .permissive ((ConfigRequest.configSequence W ⟨envelope⟩).toOption.getD 0) shared
  isRestartRequired _ _ _ := false
  nodeConfig_sequence envelope seq h := by simp [NodeConfig.permissive, h, Except.toOption]
  nodeConfig_shared envelope sc h := Except.ok.inj h

/-- Party 1, started under a permissive config of sequence 0. -/
def genesisNode (W : Wire) (shared : SharedConfig) : Consensus :=
  newConsensus W 1 (.permissive 0 shared) (newBlock 0 [])

theorem reachable_genesisNode {W} (L : ConfigLib W) (P : PayloadCondition)
    (shared : SharedConfig) (h : 1 ∈ shared.partyIDs) : Reachable L P (genesisNode W shared) :=
  .start _ h

/-- A fragment of shard 1, by `signer`, for the first batch of primary 1. -/
def firstBatchBy (signer : PartyID) : BAF where
  shard := 1
  primary := 1
  seq := 0
  digest := [7]
  signer
  signature := []
  primarySignature := [1]
  configSequence := 0
  txCount := 1

/-- The requests of a batch. -/
def twoRequests : BatchedRequests := [[7], [8]]

/-- A wire on which party 1's fragment for the first batch is short. -/
abbrev refWire : Wire := .unary (.baf (firstBatchBy 1).toProto)

abbrev soleNode : Consensus := genesisNode refWire oneParty

abbrev soleLib : ConfigLib refWire := .permissive refWire oneParty

theorem reachable_soleNode : Reachable soleLib anyPayload soleNode := reachable_genesisNode _ _ _ (by decide)

abbrev fourNode : Consensus := genesisNode refWire fourParties

abbrev fourLib : ConfigLib refWire := .permissive refWire fourParties

theorem length_bytes_refWire : ((ControlEvent.baf (firstBatchBy 1)).bytes refWire).length ≤ 1 :=
  MsgCodec.length_marshal_short _

/-! ## A round of fragments -/

section Fragments

variable {W : Wire} {shared : SharedConfig} {bs : List BAF}

def fragmentRequests (W : Wire) (bs : List BAF) : BatchedRequests :=
  bs.map fun b => (ControlEvent.baf b).bytes W

theorem requestsToControlEvents_fragments : requestsToControlEvents W (fragmentRequests W bs) = .ok (bs.map .baf) := by
  rw [requestsToControlEvents_eq_ok, fragmentRequests, forall₂_map_left_iff, forall₂_map_right_iff, forall₂_same]
  exact fun b _ => ControlEvent.fromBytes_bytes W trivial

theorem filterMap_baf?_map (bs : List BAF) : (bs.map ControlEvent.baf).filterMap ControlEvent.baf? = bs := by
  rw [filterMap_map]
  exact filterMap_some

theorem pruneKnown_fragments {badb} (h : ∀ b ∈ bs, b.digest ∉ badb) : pruneKnown badb (bs.map .baf) = bs.map .baf := by
  refine filter_eq_self.mpr fun ce hce => ?_
  obtain ⟨b, hb, rfl⟩ := mem_map.mp hce
  simpa using h b hb

theorem pruneKnown_of_known {badb} (h : ∀ b ∈ bs, b.digest ∈ badb) : pruneKnown badb (bs.map .baf) = [] := by
  refine filter_eq_nil_iff.mpr fun ce hce => ?_
  obtain ⟨b, hb, rfl⟩ := mem_map.mp hce
  simpa using h b hb

theorem extractConfigRequests_fragments (configSeq : ConfigSequence) :
    State.extractConfigRequests (filterCEsWithDiffConfigSeq W configSeq (bs.map .baf)).1 = [] := by
  refine filterMap_eq_nil_iff.mpr fun ce hce => ?_
  obtain ⟨b, -, rfl⟩ := mem_map.mp (mem_filter.mp hce).1
  rfl

/-- With nothing pending, a round counts all fragments of its config sequence and of known shards. -/
theorem collected_pending_fragments {s : State} {configSeq} (hpending : s.pending = [])
    (hseq : ∀ b ∈ bs, b.configSequence = configSeq) (hshard : ∀ b ∈ bs, (termOf s.shards b.shard).isSome) :
    (s.collected W configSeq (bs.map .baf)).pending = bs := by
  have hincoming : incoming configSeq (bs.map .baf) = bs := by
    unfold incoming
    rw [filterMap_baf?_map]
    exact filter_eq_self.mpr fun b hb => by simpa using hseq b hb
  rw [State.collected_pending, hincoming, hpending]
  refine filter_eq_self.mpr fun b hb => ?_
  exact decide_eq_true ⟨hshard b hb, not_mem_nil⟩

/-- **A round of fragments** with nothing pending: the groups are made of the fragments with a threshold of votes. -/
theorem simulateStateTransition_fragments {s : State} {badb configSeq}
    (hsound : s.Sound) (hpending : s.pending = []) (hseq : ∀ b ∈ bs, b.configSequence = configSeq)
    (hshard : ∀ b ∈ bs, (termOf s.shards b.shard).isSome) (hnew : ∀ b ∈ bs, b.digest ∉ badb) :
    ∃ s', simulateStateTransition W badb s configSeq (fragmentRequests W bs) =
      .ok (s', aggregateFragments (bs.filter fun b => s.threshold.toNat ≤ votes bs (batchKeyOf b) b.digest), []) := by
  obtain ⟨r, cs, hp, -⟩ := @State.process_eq W configSeq (bs.map .baf) _ hsound
  rw [State.extracted_eq, collected_pending_fragments hpending hseq hshard, State.collected_threshold,
    extractConfigRequests_fragments] at hp
  exact ⟨_, simulateStateTransition_eq_ok.mpr
    ⟨_, _, requestsToControlEvents_fragments, (pruneKnown_fragments hnew).symm ▸ hp, rfl⟩⟩

variable (W shared bs)

theorem pruneKnown_nil : pruneKnown [] (bs.map .baf) = bs.map .baf :=
  pruneKnown_fragments fun _ _ => not_mem_nil

theorem simulateStateTransition_genesisNode (hseq : ∀ b ∈ bs, b.configSequence = 0)
    (hshard : ∀ b ∈ bs, (termOf (genesisNode W shared).state.shards b.shard).isSome) :
    ∃ s', simulateStateTransition W [] (genesisNode W shared).state 0 (fragmentRequests W bs) =
      .ok (s', aggregateFragments (bs.filter fun b =>
        (genesisNode W shared).state.threshold.toNat ≤ votes bs (batchKeyOf b) b.digest), []) :=
  simulateStateTransition_fragments (genesisState_wellFormed _ _ : State.WellFormed W _).sound rfl hseq hshard
    fun _ _ => not_mem_nil

variable {W shared bs}

theorem roundFragments_genesisNode (hseq : ∀ b ∈ bs, b.configSequence = 0)
    (hshard : ∀ b ∈ bs, (termOf (genesisNode W shared).state.shards b.shard).isSome) :
    (genesisNode W shared).state.roundFragments 0 (bs.map .baf) = bs :=
  (State.collected_pending W 0 _ _).symm.trans (collected_pending_fragments rfl hseq hshard)

/-- A permissive config accepts a fragment that carries its primary's signature. -/
theorem verifyEvent_permissive {c : Consensus} (L : ConfigLib W) (num : DecisionNum) {b : BAF}
    (hconfig : c.config = .permissive 0 shared) (hseq : b.configSequence = 0) (hprimary : b.primarySignature ≠ []) :
    c.verifyEvent L num (.baf b) = .ok () := by
  have hle : b.configSequence ≤ c.verificationSequence := by
    rw [hseq, Consensus.verificationSequence, hconfig]
    exact UInt64.le_refl 0
  have hsig : ∀ id msg sig, c.verifySig id msg sig = .ok () := fun _ _ _ => by
    rw [Consensus.verifySig, hconfig]
    rfl
  have hprim : c.verifyPrimarySignature W b = .ok () := by
    unfold Consensus.verifyPrimarySignature
    split
    · simp [hsig, require_true _ hprimary]
    · rfl
  simp [Consensus.verifyEvent, Consensus.verifyBAF, require_true _ hle, hprim, hsig]

theorem verifyProposalRequests_permissive {c : Consensus} (L : ConfigLib W) (num : DecisionNum)
    (hconfig : c.config = .permissive 0 shared) (hseq : ∀ b ∈ bs, b.configSequence = 0)
    (hprimary : ∀ b ∈ bs, b.primarySignature ≠ []) :
    c.verifyProposalRequests L (fragmentRequests W bs) 0 num = .ok ((fragmentRequests W bs).map (requestID W)) := by
  refine Consensus.verifyProposalRequests_eq_ok.mpr ⟨rfl, fun req hreq => ?_⟩
  obtain ⟨b, hb, rfl⟩ := mem_map.mp hreq
  exact ⟨.baf b, b.configSequence, true, ControlEvent.fromBytes_bytes W trivial, rfl, fun _ =>
    verifyEvent_permissive L num hconfig (hseq b hb) (hprimary b hb)⟩

end Fragments

/-! ## The first decision -/

section FirstDecision

variable {W : Wire} (L : ConfigLib W) (shared : SharedConfig) {bs : List BAF}

theorem computes_genesisNode (hseq : ∀ b ∈ bs, b.configSequence = 0)
    (hshard : ∀ b ∈ bs, (termOf (genesisNode W shared).state.shards b.shard).isSome) :
    ∃ r, (genesisNode W shared).Computes L (fragmentRequests W bs) r ∧ r.configRequests = [] ∧
      r.fragments = firstFragments (aggregateFragments (bs.filter fun b =>
        (genesisNode W shared).state.threshold.toNat ≤ votes bs (batchKeyOf b) b.digest)) := by
  obtain ⟨s', hsim⟩ := simulateStateTransition_genesisNode W shared bs hseq hshard
  obtain ⟨last, hr⟩ := @computes_of_simulate W L _ s' (genesisNode W shared) _ _ _ (genesisState_wellFormed _ _)
    hsim rfl
  exact ⟨_, hr, rfl, rfl⟩

/-- The metadata of the view in which decision 1 is proposed. -/
def firstMetadata (W : Wire) : Option Bytes := some (W.viewMetadata.marshal ⟨1⟩)

theorem getLastTxCountFromHeader_plan {c : Consensus} {r : Computed} {num} (hnum : num ≠ 0)
    (hrs : r.configRequests = []) : ∃ txCount, getLastTxCountFromHeader W (r.header W c num) = .ok txCount := by
  have hplan : (r.header W c num).availableCommonBlocks = (planData W num r.count
      c.lastConfigBlockNum 0 (c.chainHead W r.last) r.fragments).map (PlannedBlock.create W) := by
    simp [Computed.header, Computed.plan, hrs, planConfig]
  unfold getLastTxCountFromHeader
  rw [hplan, getLast?_map]
  cases hpb : (planData W num r.count c.lastConfigBlockNum 0 (c.chainHead W r.last) r.fragments).getLast? with
  | none => exact ⟨0, rfl⟩
  | some pb =>
    obtain ⟨b, hb, i, head, rfl⟩ := mem_planData (mem_of_getLast? hpb)
    have hread := @blockOrdering_create W
      ((plannedData W num r.count c.lastConfigBlockNum i head b).create W) c.lastConfigBlockNum
      (batchIDKeyOf b) (head.currentTXCount + b.txCount) ⟨num, r.count, i⟩ _ rfl rfl (.inr hnum)
    simp only [Option.map_some, hread, orPanic_ok, ok_bind]
    exact ⟨_, rfl⟩

/-- **The first decision** of a node on fragments is delivered, whatever previous hash its header has. -/
theorem deliver_first {r : Computed} {p : Proposal} {prevHash} (hhdr : Header.deserialize W p.header =
      .ok { r.header W (genesisNode W shared) 1 with prevHash }) (hrs : r.configRequests = [])
    (signatures : List Signature) :
    ∃ c', (genesisNode W shared).deliver L p signatures = .ok (c', ⟨shared.partyIDs, false⟩) ∧
      c'.status = .running := by
  obtain ⟨txCount, htx⟩ := @getLastTxCountFromHeader_plan W (genesisNode W shared) r 1 Nat.one_ne_zero hrs
  have hdn : (r.header W (genesisNode W shared) 1).num ≠
      (r.header W (genesisNode W shared) 1).decisionNumOfLastConfigBlock := by
    simp only [Computed.header, Consensus.nextDecisionNumOfLastConfigBlock, hrs]
    exact Nat.one_ne_zero
  obtain ⟨c', hdeliver, hstatus, -⟩ := @Consensus.deliver_of_data W L (genesisNode W shared) p _ _ signatures hhdr
    rfl rfl rfl hdn txCount htx
  exact ⟨c', hdeliver, hstatus⟩

theorem deliver_genesisNode {r : Computed} {requests}
    (hr : (genesisNode W shared).Computes L requests r) (hrs : r.configRequests = []) (signatures : List Signature) :
    ∃ c', (genesisNode W shared).deliver L
        (r.proposal W (genesisNode W shared) 1 (firstMetadata W) requests) signatures =
          .ok (c', ⟨shared.partyIDs, false⟩) ∧ c'.status = .running :=
  deliver_first L shared (hr.deserialize_header (genesisState_wellFormed _ _) 1) hrs signatures

end FirstDecision

end Arma
