import Arma.Consensus.Reference

/-!
# What a leader assembles, the followers accept

`AssembleProposal` and `VerifyProposal` are two walks over one plan, so the proposal of an honest leader is
accepted by every node that has the same bookkeeping, provided its requests pass. A request need not be
verified if it is of a config sequence that `Process` ignores; and here the two walks part.
`getReqConfigSeq` gives the config sequence under which a request is to be verified, which for a config
request is one less than its own. For a config request of sequence 0 it gives 0 as well: at config
sequence 0 such a request, which `Process` ignores, is verified, and fails.

* `accepted_assembled_iff`: the assembled proposal is accepted iff its requests pass.
* **`Reachable.accepts_assembled`**: it is accepted, unless the config sequence is 0 and there is a config
  request of sequence 0.
-/

namespace Arma

open Arma.Lib Outcome List Consensus ControlEvent

/-- Two nodes with the same state, BADB contents, config and bookkeeping. -/
structure SameView (c v : Consensus) : Prop where
  state : v.state = c.state
  badb : ∀ d, d ∈ v.badb ↔ d ∈ c.badb
  config : v.config = c.config
  lastConfigBlockNum : v.lastConfigBlockNum = c.lastConfigBlockNum
  decisionNumOfLastConfigBlock : v.decisionNumOfLastConfigBlock = c.decisionNumOfLastConfigBlock
  txCount : v.txCount = c.txCount

theorem SameView.refl (c : Consensus) : SameView c c :=
  ⟨rfl, fun _ => Iff.rfl, rfl, rfl, rfl, rfl⟩

/-! ## Two nodes with the same view compute the same -/

section SameView

variable {W : Wire} {L : ConfigLib W} {c v : Consensus} {requests : BatchedRequests} {r : Computed}

theorem pruneKnown_congr {badb badb'} (h : ∀ d, d ∈ badb' ↔ d ∈ badb)
    (ces) : pruneKnown badb' ces = pruneKnown badb ces := by
  refine filter_congr fun ce _ => ?_
  cases ce with
  | baf => simp [h]
  | complaint | configRequest | assemblerReport => rfl

theorem SameView.computes (h : SameView c v) (hr : c.Computes L requests r) : v.Computes L requests r := by
  obtain ⟨s, attestations, hsim, hrest⟩ := hr
  refine ⟨s, attestations, ?_, hrest⟩
  obtain ⟨ces, extracted, hces, hp, hagg⟩ := simulateStateTransition_eq_ok.mp hsim
  refine simulateStateTransition_eq_ok.mpr ⟨ces, extracted, hces, ?_, hagg⟩
  rw [pruneKnown_congr h.badb, h.state, Consensus.verificationSequence, h.config]
  exact hp

theorem SameView.plan (h : SameView c v) (num : DecisionNum) : r.plan W v num = r.plan W c num := by
  simp [Computed.plan, Computed.dataHead, Consensus.chainHead, h.lastConfigBlockNum, h.txCount]

theorem SameView.nextState (h : SameView c v) (num : DecisionNum) : r.nextState W v num = r.nextState W c num := by
  rw [Computed.nextState, h.plan, Computed.nextState]

end SameView

/-! ## The requests decide -/

section Assembled

variable {W : Wire} {L : ConfigLib W} {c v : Consensus} {requests : BatchedRequests} {r : Computed}

/-- The payload passes the verification of its requests. -/
def RequestsPass (L : ConfigLib W) (v : Consensus) (num : DecisionNum) (requests : BatchedRequests) : Prop :=
  ∃ reqInfos, v.verifyProposalRequests L requests v.verificationSequence num = .ok reqInfos

/-- Requests that the framing of a payload can carry: there is one, and each has a length of four bytes.
Requests come in through gRPC, whose messages are shorter. -/
def Framed (requests : BatchedRequests) : Prop :=
  requests ≠ [] ∧ ∀ req ∈ requests, req.length < 2 ^ 32

/-- The proposal of a leader that sends another header along with what was computed. -/
def Computed.forged (W : Wire) (c : Consensus) (r : Computed) (hdr : Header) (metadata : Option Bytes)
    (requests : BatchedRequests) : Proposal :=
  { r.proposal W c hdr.num metadata requests with header := some (hdr.serialize W) }

theorem decodes_forged {metadata md hdr num} (hc : c.state.WellFormed W) (hframed : Framed requests)
    (hmd : W.viewMetadata.unmarshal metadata = .ok md) (hr : c.Computes L requests r)
    (hstate : hdr.state = some (r.nextState W c num)) : (r.forged W c hdr (some metadata) requests).Decodes W
      ⟨requests, hdr, r.nextState W c num, md⟩ where
  payload := ⟨_, rfl, BatchedRequests.deserialize_serialize hframed.1 hframed.2⟩
  header := by
    have hnext := (hr.wellFormed hc num).sound
    refine ⟨_, rfl, ?_⟩
    rw [Header.deserialize_serialize W hdr hstate (Or.inl hnext.n_ne_zero), hnext.refresh_eq, ← hstate]
  metadata := ⟨_, rfl, hmd⟩
  state := hstate

/-- **A forged header is accepted** if it has the number, the last config and the state that were computed,
and matching blocks in the places of the plan. -/
theorem accepted_forged {metadata : Bytes} {md : ViewMetadata} {hdr : Header}
    (hc : c.state.WellFormed W) (hframed : Framed requests)
    (hmd : W.viewMetadata.unmarshal metadata = .ok md) (hr : c.Computes L requests r)
    (hnum : hdr.num = md.latestSequence) (hstate : hdr.state = some (r.nextState W c hdr.num))
    (hdn : hdr.decisionNumOfLastConfigBlock = c.nextDecisionNumOfLastConfigBlock r.configRequests hdr.num)
    (hplace : InPlace W (r.plan W c hdr.num) hdr.availableCommonBlocks)
    (hpass : RequestsPass L c hdr.num requests) :
    ∃ reqInfos, c.verifyProposal L (r.forged W c hdr (some metadata) requests) = .ok reqInfos := by
  obtain ⟨reqInfos, hpass⟩ := hpass
  have hd := decodes_forged hc hframed hmd hr hstate
  have hseq : c.verificationSequence = (c.verificationSequence.toInt64).toUInt64 := by simp
  refine ⟨reqInfos, verifyProposal_eq_ok.mpr ⟨_, hd, hnum.symm, hseq, hpass, ?_⟩⟩
  refine verifyHeader_eq_ok.mpr ⟨r, hr, ?_, ?_, ?_⟩
  · rw [← hnum]; exact hdn
  · rw [← hnum]; exact hplace
  · rw [← hnum]

section

variable {metadata md} (hc : c.state.WellFormed W) (hframed : Framed requests)
  (hmd : W.viewMetadata.unmarshal metadata = .ok md) (hr : c.Computes L requests r)
include hc hframed hmd hr

theorem decodes_proposal : (r.proposal W c md.latestSequence (some metadata) requests).Decodes W
      ⟨requests, r.header W c md.latestSequence, r.nextState W c md.latestSequence, md⟩ :=
  @decodes_forged _ _ _ _ _ _ _ (r.header W c md.latestSequence) _ hc hframed hmd hr rfl

theorem accepted_assembled_iff (hsame : SameView c v) :
    (∃ reqInfos, v.verifyProposal L (r.proposal W c md.latestSequence (some metadata) requests) =
        .ok reqInfos) ↔ RequestsPass L v md.latestSequence requests := by
  have hd := decodes_proposal hc hframed hmd hr
  constructor
  · rintro ⟨reqInfos, hverify⟩
    obtain ⟨d, hd', -, -, hpass, -⟩ := verifyProposal_eq_ok.mp hverify
    obtain rfl := hd.unique hd'
    exact ⟨reqInfos, hpass⟩
  · rintro ⟨reqInfos, hpass⟩
    have hdn : v.nextDecisionNumOfLastConfigBlock r.configRequests md.latestSequence =
        c.nextDecisionNumOfLastConfigBlock r.configRequests md.latestSequence := by
      simp [Consensus.nextDecisionNumOfLastConfigBlock, hsame.decisionNumOfLastConfigBlock]
    have hseq : v.verificationSequence = (c.verificationSequence.toInt64).toUInt64 := by
      simp [Consensus.verificationSequence, hsame.config]
    refine ⟨reqInfos, verifyProposal_eq_ok.mpr ⟨_, hd, rfl, hseq, hpass, ?_⟩⟩
    refine verifyHeader_eq_ok.mpr ⟨r, hsame.computes hr, hdn.symm, ?_, ?_⟩
    · rw [hsame.plan]
      exact inPlace_create r _
    · rw [hsame.nextState]

end

end Assembled

/-! ## Requests that pass or are ignored -/

section Proposable

variable {W : Wire} {L : ConfigLib W} {c v : Consensus} {num : DecisionNum} {requests : BatchedRequests}

/-- The event is of a config sequence that `Process` ignores. A fragment behind the current sequence is
not ignored, it is kept with the stale ones. -/
def IgnoredByProcess (W : Wire) (configSeq : ConfigSequence) : ControlEvent → Prop
  | .baf b => configSeq < b.configSequence
  | .complaint c => c.configSeq ≠ configSeq
  | .assemblerReport r => r.configSeq ≠ configSeq
  | .configRequest r => ∃ seq, r.configSequence W = .ok seq ∧ seq ≠ configSeq + 1

/-- The request passes `verifyProposalCE` at decision `num`, or is of a config sequence that `Process`
ignores. -/
def Proposable (L : ConfigLib W) (v : Consensus) (num : DecisionNum) (req : Bytes) : Prop :=
  ∃ ce, fromBytes W req = .ok ce ∧ (v.verifyEvent L num ce = .ok () ∨ IgnoredByProcess W v.verificationSequence ce)

/-- The config sequence is 0, and there is a config request of sequence 0. -/
def HasInitialConfigRequest (W : Wire) (v : Consensus) (requests : BatchedRequests) : Prop :=
  v.verificationSequence = 0 ∧ ∃ req ∈ requests, ∃ r,
    fromBytes W req = .ok (.configRequest r) ∧ r.configSequence W = .ok 0

theorem verifyConfigRequest_ok {r} (h : v.verifyConfigRequest L r = .ok ()) :
    r.configSequence W = .ok (v.verificationSequence + 1) ∧ ∃ sc, L.sharedConfig r.envelope = .ok sc := by
  simp only [Consensus.verifyConfigRequest, ConfigLib.validateNewConfig, bind_eq_ok,
    wrap_eq_ok, require_eq_ok, ofExcept_eq_ok] at h
  obtain ⟨seq, hseq, _, rfl, _, -, _, ⟨sc, hsc, -⟩, -⟩ := h
  exact ⟨hseq, sc, hsc⟩

/-- A request that passes or is ignored has a config sequence to be verified under. -/
theorem exists_eventConfigSeq {ce}
    (h : v.verifyEvent L num ce = .ok () ∨ IgnoredByProcess W v.verificationSequence ce) :
    ∃ configSeq isBAF, Consensus.eventConfigSeq W ce = .ok (configSeq, isBAF) := by
  cases ce with
  | baf | complaint | assemblerReport => exact ⟨_, _, rfl⟩
  | configRequest r =>
    obtain ⟨seq, hseq⟩ : ∃ seq, r.configSequence W = .ok seq := by
      rcases h with h | ⟨seq, hseq, -⟩
      · exact ⟨_, (verifyConfigRequest_ok h).1⟩
      · exact ⟨seq, hseq⟩
    simp only [Consensus.eventConfigSeq, hseq, ok_bind]
    split <;> exact ⟨_, _, rfl⟩

/-- **An ignored event is not verified**, but for a config request of sequence 0 at config sequence 0. -/
theorem affectsState_of_ignored {configSeq configSeq' isBAF ce} (h : IgnoredByProcess W configSeq ce)
    (hseq : Consensus.eventConfigSeq W ce = .ok (configSeq', isBAF))
    (haffects : Consensus.AffectsState configSeq configSeq' isBAF) :
    configSeq = 0 ∧ ∃ r, ce = .configRequest r ∧ r.configSequence W = .ok 0 := by
  cases ce with
  | baf b =>
    obtain ⟨rfl, rfl⟩ : b.configSequence = configSeq' ∧ true = isBAF := by
      simpa [Consensus.eventConfigSeq] using hseq
    rcases haffects with heq | ⟨-, hlt⟩
    · exact absurd h (heq ▸ UInt64.lt_irrefl _)
    · exact absurd h (UInt64.lt_asymm hlt)
  | complaint c | assemblerReport c =>
    obtain ⟨rfl, rfl⟩ : c.configSeq = configSeq' ∧ false = isBAF := by
      simpa [Consensus.eventConfigSeq] using hseq
    rcases haffects with heq | ⟨hbaf, -⟩
    · exact absurd heq h
    · cases hbaf
  | configRequest r =>
    obtain ⟨seq, hr, hne⟩ := h
    simp only [Consensus.eventConfigSeq, hr, ok_bind] at hseq
    split at hseq
    · rename_i hzero
      obtain ⟨rfl, rfl⟩ : 0 = configSeq' ∧ false = isBAF := by simpa using hseq
      rcases haffects with heq | ⟨hbaf, -⟩
      · exact ⟨heq.symm, r, rfl, hzero ▸ hr⟩
      · cases hbaf
    · obtain ⟨rfl, rfl⟩ : seq - 1 = configSeq' ∧ false = isBAF := by simpa using hseq
      rcases haffects with heq | ⟨hbaf, -⟩
      · exact absurd (by rw [← heq, UInt64.sub_add_cancel]) hne
      · cases hbaf

end Proposable

/-! ## Acceptance -/

section Acceptance

variable {W : Wire} {L : ConfigLib W} {P : PayloadCondition} {c v : Consensus} {num : DecisionNum}
  {requests : BatchedRequests}

/-- **Requests that pass or are ignored make a payload that passes**, unless there is a config request of
sequence 0 at config sequence 0. -/
theorem requestsPass_iff (h : ∀ req ∈ requests, Proposable L v num req) :
    RequestsPass L v num requests ↔ ¬ HasInitialConfigRequest W v requests := by
  unfold RequestsPass
  simp only [verifyProposalRequests_eq_ok]
  constructor
  · rintro ⟨_, -, hall⟩ ⟨hzero, req, hreq, r, hce, hr⟩
    obtain ⟨ce, configSeq, isBAF, hce', hseq, hverify⟩ := hall req hreq
    cases hce.symm.trans hce'
    obtain ⟨rfl, rfl⟩ : 0 = configSeq ∧ false = isBAF := by
      simpa [Consensus.eventConfigSeq, hr] using hseq
    -- the request would have to be of sequence 1
    have hone := (verifyConfigRequest_ok (hverify (Or.inl hzero.symm))).1
    rw [hr, hzero] at hone
    exact absurd (Except.ok.inj hone) (by decide)
  · intro hno
    refine ⟨_, rfl, fun req hreq => ?_⟩
    obtain ⟨ce, hce, hpass⟩ := h req hreq
    obtain ⟨configSeq, isBAF, hseq⟩ := exists_eventConfigSeq hpass
    refine ⟨ce, configSeq, isBAF, hce, hseq, fun haffects => ?_⟩
    rcases hpass with hverify | hignored
    · exact hverify
    · obtain ⟨hzero, r, rfl, hr⟩ := affectsState_of_ignored hignored hseq haffects
      exact absurd ⟨hzero, req, hreq, r, hce, hr⟩ hno

/-- A config request that comes out of a transition was in the payload, and was not ignored. -/
theorem mem_requests_of_configRequests {badb s s' configSeq attestations configRequests r}
    (hsim : simulateStateTransition W badb s configSeq requests =
      .ok (s', attestations, configRequests)) (hr : r ∈ configRequests) :
    ∃ req ∈ requests, fromBytes W req = .ok (.configRequest r) := by
  obtain ⟨ces, extracted, hces, hp, -⟩ := simulateStateTransition_eq_ok.mp hsim
  obtain ⟨-, -, rfl⟩ := State.process_frame hp
  obtain ⟨ce, hce, hcr⟩ := mem_filterMap.mp hr
  have hmem : ce ∈ ces := (mem_filter.mp (mem_filter.mp hce).1).1
  obtain ⟨req, hreq, hread⟩ := exists_of_mem_mapEach hces hmem
  cases ce with
  | configRequest r' =>
    obtain rfl : r' = r := by simpa using hcr
    exact ⟨req, hreq, hread⟩
  | baf | complaint | assemblerReport => simp at hcr

/-- **The leader computes a plan** from requests that pass or are ignored. -/
theorem exists_computes (hc : c.state.WellFormed W) (h : ∀ req ∈ requests, Proposable L c num req) :
    ∃ r, c.Computes L requests r := by
  obtain ⟨ces, hces⟩ : ∃ ces, requestsToControlEvents W requests = .ok ces :=
    exists_mapEach_eq_ok (fun req hreq => by
      obtain ⟨ce, hce, -⟩ := h req hreq
      exact ⟨ce, hce⟩) 0
  obtain ⟨⟨s, attestations, configRequests⟩, hsim⟩ :=
    @simulateStateTransition_eq W c.badb c.state c.verificationSequence requests ces hc.sound hces
  obtain ⟨s', happly⟩ : ∃ s', applyConfigRequests L s configRequests = .ok s' := by
    cases hrs : configRequests with
    | nil => exact ⟨s, rfl⟩
    | cons r rest =>
      subst hrs
      obtain ⟨req, hreq, hread⟩ := mem_requests_of_configRequests hsim (mem_cons_self)
      have hseq := simulateStateTransition_configRequests hsim r mem_cons_self
      obtain ⟨ce, hce, hpass⟩ := h req hreq
      cases hread.symm.trans hce
      rcases hpass with hverify | ⟨seq, hseq', hne⟩
      · obtain ⟨-, sc, hsc⟩ := verifyConfigRequest_ok hverify
        simp [applyConfigRequests, applyConfigToState, hsc]
      · exact absurd (Except.ok.inj (hseq'.symm.trans hseq)) hne
  obtain ⟨last, hr⟩ := computes_of_simulate hc hsim happly
  exact ⟨_, hr⟩

theorem SameView.symm (h : SameView c v) : SameView v c :=
  ⟨h.state.symm, fun d => (h.badb d).symm, h.config.symm, h.lastConfigBlockNum.symm,
    h.decisionNumOfLastConfigBlock.symm, h.txCount.symm⟩

theorem framed_refWire : Framed (fragmentRequests refWire [firstBatchBy 1]) := by
  refine ⟨by simp [fragmentRequests], fun req hreq => ?_⟩
  obtain rfl : req = (baf (firstBatchBy 1)).bytes refWire := by
    simpa [fragmentRequests] using hreq
  exact lt_of_le_of_lt length_bytes_refWire (by decide)

theorem proposable_refWire (L : ConfigLib refWire) : ∀ req ∈ fragmentRequests refWire [firstBatchBy 1],
      Proposable L soleNode 1 req := by
  intro req hreq
  obtain rfl : req = (baf (firstBatchBy 1)).bytes refWire := by
    simpa [fragmentRequests] using hreq
  exact ⟨_, fromBytes_bytes refWire trivial, Or.inl (verifyEvent_permissive L 1 rfl rfl (by decide))⟩

/-- What the reference node computes from the fragment of its one party: one data block. -/
theorem computes_refWire (L : ConfigLib refWire) :
    ∃ r, soleNode.Computes L (fragmentRequests refWire [firstBatchBy 1]) r ∧
      r.configRequests = [] ∧ r.fragments = [firstBatchBy 1] := by
  obtain ⟨r, hr, hrs, hfragments⟩ := @computes_genesisNode refWire L oneParty [firstBatchBy 1] (by decide) (by decide)
  exact ⟨r, hr, hrs, hfragments.trans (by decide)⟩

theorem requestsPass_refWire (L : ConfigLib refWire) :
    RequestsPass L soleNode 1 (fragmentRequests refWire [firstBatchBy 1]) :=
  ⟨_, verifyProposalRequests_permissive _ 1 rfl (by decide) (by decide)⟩

/-- **An honestly assembled proposal is accepted** by every node with the same view, unless the config
sequence is 0 and a config request of sequence 0 is among the requests. -/
theorem Reachable.accepts_assembled (hreach : Reachable L P c) (hsame : SameView c v)
    {metadata : Bytes} {md : ViewMetadata} (hmd : W.viewMetadata.unmarshal metadata = .ok md)
    (hframed : Framed requests) (hrequests : ∀ req ∈ requests, Proposable L v md.latestSequence req) :
    ∃ p, c.assembleProposal L (some metadata) requests = .ok p ∧ ((∃ reqInfos, v.verifyProposal L p = .ok reqInfos) ↔
        ¬ HasInitialConfigRequest W v requests) := by
  have hc := hreach.wellFormed
  obtain ⟨r, hr⟩ := exists_computes (hsame.state ▸ hc) hrequests
  have hr := hsame.symm.computes hr
  refine ⟨r.proposal W c md.latestSequence (some metadata) requests,
    assembleProposal_eq_ok.mpr ⟨r, md, hr, hmd, rfl⟩, ?_⟩
  rw [accepted_assembled_iff hc hframed hmd hr hsame, requestsPass_iff hrequests]

/-- One party's fragment is proposed by the node and accepted by it. -/
theorem accepts_assembled_genesisNode : ∃ p, soleNode.assembleProposal soleLib
        (firstMetadata refWire) (fragmentRequests refWire [firstBatchBy 1]) = .ok p ∧
      ((∃ reqInfos, soleNode.verifyProposal soleLib p = .ok reqInfos) ↔
        ¬ HasInitialConfigRequest refWire soleNode (fragmentRequests refWire [firstBatchBy 1])) :=
  Reachable.accepts_assembled (reachable_genesisNode _ anyPayload oneParty (by decide))
    (SameView.refl _) (Codec.unmarshal_marshal _ (⟨1⟩ : ViewMetadata)) framed_refWire
    (proposable_refWire _)

/-- A config request of sequence 0. -/
def initialConfigRequest (W : Wire) : ConfigRequest :=
  ⟨⟨W.payload.marshal ⟨none, W.configEnvelope.marshal ⟨some 0⟩⟩, []⟩⟩

theorem configSequence_initialConfigRequest : (initialConfigRequest W).configSequence W = .ok 0 := by
  simp [initialConfigRequest, ConfigRequest.configSequence, Wire.unmarshalPayload]

def initialRequest (W : Wire) : Bytes := (configRequest (initialConfigRequest W)).bytes W

def initialWire : Wire :=
  .unary ((configRequest (initialConfigRequest (.unary .unset))).toProto (.unary .unset))

/-- The proposal that a node at genesis assembles from such a request is not accepted by the node
itself. -/
theorem initialRequest_rejected (L : ConfigLib W) (shared : SharedConfig)
    (hin : 1 ∈ shared.partyIDs) (hframed : Framed [initialRequest W]) :
    Proposable L (genesisNode W shared) 1 (initialRequest W) ∧
      ∃ p, (genesisNode W shared).assembleProposal L (firstMetadata W) [initialRequest W] = .ok p ∧
        ¬ ∃ reqInfos, (genesisNode W shared).verifyProposal L p = .ok reqInfos := by
  have hread : fromBytes W (initialRequest W) =
      .ok (.configRequest (initialConfigRequest W)) := fromBytes_bytes W trivial
  have hprop : Proposable L (genesisNode W shared) 1 (initialRequest W) :=
    ⟨_, hread, Or.inr ⟨0, configSequence_initialConfigRequest, show (0 : UInt64) ≠ 0 + 1 by decide⟩⟩
  have hall : ∀ req ∈ [initialRequest W], Proposable L (genesisNode W shared) 1 req := by
    simpa using hprop
  have hwf := (reachable_genesisNode L anyPayload shared hin).wellFormed
  obtain ⟨r, hr⟩ := exists_computes hwf hall
  have hmd : W.viewMetadata.unmarshal (W.viewMetadata.marshal ⟨1⟩) = .ok ⟨1⟩ := Codec.unmarshal_marshal _ _
  refine ⟨hprop, _, assembleProposal_eq_ok.mpr ⟨r, ⟨1⟩, hr, hmd, rfl⟩, fun haccepted => ?_⟩
  have hpass := (accepted_assembled_iff hwf hframed hmd hr (SameView.refl _)).mp haccepted
  exact (requestsPass_iff hall).mp hpass ⟨rfl, _, mem_singleton_self _, _, hread, configSequence_initialConfigRequest⟩

/-- The message of the request does not depend on which control event is short. -/
theorem toProto_initialConfigRequest (short short') :
    (configRequest (initialConfigRequest (.unary short))).toProto (.unary short) =
      (configRequest (initialConfigRequest (.unary short'))).toProto (.unary short') :=
  rfl

theorem length_initialRequest {short}
    (h : (configRequest (initialConfigRequest (.unary short))).toProto (.unary short) =
      short) : (initialRequest (.unary short)).length ≤ 1 := by
  unfold initialRequest bytes
  rw [h]
  exact MsgCodec.length_marshal_short short

theorem framed_initialRequest : Framed [initialRequest initialWire] := by
  refine ⟨by simp, fun req hreq => ?_⟩
  rw [mem_singleton.mp hreq]
  exact lt_of_le_of_lt (length_initialRequest (toProto_initialConfigRequest _ _)) (by decide)

/-- **A config request of sequence 0 stalls the cluster at config sequence 0**: `Process` ignores it, the
leader proposes it, and not even the leader accepts the proposal. -/
theorem initial_config_request_rejected : Reachable (ConfigLib.permissive initialWire oneParty) anyPayload
        (genesisNode initialWire oneParty) ∧ Framed [initialRequest initialWire] ∧
      Proposable (ConfigLib.permissive initialWire oneParty) (genesisNode initialWire oneParty) 1
        (initialRequest initialWire) ∧ ∃ p, (genesisNode initialWire oneParty).assembleProposal
          (ConfigLib.permissive initialWire oneParty) (firstMetadata initialWire) [initialRequest initialWire] = .ok p ∧
        ¬ ∃ reqInfos, (genesisNode initialWire oneParty).verifyProposal
          (ConfigLib.permissive initialWire oneParty) p = .ok reqInfos :=
  ⟨reachable_genesisNode _ _ _ (by decide), framed_initialRequest,
    initialRequest_rejected _ oneParty (by decide) framed_initialRequest⟩

end Acceptance

end Arma
