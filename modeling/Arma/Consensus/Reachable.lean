import Arma.Consensus.Deliver
import Arma.Consensus.Plan

/-!
# The nodes that can be reached

A run of a consenter: it starts from the genesis block, and again and again a leader sends it a proposal, it
accepts the proposal and later delivers the decision on it. Nothing is assumed about the leader: the proposal
is any that `VerifyProposal` accepts. The signatures that come with the decision are arbitrary too. A node
that waits for its administrator has left the run.

`Reachable` takes a condition on the payloads, so that one can speak about the runs in which every
payload meets it.

* `Reachable.sound`: in every run the state is `Sound`, and its app context is the header of a block.
* `verifyProposal_state`: the state a node takes over is the one it computed itself.
-/

namespace Arma

open Arma.Lib Outcome List

/-- A condition on the payload that a node is given. -/
abbrev PayloadCondition := Consensus → BatchedRequests → Prop

/-- **The nodes that can be reached** from genesis by delivering accepted proposals with payloads that
meet `P`. -/
inductive Reachable {W : Wire} (L : ConfigLib W) (P : PayloadCondition) : Consensus → Prop
  | start {partyID config} (genesisBlock : Block) (hin : partyID ∈ config.shared.partyIDs) :
      Reachable L P (newConsensus W partyID config genesisBlock)
  | deliver {c c' p reqInfos signatures reconfig requests}
      (hreach : Reachable L P c) (hrequests : BatchedRequests.deserialize (p.payload.getD []) = .ok requests)
      (hcond : P c requests) (hverify : c.verifyProposal L p = .ok reqInfos)
      (hdeliver : c.deliver L p signatures = .ok (c', reconfig)) (hrunning : c'.status = .running) :
      Reachable L P c'

abbrev anyPayload : PayloadCondition := fun _ _ => True

/-- The state is sound and its app context is the header of a block. -/
structure State.WellFormed (W : Wire) (s : State) : Prop where
  sound : s.Sound
  appContext : ∃ header, s.appContext = W.blockHeader.marshal header

/-! ## The state that is computed -/

section Computed

variable {W : Wire} {L : ConfigLib W} {s s' : State}

theorem applyConfigToState_sound {configRequest} (h : s.Sound)
    (happly : applyConfigToState L s configRequest = .ok s') : s'.Sound := by
  simp only [applyConfigToState, bind_eq_ok, ofExcept_eq_ok] at happly
  obtain ⟨sharedConfig, -, hret⟩ := happly
  cases hret
  have hraise : ∀ st : ShardTerm, st.next.shard = st.shard := fun _ => rfl
  exact
    { distinct := by
        have hmap : ((s.shards.map ShardTerm.next).map (·.shard)) = s.shards.map (·.shard) := by
          simp
        unfold State.retainAssemblerHeights DistinctShards
        dsimp only
        split
        · rw [hmap]
          exact h.distinct
        · exact h.distinct
      n_ne_zero := sharedConfig.ofNat_length_ne_zero
      threshold_eq := rfl
      quorum_eq := rfl
      complaint_term := by
        intro c hc
        obtain ⟨t, ht, hle⟩ := h.complaint_term c hc
        unfold State.retainAssemblerHeights
        dsimp only
        split
        · refine ⟨t + 1, ?_, by omega⟩
          rw [termOf] at ht ⊢
          rw [find?_map]
          simp only [Function.comp_def, hraise, Option.map_map]
          cases hf : s.shards.find? (·.shard = c.shard) with
          | none => simp [hf] at ht
          | some st =>
            simp only [hf, Option.map_some, Option.some.injEq] at ht ⊢
            simp [ht]
        · exact ⟨t, ht, hle⟩
      complaints_nodup := h.complaints_nodup }

theorem applyConfigRequests_sound {configRequests} (h : s.Sound)
    (happly : applyConfigRequests L s configRequests = .ok s') : s'.Sound := by
  cases configRequests with
  | nil =>
    cases happly
    exact h
  | cons configRequest rest => exact applyConfigToState_sound h happly

theorem State.Sound.setAppContext {header} (h : s.Sound) : (setAppContext W s header).Sound := by
  cases header with
  | none => exact h
  | some header =>
    exact ⟨h.distinct, h.n_ne_zero, h.threshold_eq, h.quorum_eq, h.complaint_term, h.complaints_nodup⟩

theorem applyConfigRequests_frame {rs} (happly : applyConfigRequests L s rs = .ok s') :
    s'.pending = s.pending ∧ s'.appContext = s.appContext := by
  cases rs with
  | nil => rw [Except.ok.inj happly]; exact ⟨rfl, rfl⟩
  | cons configRequest rest =>
    simp only [applyConfigRequests, applyConfigToState, bind_eq_ok] at happly
    obtain ⟨sharedConfig, -, hret⟩ := happly
    rw [← Except.ok.inj hret]
    exact ⟨rfl, rfl⟩

theorem setAppContext_pending (header : Option BlockHeader) : (setAppContext W s header).pending = s.pending := by
  cases header <;> rfl

variable {c : Consensus} {requests : BatchedRequests} {r : Computed}

/-- A round from a well-formed state that ends, and whose config can be applied, is computed. -/
theorem computes_of_simulate {attestations configRequests} (hc : c.state.WellFormed W)
    (hsim : simulateStateTransition W c.badb c.state c.verificationSequence requests =
      .ok (s, attestations, configRequests)) (happly : applyConfigRequests L s configRequests = .ok s') :
    ∃ last, c.Computes L requests ⟨s', firstFragments attestations, configRequests, last⟩ := by
  obtain ⟨-, -, -, happ⟩ := simulateStateTransition_frame hsim
  obtain ⟨last, hlast⟩ := hc.appContext
  refine ⟨last, s, attestations, hsim, happly, ?_, rfl⟩
  rw [(applyConfigRequests_frame happly).2, happ, hlast]
  exact Codec.unmarshal_marshal _ _

theorem Consensus.Computes.wellFormed (hc : c.state.WellFormed W) (h : c.Computes L requests r)
    (num : DecisionNum) : (r.nextState W c num).WellFormed W := by
  obtain ⟨s, attestations, hsim, happly, hlast, -⟩ := h
  have hs := simulateStateTransition_sound hc.sound hsim
  obtain ⟨-, -, -, happ⟩ := simulateStateTransition_frame hsim
  have hsound := applyConfigRequests_sound hs happly
  have happ' := (applyConfigRequests_frame happly).2
  refine ⟨hsound.setAppContext, ?_⟩
  unfold Computed.nextState
  cases (r.plan W c num).getLast? with
  | none =>
    obtain ⟨header, hheader⟩ := hc.appContext
    exact ⟨header, by rw [← hheader, ← happ, ← happ']; rfl⟩
  | some pb => exact ⟨pb.header, rfl⟩

theorem Consensus.Computes.unmarshal_last (h : c.Computes L requests r) :
    W.blockHeader.unmarshal c.state.appContext = .ok r.last := by
  obtain ⟨s, attestations, hsim, happly, hlast, -⟩ := h
  obtain ⟨-, -, -, happ⟩ := simulateStateTransition_frame hsim
  rw [← happ, ← (applyConfigRequests_frame happly).2]
  exact hlast

theorem Consensus.Computes.last_eq {header}
    (happ : c.state.appContext = W.blockHeader.marshal header) (h : c.Computes L requests r) : r.last = header := by
  have hlast := h.unmarshal_last
  rw [happ, Codec.unmarshal_marshal] at hlast
  exact (Except.ok.inj hlast).symm

/-- **The header of what was computed survives its serialization.** -/
theorem Consensus.Computes.deserialize_header (hc : c.state.WellFormed W)
    (h : c.Computes L requests r) (num : DecisionNum) :
    Header.deserialize W (some ((r.header W c num).serialize W)) = .ok (r.header W c num) := by
  have hnext := (h.wellFormed hc num).sound
  rw [Header.deserialize_serialize W (r.header W c num) rfl (Or.inl hnext.n_ne_zero), hnext.refresh_eq]
  rfl

end Computed

/-! ## Accepting and delivering -/

section Accepted

variable {W : Wire} {L : ConfigLib W} {c : Consensus} {p : Proposal} {reqInfos : List RequestInfo}

/-- What an accepted proposal decodes to, and what the node computed from its payload. -/
structure Consensus.Accepted (L : ConfigLib W) (c : Consensus) (p : Proposal) (d : Decoded)
    (r : Computed) : Prop where
  decodes : p.Decodes W d
  num : d.md.latestSequence = d.header.num
  verificationSequence : c.verificationSequence = p.verificationSequence.toUInt64
  requests : ∀ req ∈ d.requests, ∃ ce configSeq isBAF,
    ControlEvent.fromBytes W req = .ok ce ∧ Consensus.eventConfigSeq W ce = .ok (configSeq, isBAF) ∧
      (Consensus.AffectsState c.verificationSequence configSeq isBAF → c.verifyEvent L d.header.num ce = .ok ())
  computes : c.Computes L d.requests r
  decisionNumOfLastConfigBlock : d.header.decisionNumOfLastConfigBlock =
    c.nextDecisionNumOfLastConfigBlock r.configRequests d.header.num
  inPlace : InPlace W (r.plan W c d.header.num) d.header.availableCommonBlocks
  state : d.state.serialize W = (r.nextState W c d.header.num).serialize W

/-- **Acceptance**, with everything it takes. -/
theorem verifyProposal_iff_accepted : c.verifyProposal L p = .ok reqInfos ↔
      ∃ d r, c.Accepted L p d r ∧ reqInfos = d.requests.map (requestID W) := by
  rw [Consensus.verifyProposal_eq_ok]
  simp only [Consensus.verifyProposalRequests_eq_ok, Consensus.verifyHeader_eq_ok]
  constructor
  · rintro ⟨d, hd, hnum, hseq, ⟨hinfos, hreqs⟩, r, hr, hdn, hplace, hstate⟩
    rw [hnum] at hdn hplace hstate
    exact ⟨d, r, ⟨hd, hnum, hseq, hreqs, hr, hdn, hplace, hstate⟩, hinfos⟩
  · rintro ⟨d, r, ha, hinfos⟩
    obtain ⟨hd, hnum, hseq, hreqs, hr, hdn, hplace, hstate⟩ := ha
    rw [← hnum] at hdn hplace hstate
    exact ⟨d, hd, hnum, hseq, ⟨hinfos, hnum ▸ hreqs⟩, r, hr, hdn, hplace, hstate⟩

/-- An event that a round reads from a payload that passes was verified, if it is of the node's config sequence. -/
theorem verifyEvent_of_mem_pruneKnown {requests ces badb proposalNum}
    (hces : requestsToControlEvents W requests = .ok ces)
    (hpass : ∀ req ∈ requests, ∃ ce configSeq isBAF, ControlEvent.fromBytes W req = .ok ce ∧
      Consensus.eventConfigSeq W ce = .ok (configSeq, isBAF) ∧
      (Consensus.AffectsState c.verificationSequence configSeq isBAF → c.verifyEvent L proposalNum ce = .ok ()))
    {ce isBAF} (hce : ce ∈ pruneKnown badb ces)
    (hseq : Consensus.eventConfigSeq W ce = .ok (c.verificationSequence, isBAF)) :
    c.verifyEvent L proposalNum ce = .ok () := by
  obtain ⟨req, hreq, hread⟩ := exists_of_mem_mapEach hces (mem_filter.mp hce).1
  obtain ⟨ce', configSeq, isBAF', hread', hseq', hverify⟩ := hpass req hreq
  cases hread.symm.trans hread'
  obtain ⟨hsame, -⟩ := Prod.mk.inj (Except.ok.inj (hseq'.symm.trans hseq))
  exact hverify (.inl hsame)

/-- The state that an accepted proposal carries is the one the node computed. -/
theorem Consensus.Accepted.state_eq {d r} (hc : c.state.WellFormed W)
    (h : c.Accepted L p d r) : d.state = r.nextState W c d.header.num := by
  obtain ⟨raw, -, hheader⟩ := h.decodes.header
  calc d.state = d.state.refresh := (Header.refresh_of_deserialize hheader h.decodes.state).symm
    _ = (r.nextState W c d.header.num).refresh := State.refresh_eq_of_serialize_eq h.state
    _ = r.nextState W c d.header.num := (h.computes.wellFormed hc _).sound.refresh_eq

/-- Delivering an accepted proposal does what `Delivered` says. -/
theorem Consensus.Accepted.delivered {d r c' signatures reconfig} (h : c.Accepted L p d r)
    (hdeliver : c.deliver L p signatures = .ok (c', reconfig)) : Delivered L c p d.header d.state signatures c' := by
  obtain ⟨raw, hraw, hheader⟩ := h.decodes.header
  exact Consensus.delivered_of_deliver (hraw ▸ hheader) h.decodes.state hdeliver

end Accepted

/-! ## What holds of every node that can be reached -/

section Invariant

variable {W : Wire} {L : ConfigLib W} {P : PayloadCondition} {c : Consensus}

theorem genesisState_wellFormed (config : NodeConfig) (genesisBlock : Block) :
    (genesisState W config genesisBlock).WellFormed W := by
  have hlen : config.shared.partyIDs.length = config.shared.parties.length := by
    simp [SharedConfig.partyIDs]
  refine ⟨?_, _, rfl⟩
  exact
    { distinct := by
        have hshards : ((config.shared.extractShards.map fun shard => (⟨shard, 0⟩ : ShardTerm)).map
            (·.shard)) = config.shared.extractShards := by
          rw [map_map]
          exact map_id _
        unfold DistinctShards genesisState initialStateFromConfig
        dsimp only
        rw [hshards]
        exact config.shared.nodup_extractShards
      n_ne_zero := by
        unfold genesisState initialStateFromConfig
        dsimp only
        rw [hlen]
        exact config.shared.ofNat_length_ne_zero
      threshold_eq := rfl
      quorum_eq := rfl
      complaint_term := fun c hc => absurd hc (not_mem_nil)
      complaints_nodup := nodup_nil }

theorem Reachable.wellFormed (h : Reachable L P c) : c.state.WellFormed W := by
  induction h with
  | start genesisBlock => exact genesisState_wellFormed _ genesisBlock
  | deliver _ _ _ hverify hdeliver _ ih =>
    obtain ⟨d, r, ha, -⟩ := verifyProposal_iff_accepted.mp hverify
    rw [(ha.delivered hdeliver).state, ha.state_eq ih]
    exact ha.computes.wellFormed ih _

theorem Reachable.sound (h : Reachable L P c) : c.state.Sound := h.wellFormed.sound

end Invariant

end Arma
