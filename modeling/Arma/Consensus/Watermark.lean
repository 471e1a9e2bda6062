import Arma.Consensus.Accept
import Arma.State.Heights

/-!
# The durable watermark

The heights and the watermark in the runs of a consenter. A round raises them (`State.process_heights`), a config
request drops the heights of the parties that leave (`applyConfigRequests_heights`), and the bound by the decision's
number comes from the verification of the payload: a report of the current config sequence is verified, and then its
decision is below the one that is proposed (`decisionNum_lt_of_kept`).

* `Reachable.heightsInv`: what holds in every run.
* **`Reachable.watermark_sound`**: what one more decision does.
-/

namespace Arma

open Arma.Lib Outcome List

/-! ## Config requests -/

section Config

variable {W : Wire} {L : ConfigLib W} {s s' : State} {configRequests : List ConfigRequest}

/-- The party is in the config that is applied with these requests, if one is applied. -/
def RemainsConfigured (L : ConfigLib W) (configRequests : List ConfigRequest) (party : PartyID) : Prop :=
  ∀ r ∈ configRequests.head?, ∀ sc, L.sharedConfig r.envelope = .ok sc → party ∈ sc.partyIDs

/-- Applying a config keeps the heights of the parties that remain, in order, and the watermark. -/
theorem applyConfigRequests_heights (happly : applyConfigRequests L s configRequests = .ok s') :
    s'.assemblerHeights.Sublist s.assemblerHeights ∧
      (∀ h ∈ s.assemblerHeights, RemainsConfigured L configRequests h.party → h ∈ s'.assemblerHeights) ∧
      s'.durableWatermark = s.durableWatermark := by
  cases configRequests with
  | nil =>
    cases happly
    exact ⟨Sublist.refl _, fun h hh _ => hh, rfl⟩
  | cons configRequest rest =>
    simp only [applyConfigRequests, applyConfigToState, bind_eq_ok, ofExcept_eq_ok] at happly
    obtain ⟨sharedConfig, hshared, hret⟩ := happly
    cases hret
    refine ⟨filter_sublist, fun h hh hremains => ?_, rfl⟩
    have hparty := hremains configRequest rfl sharedConfig hshared
    exact mem_filter.mpr ⟨hh, decide_eq_true hparty⟩

theorem setAppContext_heights (header : Option BlockHeader) :
    (setAppContext W s header).assemblerHeights = s.assemblerHeights ∧
      (setAppContext W s header).durableWatermark = s.durableWatermark := by
  cases header with
  | none | some header => exact ⟨rfl, rfl⟩

end Config

/-! ## Verified reports -/

section Reports

variable {W : Wire} {L : ConfigLib W} {c : Consensus} {proposalNum : DecisionNum}

/-- A report that passes within a proposal is of a decision below the proposed one. -/
theorem decisionNum_lt_of_verifyAssemblerReport {report} (hnum : proposalNum ≠ 0)
    (h : c.verifyAssemblerReport report proposalNum = .ok ()) : report.decisionNum < proposalNum := by
  simp only [Consensus.verifyAssemblerReport, verifyReportDecisionNum, if_neg hnum, bind_eq_ok, require_eq_ok] at h
  obtain ⟨-, -, -, -, -, hlt, -⟩ := h
  exact hlt

/-- **What a round records of a verified payload** is below the proposed decision. -/
theorem decisionNum_lt_of_kept {requests ces badb}
    (hnum : proposalNum ≠ 0) (hces : requestsToControlEvents W requests = .ok ces)
    (hpass : ∀ req ∈ requests, ∃ ce configSeq isBAF, ControlEvent.fromBytes W req = .ok ce ∧
      Consensus.eventConfigSeq W ce = .ok (configSeq, isBAF) ∧
      (Consensus.AffectsState c.verificationSequence configSeq isBAF → c.verifyEvent L proposalNum ce = .ok ()))
    {party num} (h : num ∈ reportsOf party
      (filterCEsWithDiffConfigSeq W c.verificationSequence (pruneKnown badb ces)).1) : num < proposalNum := by
  obtain ⟨r, hr, -, rfl⟩ := mem_reportsOf h
  obtain ⟨hmem, hkeep⟩ := mem_filter.mp hr
  have hseq : r.configSeq = c.verificationSequence := by
    by_contra hne
    simp [filterCE, hne] at hkeep
  have hread : Consensus.eventConfigSeq W (.assemblerReport r) = .ok (c.verificationSequence, false) := by
    rw [← hseq]
    rfl
  exact decisionNum_lt_of_verifyAssemblerReport hnum (verifyEvent_of_mem_pruneKnown hces hpass hmem hread)

end Reports

/-! ## One decision -/

section Decision

variable {W : Wire} {L : ConfigLib W} {P : PayloadCondition} {c c' : Consensus} {p : Proposal}
  {signatures : List Signature} {reconfig : Reconfig}

/-- What holds of the heights and the watermark of a node. -/
structure HeightsInv (c : Consensus) : Prop where
  sorted : HeightsSorted c.state.assemblerHeights
  below : ∀ h ∈ c.state.assemblerHeights, h.decisionNum < c.storage.length
  watermark : c.state.durableWatermark < c.storage.length

/-- What an accepted decision of number `num` does to the heights and the watermark. `s` is the state that the round
computed, before a config was applied. -/
structure HeightsStep (L : ConfigLib W) (c c' : Consensus) (s : State) (configRequests : List ConfigRequest)
    (num : DecisionNum) : Prop where
  sorted : HeightsSorted c'.state.assemblerHeights
  recorded : c'.state.assemblerHeights.Sublist s.assemblerHeights
  never_lower : ∀ h ∈ c.state.assemblerHeights, RemainsConfigured L configRequests h.party →
    ∃ h' ∈ c'.state.assemblerHeights, h'.party = h.party ∧ h.decisionNum ≤ h'.decisionNum
  watermark_le : c.state.durableWatermark ≤ c'.state.durableWatermark
  watermark_lt : c.state.durableWatermark < c'.state.durableWatermark →
    IsGreatest {n | 2 * ((c.state.n.toNat - 1) / 3) + 1 ≤ (partiesAt s.assemblerHeights n).card}
      c'.state.durableWatermark
  heights_below : ∀ h ∈ c'.state.assemblerHeights, h.decisionNum < num
  watermark_below : c'.state.durableWatermark < num

theorem Consensus.Accepted.heightsStep {d r} (hinv : HeightsInv c) (hc : c.state.WellFormed W) (ha : c.Accepted L p d r)
    (hdeliver : c.deliver L p signatures = .ok (c', reconfig)) :
    ∃ s attestations, simulateStateTransition W c.badb c.state c.verificationSequence d.requests =
        .ok (s, attestations, r.configRequests) ∧ HeightsStep L c c' s r.configRequests d.header.num := by
  have hdelivered := ha.delivered hdeliver
  have hnum : d.header.num = c.storage.length := hdelivered.num
  obtain ⟨s, attestations, hsim, happly, -, -⟩ := ha.computes
  refine ⟨s, attestations, hsim, ?_⟩
  obtain ⟨ces, extracted, hces, hp, -⟩ := simulateStateTransition_eq_ok.mp hsim
  obtain ⟨hsorted, hmap, hwatermark⟩ := State.process_heights hc.sound.n_ne_zero hinv.sorted hp
  obtain ⟨hsub, hkept, hsame⟩ := applyConfigRequests_heights happly
  obtain ⟨hheights', hwatermark'⟩ := @setAppContext_heights W r.state
    ((r.plan W c d.header.num).getLast?.map (·.header))
  have hstate : c'.state = r.nextState W c d.header.num := hdelivered.state.trans (ha.state_eq hc)
  have hheights : c'.state.assemblerHeights = r.state.assemblerHeights := by
    rw [hstate]
    exact hheights'
  have hwm : c'.state.durableWatermark = s.durableWatermark := by
    rw [hstate, ← hsame]
    exact hwatermark'
  -- a height that the round recorded was there before or comes with a verified report
  have hbelow : ∀ h ∈ s.assemblerHeights, h.decisionNum < d.header.num := by
    intro h hh
    rw [mem_iff_heightAt hsorted.nodup, hmap] at hh
    rcases mem_of_foldl_raised hh with hold | hnew
    · rw [hnum]
      exact hinv.below h ((mem_iff_heightAt hinv.sorted.nodup).mpr hold)
    · have hne : d.header.num ≠ 0 := by
        have := hinv.watermark
        rw [hnum]
        exact Nat.ne_of_gt (Nat.zero_lt_of_lt this)
      exact decisionNum_lt_of_kept hne hces ha.requests hnew
  refine ⟨?_, ?_, ?_, ?_, ?_, ?_, ?_⟩
  · rw [hheights]
    exact hsorted.sublist hsub
  · rw [hheights]
    exact hsub
  · intro h hh hremains
    rw [mem_iff_heightAt hinv.sorted.nodup] at hh
    obtain ⟨num', hle, hfold⟩ := le_foldl_raised
      (reportsOf h.party (filterCEsWithDiffConfigSeq W c.verificationSequence (pruneKnown c.badb ces)).1) h.decisionNum
    have hmem : (⟨h.party, num'⟩ : AssemblerHeight) ∈ s.assemblerHeights := by
      rw [mem_iff_heightAt hsorted.nodup, hmap, hh, hfold]
    refine ⟨⟨h.party, num'⟩, ?_, rfl, hle⟩
    rw [hheights]
    exact hkept _ hmem hremains
  · rw [hwm]
    rcases hwatermark with heq | ⟨hlt, -⟩
    · exact heq.ge
    · exact hlt.le
  · intro hrise
    rw [hwm] at hrise ⊢
    rcases hwatermark with heq | ⟨-, hgreatest⟩
    · exact absurd heq hrise.ne'
    · exact hgreatest
  · intro h hh
    exact hbelow h (hsub.subset (hheights ▸ hh))
  · rw [hwm]
    rcases hwatermark with heq | ⟨-, hgreatest⟩
    · rw [heq, hnum]
      exact hinv.watermark
    · -- some party has reached the watermark
      have hreached := hgreatest.1
      rw [Set.mem_ofPred_eq, hsorted.card_partiesAt] at hreached
      obtain ⟨h, hh, hle⟩ := countP_pos_iff.mp (Nat.zero_lt_of_lt hreached)
      exact lt_of_le_of_lt (of_decide_eq_true hle) (hbelow h hh)

/-- **In every run** the heights are sorted, and they and the watermark are below the number of stored decisions. -/
theorem Reachable.heightsInv (h : Reachable L P c) : HeightsInv c := by
  induction h with
  | start =>
    exact ⟨Pairwise.nil, fun h hh => absurd hh not_mem_nil, Nat.zero_lt_one⟩
  | deliver hreach _ _ hverify hdeliver _ ih =>
    obtain ⟨d, r, ha, -⟩ := verifyProposal_iff_accepted.mp hverify
    obtain ⟨s, attestations, -, hstep⟩ := ha.heightsStep ih hreach.wellFormed hdeliver
    have hdelivered := ha.delivered hdeliver
    have hlen := congrArg List.length hdelivered.storage
    rw [length_append, length_singleton, ← hdelivered.num] at hlen
    refine ⟨hstep.sorted, fun h hh => ?_, ?_⟩
    · rw [hlen]
      exact Nat.lt_succ_of_lt (hstep.heights_below h hh)
    · rw [hlen]
      exact Nat.lt_succ_of_lt hstep.watermark_below

/-- **The durable watermark is sound and monotone**: in every run the heights are strictly sorted by party, and an
accepted decision never lowers the height of a party that remains configured, never lowers the watermark, raises it
only to the largest height that `2 f + 1` parties have reached, and leaves all of them below its own number. -/
theorem Reachable.watermark_sound (h : Reachable L P c) {reqInfos : List RequestInfo}
    (hverify : c.verifyProposal L p = .ok reqInfos) (hdeliver : c.deliver L p signatures = .ok (c', reconfig)) :
    HeightsSorted c.state.assemblerHeights ∧
    ∃ hdr requests s attestations configRequests, Header.deserialize W p.header = .ok hdr ∧
      BatchedRequests.deserialize (p.payload.getD []) = .ok requests ∧
      simulateStateTransition W c.badb c.state c.verificationSequence requests = .ok (s, attestations, configRequests) ∧
      HeightsStep L c c' s configRequests hdr.num := by
  obtain ⟨d, r, ha, -⟩ := verifyProposal_iff_accepted.mp hverify
  obtain ⟨s, attestations, hsim, hstep⟩ := ha.heightsStep h.heightsInv h.wellFormed hdeliver
  obtain ⟨header, hheader, hhdr⟩ := ha.decodes.header
  obtain ⟨payload, hpayload, hrequests⟩ := ha.decodes.payload
  exact ⟨h.heightsInv.sorted, d.header, d.requests, s, attestations, _, hheader ▸ hhdr,
    by rw [hpayload]; exact hrequests, hsim, hstep⟩

/-- Party 1 reports that it has the genesis decision. -/
def genesisReport : AssemblerDecisionReport := ⟨1, 0, 0, [1]⟩

/-- A wire on which that report is short. -/
abbrev reportWire : Wire := .unary (.assemblerDecisionReport genesisReport.toProto)

abbrev reportLib : ConfigLib reportWire := .permissive reportWire oneParty

def genesisReportRequest : Bytes := (ControlEvent.assemblerReport genesisReport).bytes reportWire

/-- **The first report of an assembler is recorded**: the decision that carries it is accepted and delivered. -/
theorem watermark_sound_genesisNode : ∃ p reqInfos c' reconfig s attestations,
      (genesisNode reportWire oneParty).verifyProposal reportLib p = .ok reqInfos ∧
      (genesisNode reportWire oneParty).deliver reportLib p [] = .ok (c', reconfig) ∧
      simulateStateTransition reportWire [] (genesisNode reportWire oneParty).state 0 [genesisReportRequest] =
        .ok (s, attestations, []) ∧ s.assemblerHeights = [⟨1, 0⟩] ∧
      HeightsStep reportLib (genesisNode reportWire oneParty) c' s [] 1 := by
  have hreach := reachable_genesisNode reportLib anyPayload oneParty (by decide)
  have hread : ControlEvent.fromBytes reportWire genesisReportRequest = .ok (.assemblerReport genesisReport) :=
    ControlEvent.fromBytes_bytes reportWire (show genesisReport.party ≠ 0 by decide)
  have hframed : Framed [genesisReportRequest] :=
    ⟨cons_ne_nil _ _, fun req hreq => mem_singleton.mp hreq ▸
      lt_of_le_of_lt (MsgCodec.length_marshal_short _) (by decide)⟩
  have hpass : RequestsPass reportLib (genesisNode reportWire oneParty) 1 [genesisReportRequest] :=
    ⟨_, Consensus.verifyProposalRequests_eq_ok.mpr ⟨rfl, fun req hreq => mem_singleton.mp hreq ▸
      ⟨_, 0, false, hread, rfl, fun _ => rfl⟩⟩⟩
  have hces : requestsToControlEvents reportWire [genesisReportRequest] = .ok [.assemblerReport genesisReport] :=
    requestsToControlEvents_eq_ok.mpr (.cons hread .nil)
  have hsim := simulateStateTransition_eq_ok.mpr ⟨_, _, hces, (rfl : (genesisNode reportWire oneParty).state.process
    reportWire 0 (pruneKnown [] [.assemblerReport genesisReport]) = .ok (_, _, _)), rfl⟩
  obtain ⟨last, hr⟩ := computes_of_simulate (L := reportLib) hreach.wellFormed hsim rfl
  obtain ⟨c', hdeliver, -⟩ := deliver_genesisNode reportLib oneParty hr rfl []
  obtain ⟨reqInfos, hverify⟩ := (accepted_assembled_iff hreach.wellFormed hframed
    (Codec.unmarshal_marshal _ (⟨1⟩ : ViewMetadata)) hr (SameView.refl _)).mpr hpass
  obtain ⟨-, hdr, requests, s, attestations, configRequests, hhdr, hrequests, hsim', hstep⟩ :=
    Reachable.watermark_sound hreach hverify hdeliver
  cases (BatchedRequests.deserialize_serialize hframed.1 hframed.2).symm.trans hrequests
  cases hsim.symm.trans hsim'
  cases (hr.deserialize_header hreach.wellFormed 1).symm.trans hhdr
  exact ⟨_, reqInfos, c', _, _, _, hverify, hdeliver, hsim, rfl, hstep⟩

end Decision

end Arma
