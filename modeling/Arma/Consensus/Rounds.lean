import Arma.Consensus.Watermark
import Arma.State.Order

/-!
# Rounds of the nodes that can be reached

What `State.Process` does in the runs of a consenter.

* `Reachable.distinct_signers`: a block rests on a threshold of distinct signers in the runs whose payloads
  do not repeat an attestation. `CollectAndDeduplicateEvents` seeds the index of attestations before its loop
  and does not add to it, so a repeated fragment is counted twice (`repeated_fragment_counted_twice`).
* `Reachable.evidence_spent_iff`: equivocation evidence costs one rotation only if the round that brings it also
  decides the batch. Otherwise it stays pending, and every later round rotates again
  (`conflicting_fragments_rotate_again`).
-/

namespace Arma

open Arma.Lib List State

/-! ## Rotation -/

section Rotation

variable {W : Wire} {L : ConfigLib W} {P : PayloadCondition} {c : Consensus}

/-- **The exact condition of a primary rotation**: a round keeps the list of shards and raises a shard's
term by one if a rotation is due, and not at all otherwise. -/
theorem Reachable.process_terms (h : Reachable L P c) (configSeq : ConfigSequence) (ces : List ControlEvent) :
    ∃ s' extracted configRequests, c.state.process W configSeq ces = .ok (s', extracted, configRequests) ∧
      List.Forall₂ (fun st st' => st'.shard = st.shard ∧ st.term ≤ st'.term ∧ st'.term ≤ st.term + 1 ∧
        (st'.term = st.term + 1 ↔ (c.state.collected W configSeq ces).RotationDue st)) c.state.shards s'.shards := by
  obtain ⟨r, cs, hp, hdue, -, -⟩ := @State.process_eq W configSeq ces c.state h.sound
  refine ⟨_, _, _, hp, ?_⟩
  rw [updateDurableWatermark_frame, raise, forall₂_map_right_iff, forall₂_same]
  intro st hst
  rw [← hdue st hst]
  by_cases hr : st.shard ∈ r <;> simp [hr]

/-- Two parties complain about the primary of shard 1: its term goes from 0 to 1. -/
theorem process_terms_genesisNode : ∃ s' extracted configRequests, fourNode.state.process refWire 0
      ([2, 3].map fun signer => .complaint ⟨⟨1, 0⟩, signer, [], "", 0⟩) = .ok (s', extracted, configRequests) ∧
      s'.shards = [⟨1, 1⟩] := by
  obtain ⟨s', extracted, configRequests, hp, hterms⟩ := Reachable.process_terms
    (reachable_genesisNode fourLib anyPayload fourParties (by decide)) 0
    ([2, 3].map fun signer => .complaint ⟨⟨1, 0⟩, signer, [], "", 0⟩)
  refine ⟨s', extracted, configRequests, hp, ?_⟩
  have hshards : fourNode.state.shards = [⟨1, 0⟩] := by decide
  rw [hshards] at hterms
  obtain ⟨st, rest, ⟨hshard, -, -, hterm⟩, hrest, hst⟩ := forall₂_cons_left_iff.mp hterms
  rw [hst, forall₂_nil_left_iff.mp hrest]
  exact congrArg (· :: []) (ShardTerm.ext hshard (hterm.mpr (.inr (by decide))))

end Rotation

/-! ## Evidence -/

section Evidence

variable {W : Wire} {L : ConfigLib W} {P : PayloadCondition} {c : Consensus}

/-- **When evidence costs at most one rotation**: after a round the terms stay as they are, in every run of
rounds of its config sequence that bring no new fragment and no new complaint, iff every equivocated batch
among the round's fragments has a digest with a threshold of votes. -/
theorem Reachable.evidence_spent_iff (h : Reachable L P c) (configSeq : ConfigSequence) (ces : List ControlEvent) :
    ∃ s' extracted configRequests, c.state.process W configSeq ces = .ok (s', extracted, configRequests) ∧
      ((∀ t, State.QuietRun W configSeq s' t → t.shards = s'.shards) ↔ c.state.EvidenceDecided configSeq ces) := by
  obtain ⟨r, cs, hp, -, -, -⟩ := @State.process_eq W configSeq ces c.state h.sound
  exact ⟨_, _, _, hp, (h.sound.shards_quietRun_iff hp).trans (h.sound.settled_iff hp)⟩

/-- A fragment like `firstBatchBy`, of another digest. -/
def otherBatchBy (signer : PartyID) : BAF := { firstBatchBy signer with digest := [8] }

/-- Two digests of a batch, one of them with a threshold of votes: the rotation is the only one. -/
theorem evidence_spent_genesisNode : ∃ s' extracted configRequests, fourNode.state.process refWire 0
        ([firstBatchBy 2, firstBatchBy 3, otherBatchBy 4].map .baf) = .ok (s', extracted, configRequests) ∧
      ∀ t, State.QuietRun refWire 0 s' t → t.shards = s'.shards := by
  obtain ⟨s', extracted, configRequests, hp, hiff⟩ := Reachable.evidence_spent_iff
    (reachable_genesisNode fourLib anyPayload fourParties (by decide)) 0
    ([firstBatchBy 2, firstBatchBy 3, otherBatchBy 4].map .baf)
  refine ⟨s', extracted, configRequests, hp, hiff.mpr ?_⟩
  intro st hst k hk hequiv
  rw [roundFragments_genesisNode (by decide) (by decide)] at hequiv ⊢
  obtain ⟨b, hb, -, -, ⟨rfl, -⟩, -⟩ := hequiv
  have hkey : ∀ b ∈ [firstBatchBy 2, firstBatchBy 3, otherBatchBy 4], batchKeyOf b = ⟨1, 1, 0⟩ := by decide
  rw [hkey b hb]
  exact ⟨firstBatchBy 2, by decide, by decide, by decide⟩

/-- **Conflicting fragments below the threshold rotate again and again**: two secondaries attest two digests of a
batch; the round without any event that follows raises the term once more. -/
theorem conflicting_fragments_rotate_again : Reachable fourLib anyPayload fourNode ∧
    ∃ s' extracted configRequests, fourNode.state.process refWire 0
        ([firstBatchBy 2, otherBatchBy 3].map .baf) = .ok (s', extracted, configRequests) ∧
      ∃ t, State.QuietRun refWire 0 s' t ∧ t.shards ≠ s'.shards := by
  have hreach := reachable_genesisNode fourLib anyPayload fourParties (by decide)
  obtain ⟨r, cs, hp, -, -, -⟩ := @State.process_eq refWire 0 ([firstBatchBy 2, otherBatchBy 3].map .baf)
    fourNode.state hreach.sound
  refine ⟨hreach, _, _, _, hp, ?_⟩
  by_contra hnone
  have hquiet := (hreach.sound.shards_quietRun_iff hp).mp fun t ht =>
    by_contra fun hne => hnone ⟨t, ht, hne⟩
  have hdecided := (hreach.sound.settled_iff hp).mp hquiet
  unfold State.EvidenceDecided at hdecided
  rw [roundFragments_genesisNode (by decide) (by decide)] at hdecided
  have hequiv : Equivocates [firstBatchBy 2, otherBatchBy 3] ⟨1, 1, 0⟩ :=
    ⟨firstBatchBy 2, by decide, otherBatchBy 3, by decide, by decide, by decide, by decide⟩
  obtain ⟨b, hb, -, hle⟩ := hdecided ⟨1, 0⟩ (by decide) ⟨1, 1, 0⟩ rfl hequiv
  revert hle
  revert b
  decide

end Evidence

/-! ## Fragments -/

/-- What a round may do with the fragments that it counts. The extracted ones and those left pending are disjoint
selections, in order; what is in neither selection lost to another digest of its batch. -/
structure Selected (threshold : Nat) (counted extracted pending : List BAF) : Prop where
  disjoint : ∃ p q : BAF → Bool, extracted = counted.filter p ∧ pending = counted.filter q ∧ ∀ b, ¬ (p b ∧ q b)
  lost : ∀ b ∈ counted, b ∉ extracted → b ∉ pending → ∃ b' ∈ counted, batchKeyOf b' = batchKeyOf b ∧
    b'.digest ≠ b.digest ∧ threshold ≤ votes counted (batchKeyOf b) b'.digest
  extracted_votes : ∀ b ∈ extracted, threshold ≤ votes counted (batchKeyOf b) b.digest
  pending_votes : ∀ k d, votes pending k d < threshold

/-- **Extraction selects** from the pending fragments. -/
theorem State.selected_extract {s : State} (hpos : 0 < s.threshold.toNat) :
    Selected s.threshold.toNat s.pending s.extractBatchAttestationsFromPending.2
      s.extractBatchAttestationsFromPending.1.pending where
  disjoint := by
    refine ⟨_, _, rfl, rfl, fun b => ?_⟩
    simp only [decide_eq_true_eq, not_and, not_not]
    exact fun h => h.1
  lost := by
    intro b hb hnot hgone
    rw [mem_extracted] at hnot
    rw [mem_extract_pending] at hgone
    push Not at hgone
    obtain ⟨b', hb', hk, hvotes⟩ := hgone hb
    refine ⟨b', hb', hk, fun heq => hnot ⟨hb, ?_⟩, hvotes⟩
    rwa [← heq]
  extracted_votes b hb := (mem_extracted.mp hb).2
  pending_votes := by
    intro k d
    by_contra hle
    push Not at hle
    obtain ⟨b, hb, rfl, rfl⟩ := votes_pos.mp (hpos.trans_le hle)
    obtain ⟨hmem, hall⟩ := mem_extract_pending.mp hb
    exact absurd (hall b hmem rfl) (not_lt.mpr (hle.trans (votes_filter_le _ _ _ _)))

section Fragments

variable {W : Wire} {L : ConfigLib W} {P : PayloadCondition} {c : Consensus}

/-- **No attestation is lost or invented by a round**: of the fragments that it counts, those already pending at
the config sequence and then the fresh ones among the events, it extracts the ones whose digest has a threshold
of votes, keeps the ones of undecided batches, and drops the rest. -/
theorem Reachable.process_selects (h : Reachable L P c) (configSeq : ConfigSequence) (ces : List ControlEvent) :
    ∃ s' extracted configRequests, c.state.process W configSeq ces = .ok (s', extracted, configRequests) ∧
      Selected c.state.threshold.toNat (c.state.roundFragments configSeq ces) extracted s'.pending := by
  obtain ⟨r, cs, hp, -, -, -⟩ := @State.process_eq W configSeq ces c.state h.sound
  refine ⟨_, _, _, hp, ?_⟩
  have hthreshold := collected_threshold W configSeq ces c.state
  have hselected := selected_extract (s := c.state.collected W configSeq ces) (hthreshold ▸ h.sound.threshold_pos)
  rw [hthreshold, collected_pending] at hselected
  rw [updateDurableWatermark_frame]
  exact hselected

/-- A round of four parties in which one of two digests of a batch has a threshold of votes. -/
theorem process_selects_genesisNode : ∃ s' extracted configRequests, fourNode.state.process refWire 0
        ([firstBatchBy 2, firstBatchBy 3, otherBatchBy 4].map .baf) = .ok (s', extracted, configRequests) ∧
      Selected 2 [firstBatchBy 2, firstBatchBy 3, otherBatchBy 4] extracted s'.pending := by
  obtain ⟨s', extracted, configRequests, hp, hselected⟩ := Reachable.process_selects
    (reachable_genesisNode fourLib anyPayload fourParties (by decide)) 0
    ([firstBatchBy 2, firstBatchBy 3, otherBatchBy 4].map .baf)
  rw [roundFragments_genesisNode (by decide) (by decide)] at hselected
  exact ⟨s', extracted, configRequests, hp, hselected⟩

end Fragments

/-! ## The order of the events -/

section Order

variable {W : Wire} {L : ConfigLib W} {P : PayloadCondition} {c : Consensus}

/-- **The order of the events of a round does not matter**: with the events in another order a round gives the same
terms, heights and watermark, the same pending, stale and extracted fragments and config requests up to their order,
and complaints of the same signers about the same terms. -/
theorem Reachable.process_perm (h : Reachable L P c) (configSeq : ConfigSequence) {ces ces' : List ControlEvent}
    (hperm : ces.Perm ces') : ∃ s₁ s₂ extracted₁ extracted₂ configRequests₁ configRequests₂,
      c.state.process W configSeq ces = .ok (s₁, extracted₁, configRequests₁) ∧
      c.state.process W configSeq ces' = .ok (s₂, extracted₂, configRequests₂) ∧
      SameRound s₁ s₂ extracted₁ extracted₂ configRequests₁ configRequests₂ :=
  process_of_perm h.sound h.heightsInv.sorted hperm

/-- Party 2's complaint about the first term of shard 1. -/
def complaintFor (reason : String) : Complaint := ⟨⟨1, 0⟩, 2, [], reason, 0⟩

/-- Two complaints of one party about one term and a fragment, in two orders. -/
theorem process_perm_genesisNode : ∃ s₁ s₂ extracted₁ extracted₂ configRequests₁ configRequests₂,
      fourNode.state.process refWire 0
        [.complaint (complaintFor "slow"), .complaint (complaintFor "down"), .baf (firstBatchBy 3)] =
          .ok (s₁, extracted₁, configRequests₁) ∧ fourNode.state.process refWire 0
        [.complaint (complaintFor "down"), .complaint (complaintFor "slow"), .baf (firstBatchBy 3)] =
          .ok (s₂, extracted₂, configRequests₂) ∧
      SameRound s₁ s₂ extracted₁ extracted₂ configRequests₁ configRequests₂ :=
  Reachable.process_perm (reachable_genesisNode fourLib anyPayload fourParties (by decide)) 0 (.swap _ _ _)

end Order

/-! ## Distinct signers -/

section Signers

variable {W : Wire} {configSeq : ConfigSequence} {ces : List ControlEvent} {s s' : State}

/-- No party attests one digest of a batch twice. -/
def DistinctAttestations (l : List BAF) : Prop := (l.map attestationKeyOf).Nodup

theorem DistinctAttestations.sublist {l l'} (h : DistinctAttestations l')
    (hsub : l.Sublist l') : DistinctAttestations l := (hsub.map attestationKeyOf).nodup h

theorem State.collected_distinct (h : DistinctAttestations s.pending)
    (hin : DistinctAttestations (incoming configSeq ces)) :
    DistinctAttestations (s.collected W configSeq ces).pending := by
  unfold DistinctAttestations
  rw [collected_pending, map_append, nodup_append]
  refine ⟨h.sublist filter_sublist, hin.sublist filter_sublist, ?_⟩
  intro key hold key' hnew heq
  obtain ⟨b, hb, rfl⟩ := mem_map.mp hnew
  obtain ⟨-, hfresh⟩ := of_decide_eq_true (mem_filter.mp hb).2
  exact hfresh (heq ▸ hold)

/-- The group of an extracted fragment is all that is pending for its batch and digest. -/
theorem group_eq {t : State} {b} (hb : b ∈ t.extractBatchAttestationsFromPending.2) :
    t.extractBatchAttestationsFromPending.2.filter (batchIDKeyOf · = batchIDKeyOf b) =
      t.pending.filter fun b' => batchKeyOf b' = batchKeyOf b ∧ b'.digest = b.digest := by
  obtain ⟨-, hvotes⟩ := mem_extracted.mp hb
  rw [extracted_eq, filter_filter]
  refine filter_congr fun b' _ => ?_
  rw [← Bool.decide_and, decide_eq_decide, batchIDKeyOf_eq_iff]
  constructor
  · exact fun h => h.1
  · rintro ⟨hk, hd⟩
    exact ⟨⟨hk, hd⟩, by rw [hk, hd]; exact hvotes⟩

theorem DistinctAttestations.nodup_signers {l} (h : DistinctAttestations l) (k : BatchKey) (d : Bytes) :
    ((l.filter fun b => batchKeyOf b = k ∧ b.digest = d).map (·.signer)).Nodup := by
  refine Nodup.of_map (fun p => (⟨k, p, d⟩ : AttestationKey)) ?_
  have hkeys : ((l.filter fun b => batchKeyOf b = k ∧ b.digest = d).map (·.signer)).map
      (fun p => (⟨k, p, d⟩ : AttestationKey)) =
      (l.filter fun b => batchKeyOf b = k ∧ b.digest = d).map attestationKeyOf := by
    rw [map_map]
    refine map_congr_left fun b hb => ?_
    obtain ⟨hk, hd⟩ : batchKeyOf b = k ∧ b.digest = d := by simpa using (mem_filter.mp hb).2
    simp [attestationKeyOf, hk, hd]
  rw [hkeys]
  exact h.sublist filter_sublist

def signersOf (g : List BAF) : Finset PartyID := (g.map (·.signer)).toFinset

/-- **The groups of a round without repeated attestations** each have a threshold of signers. -/
theorem threshold_le_card_signersOf {t : State} (h : DistinctAttestations t.pending) {g}
    (hg : g ∈ aggregateFragments t.extractBatchAttestationsFromPending.2) :
    (∃ k, ∀ b ∈ g, batchIDKeyOf b = k) ∧ t.threshold.toNat ≤ (signersOf g).card := by
  obtain ⟨b, hb, rfl⟩ := mem_aggregateFragments.mp hg
  refine ⟨⟨batchIDKeyOf b, fun b' hb' => by simpa using (mem_filter.mp hb').2⟩, ?_⟩
  obtain ⟨-, hvotes⟩ := mem_extracted.mp hb
  rw [group_eq hb, signersOf, toFinset_card_of_nodup (h.nodup_signers _ _), length_map, ← countP_eq_length_filter]
  exact hvotes

/-- The payload has no two fragments by which one party attests one digest of a batch, counting the
fragments that the round collects: those of the current config sequence whose digest is not in the BADB. -/
def NoRepeatedAttestation (W : Wire) : PayloadCondition := fun c requests =>
  ∀ ces, requestsToControlEvents W requests = .ok ces →
    DistinctAttestations (incoming c.verificationSequence (pruneKnown c.badb ces))

variable {L : ConfigLib W} {c : Consensus} {requests : BatchedRequests}
  {attestations : List (List BAF)} {configRequests : List ConfigRequest}

/-- **One round**: with distinct attestations pending and in the payload, the groups are attested by a
threshold of signers and what stays pending is distinct. -/
theorem simulateStateTransition_distinct (hpending : DistinctAttestations c.state.pending)
    (hcond : NoRepeatedAttestation W c requests)
    (hsim : simulateStateTransition W c.badb c.state c.verificationSequence requests =
      .ok (s', attestations, configRequests)) : DistinctAttestations s'.pending ∧ ∀ g ∈ attestations,
      (∃ k, ∀ b ∈ g, batchIDKeyOf b = k) ∧ c.state.threshold.toNat ≤ (signersOf g).card := by
  obtain ⟨ces, extracted, hces, hp, rfl⟩ := simulateStateTransition_eq_ok.mp hsim
  obtain ⟨hs', rfl, -⟩ := process_frame hp
  have hcollected : DistinctAttestations
      (c.state.collected W c.verificationSequence (pruneKnown c.badb ces)).pending :=
    collected_distinct hpending (hcond ces hces)
  constructor
  · rw [hs']
    exact hcollected.sublist filter_sublist
  · intro g hg
    rw [← collected_threshold W c.verificationSequence (pruneKnown c.badb ces) c.state]
    exact threshold_le_card_signersOf hcollected hg

/-- **The runs**: what is pending stays distinct as long as no payload repeats an attestation. -/
theorem Reachable.pending_distinct (h : Reachable L (NoRepeatedAttestation W) c) :
    DistinctAttestations c.state.pending := by
  induction h with
  | start => exact nodup_nil
  | deliver hreach hrequests hcond hverify hdeliver _ ih =>
    obtain ⟨d, r, ha, -⟩ := verifyProposal_iff_accepted.mp hverify
    rw [(ha.delivered hdeliver).state, ha.state_eq hreach.wellFormed]
    obtain ⟨payload, hpayload, hdecode⟩ := ha.decodes.payload
    rw [hpayload] at hrequests
    cases hrequests.symm.trans hdecode
    obtain ⟨s₁, attestations, hsim, happly, -, -⟩ := ha.computes
    rw [Computed.nextState, setAppContext_pending, (applyConfigRequests_frame happly).1]
    exact (simulateStateTransition_distinct ih hcond hsim).1

/-- **A block rests on a threshold of distinct signers** in every run whose payloads do not repeat an
attestation: the fragments of a group are of one batch, and by at least `f + 1` parties. -/
theorem Reachable.distinct_signers (h : Reachable L (NoRepeatedAttestation W) c)
    (hcond : NoRepeatedAttestation W c requests)
    (hsim : simulateStateTransition W c.badb c.state c.verificationSequence requests =
      .ok (s', attestations, configRequests)) :
    c.state.threshold.toNat = (c.state.n.toNat - 1) / 3 + 1 ∧ ∀ g ∈ attestations,
      (∃ k, ∀ b ∈ g, batchIDKeyOf b = k) ∧ c.state.threshold.toNat ≤ (signersOf g).card := by
  refine ⟨?_, (simulateStateTransition_distinct h.pending_distinct hcond hsim).2⟩
  rw [h.sound.threshold_eq, threshold_toNat h.sound.n_ne_zero]

/-- Four parties, and the fragments of two of them for one batch. -/
theorem distinct_signers_genesisNode : ∃ s' attestations configRequests,
      simulateStateTransition refWire [] fourNode.state
          0 (fragmentRequests refWire [firstBatchBy 2, firstBatchBy 3]) = .ok (s', attestations, configRequests) ∧
      ∀ g ∈ attestations, 2 ≤ (signersOf g).card := by
  have hreach := reachable_genesisNode fourLib (NoRepeatedAttestation refWire) fourParties (by decide)
  have hcond : NoRepeatedAttestation refWire fourNode
      (fragmentRequests refWire [firstBatchBy 2, firstBatchBy 3]) := by
    intro ces hces
    cases requestsToControlEvents_fragments.symm.trans hces
    unfold DistinctAttestations
    decide
  obtain ⟨s', hsim⟩ := simulateStateTransition_genesisNode refWire fourParties
    [firstBatchBy 2, firstBatchBy 3] (by decide) (by decide)
  exact ⟨s', _, _, hsim, fun g hg => (hreach.distinct_signers hcond hsim).2 g hg |>.2⟩

/-- **A repeated fragment is counted twice**: in the first round of four parties, whose threshold is two,
a payload with one fragment in it twice passes the verification of its requests and gives a block that rests
on one signer. -/
theorem repeated_fragment_counted_twice : Reachable fourLib anyPayload
        fourNode ∧ (∃ reqInfos, fourNode.verifyProposalRequests
        fourLib
        (fragmentRequests refWire [firstBatchBy 2, firstBatchBy 2]) 0 1 = .ok reqInfos) ∧
      ∃ s' g, simulateStateTransition refWire [] fourNode.state 0
          (fragmentRequests refWire [firstBatchBy 2, firstBatchBy 2]) = .ok (s', [g], []) ∧ (signersOf g).card = 1 ∧
        fourNode.state.threshold.toNat = 2 := by
  refine ⟨reachable_genesisNode _ _ _ (by decide), ⟨_, verifyProposalRequests_permissive _ _ rfl
    (by decide) (by decide)⟩, ?_⟩
  obtain ⟨s', hsim⟩ := simulateStateTransition_genesisNode refWire fourParties
    [firstBatchBy 2, firstBatchBy 2] (by decide) (by decide)
  exact ⟨s', [firstBatchBy 2, firstBatchBy 2], hsim, by decide, by decide⟩

end Signers

end Arma
