import Arma.Batcher.Verify
import Arma.Consensus.Rounds
import Arma.Consensus.Verified

/-!
# Who attests the transaction count of a block

A fragment carries the number of requests in its batch, and the block takes it from the first fragment of its group.
The keys by which fragments are deduplicated, counted and grouped leave the number out.

* `Reachable.one_count_iff`: the fragments of every group carry one count iff those that the round counts for a
  digest with a threshold of votes do.
* `first_count_taken`: a primary that signs two counts for its batch chooses the one that is taken. A fragment passes
  only with its primary's signature, and that signature is over the count too.
-/

namespace Arma

open Arma.Lib Outcome List BatcherRole

/-! ## One count in a group -/

section Groups

variable {W : Wire} {L : ConfigLib W} {P : PayloadCondition} {c : Consensus} {requests : BatchedRequests}

/-- The fragments that a round counts for a digest with a threshold of votes carry one transaction count. -/
def State.OneCount (s : State) (configSeq : ConfigSequence) (ces : List ControlEvent) : Prop :=
  ∀ b ∈ s.roundFragments configSeq ces, ∀ b' ∈ s.roundFragments configSeq ces,
    batchKeyOf b' = batchKeyOf b → b'.digest = b.digest →
    s.threshold.toNat ≤ votes (s.roundFragments configSeq ces) (batchKeyOf b) b.digest → b'.txCount = b.txCount

/-- The groups carry one count each iff the pending fragments of the digests with a threshold of votes do. -/
theorem State.uniform_groups_iff {t : State} :
    (∀ g ∈ aggregateFragments t.extractBatchAttestationsFromPending.2, ∀ b ∈ g, ∀ b' ∈ g, b'.txCount = b.txCount) ↔
      ∀ b ∈ t.pending, ∀ b' ∈ t.pending, batchKeyOf b' = batchKeyOf b → b'.digest = b.digest →
        t.threshold.toNat ≤ votes t.pending (batchKeyOf b) b.digest → b'.txCount = b.txCount := by
  constructor
  · intro h b hb b' hb' hk hd hvotes
    have hext : b ∈ t.extractBatchAttestationsFromPending.2 := State.mem_extracted.mpr ⟨hb, hvotes⟩
    have hext' : b' ∈ t.extractBatchAttestationsFromPending.2 := State.mem_extracted.mpr ⟨hb', by rwa [hk, hd]⟩
    refine h _ (mem_aggregateFragments.mpr ⟨b, hext, rfl⟩) b ?_ b' ?_
    · simpa using hext
    · simpa [batchIDKeyOf_eq_iff, hk, hd] using hext'
  · intro h g hg b hb b' hb'
    obtain ⟨b₀, -, rfl⟩ := mem_aggregateFragments.mp hg
    obtain ⟨hext, hkey⟩ := mem_filter.mp hb
    obtain ⟨hext', hkey'⟩ := mem_filter.mp hb'
    obtain ⟨hmem, hvotes⟩ := State.mem_extracted.mp hext
    have hsame : batchIDKeyOf b' = batchIDKeyOf b := (of_decide_eq_true hkey').trans (of_decide_eq_true hkey).symm
    obtain ⟨hk, hd⟩ := batchIDKeyOf_eq_iff.mp hsame
    exact h b hmem b' (State.mem_extracted.mp hext').1 hk hd hvotes

/-- **When the count of a block is attested by a threshold**: on verified requests the transition ends, and the
fragments of each of its groups carry one count iff those that the round counts for a digest with a threshold of
votes do. -/
theorem Reachable.one_count_iff (h : Reachable L P c) {proposalNum : DecisionNum} {reqInfos : List RequestInfo}
    (hpass : c.verifyProposalRequests L requests c.verificationSequence proposalNum = .ok reqInfos) :
    ∃ ces s' attestations configRequests, requestsToControlEvents W requests = .ok ces ∧
      simulateStateTransition W c.badb c.state c.verificationSequence requests =
        .ok (s', attestations, configRequests) ∧ ((∀ g ∈ attestations, ∀ b ∈ g, ∀ b' ∈ g, b'.txCount = b.txCount) ↔
        c.state.OneCount c.verificationSequence (pruneKnown c.badb ces)) := by
  obtain ⟨ces, hces⟩ : ∃ ces, requestsToControlEvents W requests = .ok ces :=
    exists_mapEach_eq_ok (fun req hreq => by
      obtain ⟨ce, hce, -⟩ := Consensus.verifyControlEvent_of_isVerified hpass hreq
      exact ⟨ce, hce⟩) 0
  obtain ⟨r, cs, hp, -, -, -⟩ := @State.process_eq W c.verificationSequence (pruneKnown c.badb ces) c.state h.sound
  refine ⟨ces, _, _, _, hces, simulateStateTransition_eq_ok.mpr ⟨ces, _, hces, hp, rfl⟩, ?_⟩
  rw [State.uniform_groups_iff, State.collected_threshold, State.collected_pending]
  rfl

/-- The fragments of two parties for one batch, with one count. -/
theorem one_count_genesisNode : ∃ s' attestations configRequests, simulateStateTransition refWire [] fourNode.state 0
          (fragmentRequests refWire [firstBatchBy 2, firstBatchBy 3]) = .ok (s', attestations, configRequests) ∧
      ∀ g ∈ attestations, ∀ b ∈ g, ∀ b' ∈ g, b'.txCount = b.txCount := by
  obtain ⟨ces, s', attestations, configRequests, hces, hsim, hiff⟩ := Reachable.one_count_iff
    (reachable_genesisNode fourLib anyPayload fourParties (by decide))
    (@verifyProposalRequests_permissive refWire fourParties [firstBatchBy 2, firstBatchBy 3] _ _ 1 rfl
      (by decide) (by decide))
  refine ⟨s', attestations, configRequests, hsim, hiff.mpr ?_⟩
  cases requestsToControlEvents_fragments.symm.trans hces
  have hround := @roundFragments_genesisNode refWire fourParties [firstBatchBy 2, firstBatchBy 3] (by decide)
    (by decide)
  intro b hb b' hb' _ _ _
  change b ∈ fourNode.state.roundFragments 0 ([firstBatchBy 2, firstBatchBy 3].map .baf) at hb
  change b' ∈ fourNode.state.roundFragments 0 ([firstBatchBy 2, firstBatchBy 3].map .baf) at hb'
  rw [hround] at hb hb'
  have hone : ∀ b ∈ [firstBatchBy 2, firstBatchBy 3], b.txCount = 1 := by decide
  exact (hone b' hb').trans (hone b hb).symm

end Groups

/-! ## Two counts for one batch -/

section Equivocated

variable {W : Wire}

theorem reachable_taggedConsenter (L : ConfigLib W) (P : PayloadCondition) : Reachable L P (taggedConsenter W 0) :=
  @Reachable.start W L P 1 { NodeConfig.permissive 0 fourParties with
    verifySignature := taggedVerify } _ (by decide)

/-- A fragment of a party for the first batch of primary 1, with a count that the primary signed. -/
def countedBy (W : Wire) (signer : PartyID) (txCount : UInt64) : BAF :=
  let b : BAF := { firstBatchBy signer with txCount }
  { b with
    signature := 1 :: b.toBeSigned W
    primarySignature := 1 :: (duplicateBAFSetSigner b 1).toBeSigned W }

theorem verifyEvent_countedBy (L : ConfigLib W) (num : DecisionNum) (signer : PartyID) (txCount : UInt64) :
    (taggedConsenter W 0).verifyEvent L num (.baf (countedBy W signer txCount)) = .ok () := by
  have htagged : ∀ id msg, (taggedConsenter W 0).verifySig id msg (1 :: msg) = .ok () := by
    intro id msg
    exact ofExcept_eq_ok.mpr ((verifiedBy_taggedVerify id msg _).mpr rfl)
  have hprimary : (taggedConsenter W 0).verifyPrimarySignature W (countedBy W signer txCount) = .ok () := by
    unfold Consensus.verifyPrimarySignature
    split
    · have hne : (countedBy W signer txCount).primarySignature ≠ [] := cons_ne_nil _ _
      rw [require_true _ hne, ok_bind]
      exact wrap_eq_ok.mpr (htagged _ _)
    · rfl
  have hle : (countedBy W signer txCount).configSequence ≤
      (taggedConsenter W 0).verificationSequence := UInt64.le_refl 0
  simp only [Consensus.verifyEvent, Consensus.verifyBAF, require_true _ hle, hprimary, ok_bind]
  exact htagged _ _

/-- Party 1's own fragment with its count, and that of party 2. -/
def twoCounts (W : Wire) : List BAF := [countedBy W 1 1000, countedBy W 2 1]

/-- The two fragments are one group, and the block is made for the first of them. -/
theorem computes_twoCounts (L : ConfigLib W) : ∃ s' r, simulateStateTransition W [] (taggedConsenter W 0).state 0
        (fragmentRequests W (twoCounts W)) = .ok (s', [twoCounts W], []) ∧
      (taggedConsenter W 0).Computes L (fragmentRequests W (twoCounts W)) r ∧
      r.fragments.map (·.txCount) = [1000] := by
  obtain ⟨s', hsim⟩ := simulateStateTransition_genesisNode W fourParties (twoCounts W)
    (by simp [twoCounts, countedBy, firstBatchBy]) fun b hb => by
      rcases mem_pair.mp hb with rfl | rfl <;> rfl
  obtain ⟨last, hr⟩ := @computes_of_simulate W L _ s' (taggedConsenter W 0) _ _ _
    (genesisState_wellFormed _ _) hsim rfl
  exact ⟨s', _, hsim, hr, rfl⟩

/-- **A primary chooses the count of its block**: in the first round of four parties, whose threshold is two,
primary 1 signs a count of 1 for the batch that it sends to party 2, and a count of 1000 for its own fragment. Both
fragments pass, they are a group, and the block takes the count of the first. -/
theorem first_count_taken : Reachable fourLib anyPayload (BatcherRole.taggedConsenter refWire 0) ∧
    (∃ reqInfos, (BatcherRole.taggedConsenter refWire 0).verifyProposalRequests
      fourLib (fragmentRequests refWire (twoCounts refWire)) 0 1 = .ok reqInfos) ∧
    ∃ s' r, simulateStateTransition refWire [] (BatcherRole.taggedConsenter refWire 0).state 0
        (fragmentRequests refWire (twoCounts refWire)) =
          .ok (s', [[countedBy refWire 1 1000, countedBy refWire 2 1]], []) ∧
      (BatcherRole.taggedConsenter refWire 0).Computes fourLib
        (fragmentRequests refWire (twoCounts refWire)) r ∧ r.fragments.map (·.txCount) = [1000] := by
  refine ⟨reachable_taggedConsenter _ _, ⟨_, Consensus.verifyProposalRequests_eq_ok.mpr ⟨rfl, ?_⟩⟩, ?_⟩
  · intro req hreq
    obtain ⟨b, hb, rfl⟩ := mem_map.mp hreq
    refine ⟨.baf b, b.configSequence, true, ControlEvent.fromBytes_bytes refWire trivial, rfl, fun _ => ?_⟩
    rcases mem_pair.mp hb with rfl | rfl <;> exact verifyEvent_countedBy _ _ _ _
  · exact computes_twoCounts _

end Equivocated

end Arma
