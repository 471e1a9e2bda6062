import Arma.Consensus.History

/-!
# Fragments of a digest that was ordered

A decision removes from the pending fragments those of the batches that it decides, by `<shard, primary, seq>`; the
BADB, which keeps later fragments out, goes by the digest alone. A digest can occur in two batches, for example when a
new primary batches the requests of the old one again. The fragments of the second batch then stay pending: their digest
is in the BADB, so no further fragment joins them.

* `Delivered.pendingUnordered_iff`: after a decision no pending fragment is of an ordered digest iff the decision
  decides the batches of a digest together (`DigestsTogether`), given that it was so before.
* **`Meeting.pending_unordered`**: so it is in the runs whose decisions all do.
* `ordered_digest_pending`: a decision that does not.
-/

namespace Arma

open Arma.Lib List

def Consensus.PendingUnordered (c : Consensus) : Prop := ∀ b ∈ c.state.pending, b.digest ∉ c.badb

/-- Of the fragments `l`, those of a digest with a threshold of votes in some batch are all of batches with a digest
that has a threshold of votes. -/
def DigestsTogether (threshold : Nat) (l : List BAF) : Prop :=
  ∀ b ∈ l, ∀ b' ∈ l, b'.digest = b.digest → threshold ≤ votes l (batchKeyOf b') b'.digest →
    ∃ b'' ∈ l, batchKeyOf b'' = batchKeyOf b ∧ threshold ≤ votes l (batchKeyOf b) b''.digest

/-- The decision on these requests decides the batches of a digest together. The fragments are those pending at the
config sequence, and the fresh ones among the requests whose digest is not in the BADB. -/
def DecidesTogether (W : Wire) : PayloadCondition := fun c requests =>
  ∀ ces, requestsToControlEvents W requests = .ok ces → DigestsTogether c.state.threshold.toNat
      (c.state.roundFragments c.verificationSequence (pruneKnown c.badb ces))

/-! ## One round -/

section Round

variable {W : Wire} {badb : List Bytes} {s s' : State} {configSeq : ConfigSequence} {requests : BatchedRequests}
  {ces : List ControlEvent} {attestations : List (List BAF)} {configRequests : List ConfigRequest}

section

variable (hces : requestsToControlEvents W requests = .ok ces)
  (hsim : simulateStateTransition W badb s configSeq requests = .ok (s', attestations, configRequests))
include hces hsim

/-- The digests that a round orders, and the fragments that it leaves, read off the fragments that it counts. -/
theorem simulateStateTransition_ordered :
    let l := s.roundFragments configSeq (pruneKnown badb ces)
    (∀ d, d ∈ (firstFragments attestations).map (·.digest) ↔
      ∃ b ∈ l, b.digest = d ∧ s.threshold.toNat ≤ votes l (batchKeyOf b) b.digest) ∧
    ∀ b, b ∈ s'.pending ↔ b ∈ l ∧ ∀ b' ∈ l, batchKeyOf b' = batchKeyOf b →
      votes l (batchKeyOf b) b'.digest < s.threshold.toNat := by
  obtain ⟨ces', extracted, hces', hp, rfl⟩ := simulateStateTransition_eq_ok.mp hsim
  cases hces.symm.trans hces'
  obtain ⟨hs', rfl, -⟩ := State.process_frame hp
  have hl : (s.collected W configSeq (pruneKnown badb ces)).pending =
    s.roundFragments configSeq (pruneKnown badb ces) := State.collected_pending _ _ _ _
  have hthreshold := State.collected_threshold W configSeq (pruneKnown badb ces) s
  intro l
  constructor
  · intro d
    rw [mem_digests_firstFragments]
    simp only [State.mem_extracted, hl, hthreshold]
    constructor
    · rintro ⟨b, ⟨hb, hvotes⟩, hd⟩
      exact ⟨b, hb, hd, hvotes⟩
    · rintro ⟨b, hb, hd, hvotes⟩
      exact ⟨b, ⟨hb, hvotes⟩, hd⟩
  · intro b
    rw [hs']
    have hmem := @State.mem_extract_pending (s.collected W configSeq (pruneKnown badb ces)) b
    rwa [hl, hthreshold] at hmem

/-- **What a round leaves** is of digests that it does not order iff it decides the batches of a digest together. -/
theorem unordered_iff_together : (∀ b ∈ s'.pending, b.digest ∉ (firstFragments attestations).map (·.digest)) ↔
      DigestsTogether s.threshold.toNat (s.roundFragments configSeq (pruneKnown badb ces)) := by
  obtain ⟨hordered, hleft⟩ := simulateStateTransition_ordered hces hsim
  set l := s.roundFragments configSeq (pruneKnown badb ces)
  constructor
  · intro h b hb b' hb' hdigest hvotes
    by_contra hnone
    push Not at hnone
    refine h b ((hleft b).mpr ⟨hb, hnone⟩) ((hordered _).mpr ⟨b', hb', hdigest, hvotes⟩)
  · intro h b hb hmem
    obtain ⟨hbl, hundecided⟩ := (hleft b).mp hb
    obtain ⟨b', hb', hdigest, hvotes⟩ := (hordered _).mp hmem
    obtain ⟨b'', hb'', hkey, hdecided⟩ := h b hbl b' hb' hdigest hvotes
    exact absurd (hundecided b'' hb'' hkey) (not_lt.mpr hdecided)

end

end Round

/-! ## One decision -/

section Decision

variable {W : Wire} {L : ConfigLib W} {c c' : Consensus} {p : Proposal} {requests : BatchedRequests} {r : Computed}
  {num : DecisionNum} {signatures : List Signature}

/-- **One decision**: if no pending fragment was of an ordered digest before it, then none is after it iff it decides
the batches of a digest together. -/
theorem Delivered.pendingUnordered_iff (hc : c.PendingUnordered) (hr : c.Computes L requests r)
    (hd : Delivered L c p (r.header W c num) (r.nextState W c num) signatures c') :
    c'.PendingUnordered ↔ DecidesTogether W c requests := by
  obtain ⟨s, attestations, hsim, happly, -, hfragments⟩ := hr
  obtain ⟨ces, extracted, hces, hp, -⟩ := simulateStateTransition_eq_ok.mp hsim
  have hpending : c'.state.pending = s.pending := by
    rw [hd.state, Computed.nextState, setAppContext_pending, (applyConfigRequests_frame happly).1]
  have hbadb : c'.badb = c.badb ++ (firstFragments attestations).map (·.digest) := by
    rw [hd.badb, hd.digestsOf_eq, hfragments]
    rfl
  -- what was counted is not of a digest that was known before
  have hnew : ∀ b ∈ s.pending, b.digest ∉ c.badb := by
    intro b hb
    rw [(simulateStateTransition_ordered hces hsim).2] at hb
    rcases (State.mem_roundFragments hb.1).2 with hold | hin
    · exact hc b hold
    · exact digest_not_mem_of_incoming hin
  have htogether : DecidesTogether W c requests ↔ DigestsTogether c.state.threshold.toNat
      (c.state.roundFragments c.verificationSequence (pruneKnown c.badb ces)) := by
    constructor
    · exact fun h => h ces hces
    · intro h ces' hces'
      cases hces.symm.trans hces'
      exact h
  rw [htogether, ← unordered_iff_together hces hsim]
  unfold Consensus.PendingUnordered
  rw [hpending, hbadb]
  refine forall₂_congr fun b hb => ?_
  rw [mem_append, not_or]
  exact and_iff_right (hnew b hb)

end Decision

/-! ## The runs -/

section Runs

variable {W : Wire} {L : ConfigLib W} {Q : PayloadCondition} {c : Consensus}

/-- **No pending fragment is of an ordered digest** in the runs whose decisions decide the batches of a digest
together. -/
theorem Meeting.pending_unordered (h : Meeting L (DecidesTogether W) c) : ∀ b ∈ c.state.pending, b.digest ∉ c.badb := by
  obtain ⟨genesisBlock, log, hrun⟩ := h
  refine hrun.rule (fun _ _ b hb => absurd hb not_mem_nil) fun _ _ hcond hr hhdr hdeliver ih => ?_
  exact ((Consensus.delivered_of_deliver hhdr rfl hdeliver).pendingUnordered_iff ih hr).mpr hcond

end Runs

/-! ## The first decision of a cluster -/

section First

variable {W : Wire} (L : ConfigLib W) (shared : SharedConfig) {bs : List BAF}

section

variable (hseq : ∀ b ∈ bs, b.configSequence = 0)
  (hshard : ∀ b ∈ bs, (termOf (genesisNode W shared).state.shards b.shard).isSome)
include hseq hshard

/-- The first decision on fragments is delivered, and is a run of one decision. -/
theorem meeting_first :
    ∃ r c', (genesisNode W shared).Computes L (fragmentRequests W bs) r ∧ Delivered L (genesisNode W shared)
        (r.proposal W (genesisNode W shared) 1 (firstMetadata W) (fragmentRequests W bs))
        (r.header W (genesisNode W shared) 1) (r.nextState W (genesisNode W shared) 1) [] c' ∧
      ∀ Q : PayloadCondition, Q (genesisNode W shared) (fragmentRequests W bs) → Meeting L Q c' := by
  obtain ⟨r, hr, hrs, -⟩ := computes_genesisNode L shared hseq hshard
  obtain ⟨c', hdeliver, -⟩ := deliver_genesisNode L shared hr hrs []
  have hhdr := hr.deserialize_header (genesisState_wellFormed _ _) 1
  obtain ⟨s, attestations, hsim, -⟩ := id hr
  refine ⟨r, c', hr, Consensus.delivered_of_deliver hhdr rfl hdeliver, fun Q hQ => ?_⟩
  exact ⟨_, _, .decide .start rfl hQ (Consensus.assembleProposal_eq_ok.mpr
    ⟨r, ⟨1⟩, hr, Codec.unmarshal_marshal _ _, rfl⟩) hhdr hsim hdeliver⟩

theorem decidesTogether_first : DecidesTogether W (genesisNode W shared) (fragmentRequests W bs) ↔
      DigestsTogether (genesisNode W shared).state.threshold.toNat bs := by
  have hprune : pruneKnown (genesisNode W shared).badb (bs.map .baf) = bs.map .baf := pruneKnown_nil bs
  have hround : (genesisNode W shared).state.roundFragments (genesisNode W shared).verificationSequence
      (pruneKnown (genesisNode W shared).badb (bs.map .baf)) = bs := by
    rw [hprune]
    exact roundFragments_genesisNode hseq hshard
  constructor
  · intro h
    have hfirst := h _ requestsToControlEvents_fragments
    rwa [hround] at hfirst
  · intro h ces hces
    cases requestsToControlEvents_fragments.symm.trans hces
    rwa [hround]

end

/-- A fragment like `firstBatchBy`, of the first batch of primary 2. -/
def rebatchedBy (signer : PartyID) : BAF := { firstBatchBy signer with primary := 2 }

/-- Two batches of one digest that are decided together. -/
theorem pending_unordered_genesisNode : ∃ c, Meeting fourLib (DecidesTogether refWire) c ∧
      ∀ b ∈ c.state.pending, b.digest ∉ c.badb := by
  obtain ⟨r, c, -, -, hmeeting⟩ := @meeting_first refWire fourLib fourParties
    [firstBatchBy 2, firstBatchBy 3, rebatchedBy 3, rebatchedBy 4] (by decide) (by decide)
  have hrun := hmeeting (DecidesTogether refWire)
    ((decidesTogether_first fourParties (by decide) (by decide)).mpr (by unfold DigestsTogether; decide))
  exact ⟨c, hrun, Meeting.pending_unordered hrun⟩

/-- **A fragment of an ordered digest stays pending**: in the first decision of four parties the digest of a batch of
primary 1 has two votes and is ordered; that of a batch of primary 2, which is the same, has one, and its fragment is
still pending when the digest is in the BADB. -/
theorem ordered_digest_pending : ∃ c, Meeting fourLib anyPayload c ∧ ∃ b ∈ c.state.pending, b.digest ∈ c.badb := by
  obtain ⟨r, c, hr, hd, hmeeting⟩ := @meeting_first refWire fourLib fourParties
    [firstBatchBy 2, firstBatchBy 3, rebatchedBy 4] (by decide) (by decide)
  refine ⟨c, hmeeting _ trivial, ?_⟩
  have hstart : fourNode.PendingUnordered := fun b hb => absurd hb not_mem_nil
  have hnot : ¬ c.PendingUnordered := by
    rw [hd.pendingUnordered_iff hstart hr, decidesTogether_first fourParties (by decide) (by decide)]
    unfold DigestsTogether
    decide
  unfold Consensus.PendingUnordered at hnot
  push Not at hnot
  exact hnot

end First

end Arma
