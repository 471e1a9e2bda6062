import Arma.State.Heights

/-!
# The order of the events of a round

A round whose events come in another order collects the same fragments and stale fragments up to order, complaints
with the same keys and the same heights (`collected_perm`). Of two complaints with one key the first is kept, so the
complaints themselves may differ, in the reason and the signature. What follows in the round looks only at what is the
same: votes are counts (`votes_perm`), a rotation is due for the same shards (`rotationDue_congr`), and whether a
complaint is kept depends on its key.

**`process_of_perm`**: `Process` gives the same result up to the order of fragments and config requests.
-/

namespace Arma

open Arma.Lib

/-- Results of a round that differ at most in the order of fragments and config requests, and in which of several
complaints by one signer about one term is kept. -/
structure SameRound (s s' : State) (extracted extracted' : List BAF)
    (configRequests configRequests' : List ConfigRequest) : Prop where
  shards : s.shards = s'.shards
  assemblerHeights : s.assemblerHeights = s'.assemblerHeights
  durableWatermark : s.durableWatermark = s'.durableWatermark
  pending : s.pending.Perm s'.pending
  staleConfigBAFs : s.staleConfigBAFs.Perm s'.staleConfigBAFs
  extracted : extracted.Perm extracted'
  configRequests : configRequests.Perm configRequests'
  complaints : ∀ key, key ∈ s.complaints.map complaintKeyOf ↔ key ∈ s'.complaints.map complaintKeyOf

/-! ## Votes -/

section Votes

variable {l l' : List BAF} {s s' : State}

theorem votes_perm (h : l.Perm l') (k : BatchKey) (d : Bytes) : votes l k d = votes l' k d := h.countP_eq _

theorem equivocates_perm (h : l.Perm l') (k : BatchKey) : Equivocates l k ↔ Equivocates l' k := by
  unfold Equivocates
  simp only [h.mem_iff]

namespace State

theorem extract_perm (h : s.pending.Perm s'.pending) (hthreshold : s.threshold = s'.threshold) :
    s.extractBatchAttestationsFromPending.1.pending.Perm s'.extractBatchAttestationsFromPending.1.pending ∧
      s.extractBatchAttestationsFromPending.2.Perm s'.extractBatchAttestationsFromPending.2 := by
  have hdecided : ∀ k, k ∈ s.decidedBatches ↔ k ∈ s'.decidedBatches := by
    intro k
    simp only [mem_decidedBatches, h.mem_iff, votes_perm h, hthreshold]
  constructor
  · unfold extractBatchAttestationsFromPending
    simp only [hdecided]
    exact h.filter _
  · rw [extracted_eq, extracted_eq]
    simp only [votes_perm h, hthreshold]
    exact h.filter _

/-- A rotation is due for the same shards if the fragments and the complaint keys are the same. -/
theorem rotationDue_congr (hpending : s.pending.Perm s'.pending) (hthreshold : s.threshold = s'.threshold)
    (hkeys : ∀ key, key ∈ s.complaints.map complaintKeyOf ↔ key ∈ s'.complaints.map complaintKeyOf)
    (st : ShardTerm) : s.RotationDue st ↔ s'.RotationDue st := by
  have hmem : ∀ (t : State) (p : PartyID), p ∈ t.complainers st ↔ (st, p) ∈ t.complaints.map complaintKeyOf := by
    intro t p
    simp [complainers, complaintKeyOf, and_assoc]
  have hcomplainers : s.complainers st = s'.complainers st := by
    ext p
    rw [hmem, hmem, hkeys]
  unfold RotationDue
  simp only [equivocates_perm hpending, hthreshold, hcomplainers]

end State

end Votes

/-! ## The round -/

section Round

variable {W : Wire} {configSeq : ConfigSequence} {ces ces' : List ControlEvent} {s : State}

theorem filterCEs_perm (h : ces.Perm ces') :
    (filterCEsWithDiffConfigSeq W configSeq ces).1.Perm (filterCEsWithDiffConfigSeq W configSeq ces').1 ∧
      (filterCEsWithDiffConfigSeq W configSeq ces).2.Perm (filterCEsWithDiffConfigSeq W configSeq ces').2 :=
  ⟨h.filter _, h.filterMap _⟩

namespace State

theorem collected_staleConfigBAFs :
    (s.collected W configSeq ces).staleConfigBAFs = (filterCEsWithDiffConfigSeq W configSeq ces).2 := by
  unfold collected collectAndDeduplicateEvents collectAssemblerReports
  dsimp only
  rw [foldl_collectEvent_frame]
  rfl

/-- **What a round collects** of events in another order. -/
theorem collected_perm (hs : HeightsSorted s.assemblerHeights) (h : ces.Perm ces') :
    (s.collected W configSeq ces).pending.Perm (s.collected W configSeq ces').pending ∧
      (∀ key, key ∈ (s.collected W configSeq ces).complaints.map complaintKeyOf ↔
        key ∈ (s.collected W configSeq ces').complaints.map complaintKeyOf) ∧
      (s.collected W configSeq ces).assemblerHeights = (s.collected W configSeq ces').assemblerHeights := by
  obtain ⟨hkept, -⟩ := @filterCEs_perm W configSeq _ _ h
  refine ⟨?_, fun key => ?_, ?_⟩
  · rw [collected_pending, collected_pending]
    exact List.Perm.append_left _ (((h.filterMap _).filter _).filter _)
  · rw [mem_collected_complaintKeys, mem_collected_complaintKeys]
    have hincoming : (incomingComplaints configSeq ces).Perm (incomingComplaints configSeq ces') :=
      (h.filterMap _).filter _
    simp only [hincoming.mem_iff]
  · rw [collected_assemblerHeights, collected_assemblerHeights]
    obtain ⟨hsorted, hmap⟩ := collectAssemblerReports_heights (filterCEsWithDiffConfigSeq W configSeq ces).1 hs
    obtain ⟨hsorted', hmap'⟩ := collectAssemblerReports_heights (filterCEsWithDiffConfigSeq W configSeq ces').1 hs
    refine hsorted.eq_of_heightAt hsorted' fun party => ?_
    rw [hmap, hmap']
    -- the reports of a party come in another order, and raising is commutative
    have hreports : (reportsOf party (filterCEsWithDiffConfigSeq W configSeq ces).1).Perm
        (reportsOf party (filterCEsWithDiffConfigSeq W configSeq ces').1) := hkept.filterMap _
    exact hreports.foldl_eq _

theorem mem_keys_filter_term (shards : List ShardTerm) (cs : List Complaint) (key) :
    key ∈ (cs.filter fun c => (termOf shards c.shard).getD 0 ≤ c.term).map complaintKeyOf ↔
      key ∈ cs.map complaintKeyOf ∧ (termOf shards key.1.shard).getD 0 ≤ key.1.term := by
  simp only [List.mem_map, List.mem_filter, decide_eq_true_eq]
  constructor
  · rintro ⟨c, ⟨hc, hle⟩, rfl⟩
    exact ⟨⟨c, hc, rfl⟩, hle⟩
  · rintro ⟨⟨c, hc, rfl⟩, hle⟩
    exact ⟨c, ⟨hc, hle⟩, rfl⟩

/-- **`Process` does not depend on the order of the events.** -/
theorem process_of_perm (hsound : s.Sound) (hs : HeightsSorted s.assemblerHeights) (h : ces.Perm ces') :
    ∃ s₁ s₂ extracted₁ extracted₂ configRequests₁ configRequests₂,
      s.process W configSeq ces = .ok (s₁, extracted₁, configRequests₁) ∧
      s.process W configSeq ces' = .ok (s₂, extracted₂, configRequests₂) ∧
      SameRound s₁ s₂ extracted₁ extracted₂ configRequests₁ configRequests₂ := by
  obtain ⟨r₁, hp₁, hdue₁⟩ := @process_exact W configSeq ces s hsound
  obtain ⟨r₂, hp₂, hdue₂⟩ := @process_exact W configSeq ces' s hsound
  obtain ⟨hpending, hkeys, hheights⟩ := @collected_perm W configSeq _ _ s hs h
  obtain ⟨hkept, hstale⟩ := @filterCEs_perm W configSeq _ _ h
  have hthreshold : (s.collected W configSeq ces).threshold = (s.collected W configSeq ces').threshold := by
    rw [collected_threshold, collected_threshold]
  have hraise : raise r₁ s.shards = raise r₂ s.shards := by
    refine raise_congr fun st hst => ?_
    rw [hdue₁ st hst, hdue₂ st hst]
    exact rotationDue_congr hpending hthreshold hkeys st
  obtain ⟨hleft, hextracted⟩ := extract_perm hpending hthreshold
  refine ⟨_, _, _, _, _, _, hp₁, hp₂, ?_⟩
  exact
    { shards := by
        simp only [updateDurableWatermark_shards]
        exact hraise
      assemblerHeights := by
        simp only [updateDurableWatermark_assemblerHeights]
        exact hheights
      durableWatermark := by
        refine updateDurableWatermark_congr ?_ hheights ?_
        · simp only [collected_n]
        · rw [collected_frame, collected_frame W configSeq ces']
      pending := by
        simp only [updateDurableWatermark_pending]
        exact hleft
      staleConfigBAFs := by
        simp only [updateDurableWatermark_staleConfigBAFs, collected_staleConfigBAFs]
        exact hstale
      extracted := hextracted
      configRequests := hkept.filterMap _
      complaints := by
        intro key
        simp only [updateDurableWatermark_complaints, mem_keys_filter_term, hkeys, hraise] }

end State

end Round

end Arma
