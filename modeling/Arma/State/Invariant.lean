import Arma.State.Codec
import Arma.State.Rotation

/-!
# What a round keeps

Two kinds of facts are carried from round to round.

* `Sound`, what the rotation rules rely on: `Sound.process` says that a round keeps it, `Sound.refresh_eq`
  that a serialization round trip changes nothing of a sound state.
* What the pending fragments can hold: `process_frame` gives the fragments of a round that ended,
  whatever the state was. After it no digest that is still pending has a threshold of votes
  (`UnderThreshold`, `process_underThreshold`), and all pending fragments are of the round's config
  sequence (`process_configSequence`).
-/

namespace Arma

open Arma.Lib List

namespace State

variable {W : Wire} {configSeq : ConfigSequence} {ces : List ControlEvent} {s s' : State}
  {extracted : List BAF} {configRequests : List ConfigRequest}

theorem updateDurableWatermark_frame (s : State) : s.updateDurableWatermark =
      { s with durableWatermark := s.updateDurableWatermark.durableWatermark } := by
  unfold updateDurableWatermark
  split
  · rfl
  · dsimp only
    split
    · rfl
    · split
      · split <;> rfl
      · rfl

@[simp] theorem updateDurableWatermark_shards (s : State) : s.updateDurableWatermark.shards = s.shards := by
  rw [updateDurableWatermark_frame]

@[simp] theorem updateDurableWatermark_pending (s : State) : s.updateDurableWatermark.pending = s.pending := by
  rw [updateDurableWatermark_frame]

@[simp] theorem updateDurableWatermark_complaints (s : State) : s.updateDurableWatermark.complaints = s.complaints := by
  rw [updateDurableWatermark_frame]

@[simp] theorem updateDurableWatermark_staleConfigBAFs (s : State) :
    s.updateDurableWatermark.staleConfigBAFs = s.staleConfigBAFs := by
  rw [updateDurableWatermark_frame]

@[simp] theorem updateDurableWatermark_assemblerHeights (s : State) :
    s.updateDurableWatermark.assemblerHeights = s.assemblerHeights := by
  rw [updateDurableWatermark_frame]

/-- **A round that ended**: up to the terms, the complaints and the watermark, the next state is the
collected state without the fragments of decided batches, and what was extracted is what the collected
state says. -/
theorem process_frame (h : s.process W configSeq ces = .ok (s', extracted, configRequests)) :
    s' = { s.collected W configSeq ces with
        shards := s'.shards
        complaints := s'.complaints
        durableWatermark := s'.durableWatermark
        pending := (s.collected W configSeq ces).extractBatchAttestationsFromPending.1.pending } ∧
      extracted = (s.collected W configSeq ces).extractBatchAttestationsFromPending.2 ∧
      configRequests = extractConfigRequests (filterCEsWithDiffConfigSeq W configSeq ces).1 := by
  simp only [process, primaryRotateDueToComplaints, cleanupOldComplaints, Outcome.bind_eq_ok] at h
  obtain ⟨rotated, ⟨⟨shards, cs⟩, -, hrotated⟩, cleaned, ⟨cs', -, hcleaned⟩, hret⟩ := h
  cases hrotated
  cases hcleaned
  have hret := Except.ok.inj hret
  rw [updateDurableWatermark_frame] at hret
  obtain ⟨rfl, hextracted, hrequests⟩ : _ ∧ _ ∧ _ := by simpa using hret
  exact ⟨rfl, hextracted.symm, hrequests.symm⟩

/-! ## Soundness -/

/-- **A round keeps a state sound.** -/
theorem Sound.process (h : s.Sound)
    (hp : s.process W configSeq ces = .ok (s', extracted, configRequests)) : s'.Sound := by
  obtain ⟨r, cs, heq, -, hsub, hterm⟩ := @process_eq W configSeq ces s h
  rw [heq] at hp
  have hret := Except.ok.inj hp
  rw [updateDurableWatermark_frame] at hret
  obtain ⟨rfl, -, -⟩ : _ ∧ _ ∧ _ := by simpa using hret
  exact
    { distinct := by
        rw [DistinctShards, map_shard_raise]
        exact h.distinct
      n_ne_zero := by simpa using h.n_ne_zero
      threshold_eq := by simpa using h.threshold_eq
      quorum_eq := by
        rw [collected_frame]
        exact h.quorum_eq
      complaint_term := by
        intro c hc
        obtain ⟨t, ht, -⟩ := hterm c hc
        refine ⟨t, ht, ?_⟩
        obtain ⟨t₀, ht₀, hle⟩ := h.collected_complaint_term c (hsub.subset hc)
        rw [termOf_raise, ht₀] at ht
        by_cases hr : c.shard ∈ r
        · simp only [hr, if_true, Option.map_some, Option.some.injEq] at ht
          omega
        · simp only [hr, if_false, Option.map_some, Option.some.injEq] at ht
          omega
      complaints_nodup := (hsub.map complaintKeyOf).nodup (collected_complaints_nodup h.complaints_nodup) }

theorem Sound.refresh_eq (h : s.Sound) : s.refresh = s := by
  unfold refresh
  rw [if_neg h.n_ne_zero, if_neg h.n_ne_zero, ← h.threshold_eq, ← h.quorum_eq]

/-! ## Pending fragments -/

/-- No digest of a pending fragment has a threshold of votes. -/
def UnderThreshold (s : State) : Prop :=
  ∀ b ∈ s.pending, votes s.pending (batchKeyOf b) b.digest < s.threshold.toNat

/-- After a round no digest that is still pending has a threshold of votes. -/
theorem process_underThreshold
    (h : s.process W configSeq ces = .ok (s', extracted, configRequests)) : s'.UnderThreshold := by
  obtain ⟨hs', -, -⟩ := process_frame h
  have hthreshold : s'.threshold = (s.collected W configSeq ces).threshold := by rw [hs']
  have hpending : s'.pending =
    (s.collected W configSeq ces).extractBatchAttestationsFromPending.1.pending := by rw [hs']
  intro b hb
  rw [hpending] at hb ⊢
  rw [hthreshold]
  obtain ⟨hmem, hall⟩ := mem_extract_pending.mp hb
  exact lt_of_le_of_lt (votes_filter_le _ _ _ _) (hall b hmem rfl)

/-- After a round every pending fragment is of the round's config sequence. -/
theorem process_configSequence (h : s.process W configSeq ces = .ok (s', extracted, configRequests)) :
    ∀ b ∈ s'.pending, b.configSequence = configSeq := by
  obtain ⟨hs', -, -⟩ := process_frame h
  intro b hb
  rw [hs'] at hb
  obtain ⟨hmem, -⟩ := mem_extract_pending.mp hb
  rw [collected_pending, mem_append, mem_filter, mem_filter] at hmem
  rcases hmem with ⟨-, hseq⟩ | ⟨hin, -⟩
  · simpa using hseq
  · simpa using (mem_filter.mp hin).2

end State

end Arma
