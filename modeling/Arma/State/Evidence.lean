import Arma.State.Invariant

/-!
# Evidence that stays in the state

What a round leaves behind is what later rounds start from. Complaints that led to a rotation are removed, and
those that are left are too few for another one. The fragments of an equivocated batch are removed only if one
of its digests reached the threshold: otherwise they stay, and `DetectEquivocation` finds them again in every
later round.

* `shards_quietRun_iff`: the terms stay as they are in every quiet run iff the state is `Settled`, that is, no
  rotation is due for what the state already holds.
* `settled_iff`: a round leaves a settled state iff every equivocated batch among its fragments is decided.
-/

namespace Arma

open Arma.Lib List

theorem Equivocates.mono {l l' k} (h : Equivocates l k) (hsub : l ⊆ l') : Equivocates l' k := by
  obtain ⟨b, hb, b', hb', hdiff⟩ := h
  exact ⟨b, hsub hb, b', hsub hb', hdiff⟩

theorem raise_eq_self_iff {r shards} : raise r shards = shards ↔ ∀ st ∈ shards, st.shard ∉ r := by
  have hself : raise r shards = shards.map id ↔ ∀ st ∈ shards, (if st.shard ∈ r then st.next else st) = st :=
    map_inj_left
  rw [map_id] at hself
  refine hself.trans (forall₂_congr fun st _ => ?_)
  by_cases hr : st.shard ∈ r
  · have hne : st.next ≠ st := fun h => absurd (congrArg ShardTerm.term h) (by simp)
    simp [hr, hne]
  · simp [hr]

namespace State

variable {W : Wire} {configSeq : ConfigSequence} {ces : List ControlEvent} {s s' t t' : State}
  {extracted : List BAF} {configRequests : List ConfigRequest}

/-- The fragments that a round counts: the pending ones of the config sequence, and the fresh ones among the
events. -/
def roundFragments (s : State) (configSeq : ConfigSequence) (ces : List ControlEvent) : List BAF :=
  s.pending.filter (·.configSequence = configSeq) ++ (incoming configSeq ces).filter (Fresh s.shards
      ((s.pending.filter (·.configSequence = configSeq)).map attestationKeyOf) ·)

theorem mem_roundFragments {b} (h : b ∈ s.roundFragments configSeq ces) :
    b.configSequence = configSeq ∧ (b ∈ s.pending ∨ b ∈ incoming configSeq ces) := by
  rcases mem_append.mp h with h | h
  · obtain ⟨hmem, hseq⟩ := mem_filter.mp h
    exact ⟨by simpa using hseq, .inl hmem⟩
  · have hin := (mem_filter.mp h).1
    exact ⟨by simpa using (mem_filter.mp hin).2, .inr hin⟩

/-- Every equivocated batch of a known shard is decided: one of its digests has a threshold of votes. -/
def EvidenceDecided (s : State) (configSeq : ConfigSequence) (ces : List ControlEvent) : Prop :=
  ∀ st ∈ s.shards, ∀ k : BatchKey, k.shard = st.shard → Equivocates (s.roundFragments configSeq ces) k →
    ∃ b ∈ s.roundFragments configSeq ces, batchKeyOf b = k ∧
      s.threshold.toNat ≤ votes (s.roundFragments configSeq ces) k b.digest

def Settled (s : State) : Prop := ∀ st ∈ s.shards, ¬ s.RotationDue st

/-- The round adds no fragment and no complaint to those of the state. -/
structure BringsNothingNew (W : Wire) (s : State) (configSeq : ConfigSequence) (ces : List ControlEvent) :
    Prop where
  fragments : (s.collected W configSeq ces).pending ⊆ s.pending
  complaints : (s.collected W configSeq ces).complaints ⊆ s.complaints

/-- Rounds at one config sequence that bring nothing new. -/
inductive QuietRun (W : Wire) (configSeq : ConfigSequence) (s : State) : State → Prop
  | refl : QuietRun W configSeq s s
  | round {t t' : State} {ces extracted configRequests}
      (hrun : QuietRun W configSeq s t) (hnew : t.BringsNothingNew W configSeq ces)
      (hp : t.process W configSeq ces = .ok (t', extracted, configRequests)) : QuietRun W configSeq s t'

/-! ## What a round does, once it ended -/

/-- A round in terms of the collected state. -/
structure Rounded (W : Wire) (configSeq : ConfigSequence) (ces : List ControlEvent) (s s' : State)
    (raised : List ShardID) : Prop where
  shards : s'.shards = raise raised s.shards
  raised_iff : ∀ st ∈ s.shards, st.shard ∈ raised ↔ (s.collected W configSeq ces).RotationDue st
  complaints : s'.complaints ⊆ (s.collected W configSeq ces).complaints
  pending : s'.pending = (s.collected W configSeq ces).extractBatchAttestationsFromPending.1.pending
  threshold : s'.threshold = s.threshold

theorem Sound.rounded (h : s.Sound) (hp : s.process W configSeq ces = .ok (s', extracted, configRequests)) :
    ∃ raised, Rounded W configSeq ces s s' raised := by
  obtain ⟨r, cs, heq, hdue, hsub, -⟩ := @process_eq W configSeq ces s h
  rw [heq] at hp
  have hret := Except.ok.inj hp
  rw [updateDurableWatermark_frame] at hret
  obtain ⟨rfl, -, -⟩ : _ ∧ _ ∧ _ := by simpa using hret
  exact ⟨r, rfl, hdue, hsub.subset, rfl, rfl⟩

/-- A rotation that is due stays due when fragments and complaints are added. -/
theorem RotationDue.mono {st} (h : s.RotationDue st) (hpending : s.pending ⊆ t.pending)
    (hcomplaints : s.complaints ⊆ t.complaints) (hthreshold : s.threshold = t.threshold) : t.RotationDue st := by
  rcases h with ⟨k, hk, hequiv⟩ | hcard
  · exact .inl ⟨k, hk, hequiv.mono hpending⟩
  · refine .inr (hthreshold ▸ hcard.trans (Finset.card_le_card ?_))
    intro p hp
    simp only [complainers, mem_toFinset, mem_map, mem_filter] at hp ⊢
    obtain ⟨c, ⟨hc, hst⟩, rfl⟩ := hp
    exact ⟨c, ⟨hcomplaints hc, hst⟩, rfl⟩

/-! ## Quiet rounds -/

/-- **A quiet round of a settled state** raises no term and leaves it settled. -/
theorem Settled.round (hsettled : t.Settled) (h : t.Sound) (hnew : t.BringsNothingNew W configSeq ces)
    (hp : t.process W configSeq ces = .ok (t', extracted, configRequests)) : t'.shards = t.shards ∧ t'.Settled := by
  obtain ⟨raised, hround⟩ := h.rounded hp
  have hnone : ∀ st ∈ t.shards, st.shard ∉ raised := by
    intro st hst hr
    have hdue := (hround.raised_iff st hst).mp hr
    exact hsettled st hst (hdue.mono hnew.fragments hnew.complaints (collected_threshold W configSeq ces t))
  have hshards : t'.shards = t.shards := by
    rw [hround.shards, raise_eq_self_iff.mpr hnone]
  refine ⟨hshards, fun st hst hdue => hsettled st (hshards ▸ hst) ?_⟩
  refine hdue.mono ?_ (List.Subset.trans hround.complaints hnew.complaints) hround.threshold
  intro b hb
  rw [hround.pending] at hb
  exact hnew.fragments (mem_extract_pending.mp hb).1

theorem Settled.quietRun (hsettled : s.Settled) (h : s.Sound) (hrun : QuietRun W configSeq s t) :
    t.Sound ∧ t.shards = s.shards ∧ t.Settled := by
  induction hrun with
  | refl => exact ⟨h, rfl, hsettled⟩
  | round _ hnew hp ih =>
    obtain ⟨hsound, hshards, hset⟩ := ih
    obtain ⟨hshards', hset'⟩ := hset.round hsound hnew hp
    exact ⟨hsound.process hp, hshards'.trans hshards, hset'⟩

/-! ## What a round leaves -/

/-- After a round too few parties have complained about any shard's term for another rotation. -/
theorem Sound.card_complainers_lt (h : s.Sound)
    (hp : s.process W configSeq ces = .ok (s', extracted, configRequests)) {st}
    (hst : st ∈ s'.shards) : (s'.complainers st).card < s'.threshold.toNat := by
  obtain ⟨raised, hround⟩ := h.rounded hp
  have hcard : (s'.complainers st).card ≤ ((s.collected W configSeq ces).complainers st).card := by
    refine Finset.card_le_card fun p hp => ?_
    simp only [complainers, mem_toFinset, mem_map, mem_filter] at hp ⊢
    obtain ⟨c, ⟨hc, hst⟩, rfl⟩ := hp
    exact ⟨c, ⟨hround.complaints hc, hst⟩, rfl⟩
  rw [hround.shards, raise, mem_map] at hst
  obtain ⟨old, hold, rfl⟩ := hst
  rw [hround.threshold]
  refine hcard.trans_lt ?_
  by_cases hr : old.shard ∈ raised
  · -- nobody can have complained about the new term
    rw [if_pos hr, card_complainers (collected_complaints_nodup h.complaints_nodup), h.countP_next hold]
    exact h.threshold_pos
  · rw [if_neg hr]
    have hnot := mt (hround.raised_iff old hold).mpr hr
    rw [RotationDue, not_or, not_le, collected_threshold] at hnot
    exact hnot.2

/-- What stays pending is equivocated iff it was in the round and nothing of it was decided. -/
theorem equivocates_extract_iff {k} : Equivocates s.extractBatchAttestationsFromPending.1.pending k ↔
      Equivocates s.pending k ∧ ¬ ∃ b ∈ s.pending, batchKeyOf b = k ∧
        s.threshold.toNat ≤ votes s.pending k b.digest := by
  constructor
  · intro h
    refine ⟨h.mono fun b hb => (mem_extract_pending.mp hb).1, ?_⟩
    rintro ⟨b', hb', hk', hle⟩
    obtain ⟨b, hb, -, -, ⟨rfl, -⟩, -, -⟩ := h
    exact absurd hle (not_le.mpr ((mem_extract_pending.mp hb).2 b' hb' hk'))
  · rintro ⟨⟨b, hb, b', hb', ⟨hk, hne⟩, ⟨hk', hne'⟩, hdiff⟩, hnot⟩
    have hstays : ∀ x ∈ s.pending, batchKeyOf x = k → x ∈ s.extractBatchAttestationsFromPending.1.pending := by
      rintro x hx rfl
      refine mem_extract_pending.mpr ⟨hx, fun y hy hky => ?_⟩
      exact not_le.mp fun hle => hnot ⟨y, hy, hky, hle⟩
    exact ⟨b, hstays b hb hk, b', hstays b' hb' hk', ⟨hk, hne⟩, ⟨hk', hne'⟩, hdiff⟩

section

variable (h : s.Sound) (hp : s.process W configSeq ces = .ok (s', extracted, configRequests))
include h hp

theorem Sound.settled_iff : s'.Settled ↔ s.EvidenceDecided configSeq ces := by
  obtain ⟨raised, hround⟩ := h.rounded hp
  have hfragments : (s.collected W configSeq ces).pending = s.roundFragments configSeq ces :=
    collected_pending W configSeq ces s
  have hshard : ∀ shard, (∃ st ∈ s'.shards, shard = st.shard) ↔ ∃ st ∈ s.shards, shard = st.shard := by
    intro shard
    have hmap := map_shard_raise raised s.shards
    rw [← hround.shards] at hmap
    have hmem : shard ∈ s'.shards.map (·.shard) ↔ shard ∈ s.shards.map (·.shard) := by rw [hmap]
    simpa [eq_comm] using hmem
  constructor
  · intro hsettled st hst k hk hequiv
    by_contra hnot
    obtain ⟨st', hst', hk'⟩ := (hshard k.shard).mpr ⟨st, hst, hk⟩
    refine hsettled st' hst' (.inl ⟨k, hk', ?_⟩)
    rw [hround.pending, equivocates_extract_iff, hfragments, collected_threshold]
    exact ⟨hequiv, hnot⟩
  · rintro hdecided st' hst' (⟨k, hk', hequiv⟩ | hcard)
    · obtain ⟨st, hst, hk⟩ := (hshard k.shard).mp ⟨st', hst', hk'⟩
      rw [hround.pending, equivocates_extract_iff, hfragments, collected_threshold] at hequiv
      exact hequiv.2 (hdecided st hst k hk hequiv.1)
    · exact absurd hcard (not_le.mpr (h.card_complainers_lt hp hst'))

theorem Sound.shards_quietRun_iff : (∀ t, QuietRun W configSeq s' t → t.shards = s'.shards) ↔ s'.Settled := by
  refine ⟨fun hquiet st hst hdue => ?_, fun hsettled t hrun => (hsettled.quietRun (h.process hp) hrun).2.1⟩
  -- a single round without events already raises the term
  have hpending : (s'.collected W configSeq []).pending = s'.pending := by
    rw [collected_pending]
    simpa [incoming] using process_configSequence hp
  have hagain : (s'.collected W configSeq []).RotationDue st := by
    rcases hdue with ⟨k, hk, hequiv⟩ | hcard
    · exact .inl ⟨k, hk, hpending ▸ hequiv⟩
    · exact absurd hcard (not_le.mpr (h.card_complainers_lt hp hst))
  obtain ⟨r, cs, hp', -, -, -⟩ := @process_eq W configSeq [] s' (h.process hp)
  obtain ⟨raised, hround⟩ := (h.process hp).rounded hp'
  have hnew : s'.BringsNothingNew W configSeq [] := by
    refine ⟨hpending ▸ List.Subset.refl _, fun c hc => ?_⟩
    rcases mem_collected_complaints (h.process hp).complaints_nodup hc with ⟨hold, -⟩ | ⟨hin, -⟩
    · exact hold
    · simp [incomingComplaints] at hin
  have hshards := hquiet _ (.round .refl hnew hp')
  rw [hround.shards] at hshards
  exact raise_eq_self_iff.mp hshards st hst ((hround.raised_iff st hst).mpr hagain)

end

end State

end Arma
