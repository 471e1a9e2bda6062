import Arma.Consensus.History

/-!
# A batch is ordered once

**`Ordering.ordered_once`**: in every run no digest is ordered by two decisions, and no batch twice in one.

The runs that show results like this at work are those of one party, which decides on one fragment at a time
(`Idle.record`).
-/

namespace Arma

open Arma.Lib List

/-! ## Decisions of one party on one fragment -/

section Single

variable {W : Wire} {L : ConfigLib W} {c : Consensus} {b : BAF}

/-- A node of which one vote is a threshold, with nothing pending, under its first config. -/
structure Idle (W : Wire) (c : Consensus) : Prop where
  wellFormed : c.state.WellFormed W
  pending : c.state.pending = []
  threshold : c.state.threshold = 1
  shard : (termOf c.state.shards 1).isSome
  sequence : c.verificationSequence = 0
  status : c.status = .running
  prevHash : c.prevHash = ledgerHash W c.storage
  lastConfig : c.decisionNumOfLastConfigBlock < c.storage.length

theorem idle_newConsensus (genesisBlock : Block) : Idle W (newConsensus W 1 (.permissive 0 oneParty) genesisBlock) where
  wellFormed := genesisState_wellFormed _ _
  pending := rfl
  threshold := show (computeFTQ (UInt16.ofNat oneParty.partyIDs.length)).2.1 = 1 by decide
  shard := show (termOf (oneParty.extractShards.map fun shard => ⟨shard, 0⟩) 1).isSome by decide
  sequence := rfl
  status := rfl
  prevHash := rfl
  lastConfig := Nat.one_pos

theorem idle_genesisNode : Idle W (genesisNode W oneParty) := idle_newConsensus _

section

variable (hc : Idle W c) (hseq : b.configSequence = 0) (hshard : b.shard = 1) (hnew : b.digest ∉ c.badb)
include hc hseq hshard hnew

theorem Idle.computes :
    ∃ s, simulateStateTransition W c.badb c.state c.verificationSequence (fragmentRequests W [b]) = .ok (s, [[b]], []) ∧
      ∃ r, c.Computes L (fragmentRequests W [b]) r ∧ r.fragments = [b] ∧ r.configRequests = [] ∧ r.state = s := by
  obtain ⟨s, hsim⟩ := @simulateStateTransition_fragments W [b] c.state c.badb c.verificationSequence
    hc.wellFormed.sound hc.pending (by simpa [hc.sequence] using hseq) (by simpa [hshard] using hc.shard)
    (by simpa using hnew)
  have hvotes : votes [b] (batchKeyOf b) b.digest = 1 := by simp [votes]
  have hgroups : aggregateFragments ([b].filter fun b' => c.state.threshold.toNat ≤
      votes [b] (batchKeyOf b') b'.digest) = [[b]] := by
    simp [hc.threshold, hvotes, aggregateFragments, groupsInOrder_eq, firstSeen]
  rw [hgroups] at hsim
  obtain ⟨last, hr⟩ := computes_of_simulate (L := L) hc.wellFormed hsim rfl
  exact ⟨s, hsim, _, hr, rfl, rfl, rfl⟩

/-- The round on one fragment leaves nothing pending, and the shards and the threshold as they were. -/
theorem Idle.round {s attestations configRequests}
    (hsim : simulateStateTransition W c.badb c.state c.verificationSequence (fragmentRequests W [b]) =
      .ok (s, attestations, configRequests)) : s.pending = [] ∧ s.threshold = 1 ∧ (termOf s.shards 1).isSome := by
  obtain ⟨ces, extracted, hces, hp, -⟩ := simulateStateTransition_eq_ok.mp hsim
  cases requestsToControlEvents_fragments.symm.trans hces
  rw [pruneKnown_fragments (by simpa using hnew)] at hp
  obtain ⟨raised, hround⟩ := hc.wellFormed.sound.rounded hp
  have hpending : (c.state.collected W c.verificationSequence ([b].map .baf)).pending = [b] :=
    collected_pending_fragments hc.pending (by simpa [hc.sequence] using hseq) (by simpa [hshard] using hc.shard)
  refine ⟨?_, hround.threshold.trans hc.threshold, ?_⟩
  · rw [hround.pending, eq_nil_iff_forall_not_mem]
    intro b' hb'
    obtain ⟨hmem, hunder⟩ := State.mem_extract_pending.mp hb'
    rw [hpending] at hmem hunder
    obtain rfl := mem_singleton.mp hmem
    have hvotes := hunder b' (mem_singleton.mpr rfl) rfl
    rw [State.collected_threshold, hc.threshold] at hvotes
    simp [votes] at hvotes
  · rw [hround.shards, termOf_raise, Option.isSome_map]
    exact hc.shard

end

/-- The next decision of an idle node on one fragment: a block, which tells the count, and no config. -/
theorem Idle.header {r : Computed} (hc : Idle W c) (hfragments : r.fragments = [b]) (hrs : r.configRequests = []) :
    r.plan W c c.storage.length ≠ [] ∧
      (r.header W c c.storage.length).decisionNumOfLastConfigBlock = c.decisionNumOfLastConfigBlock ∧
      getLastTxCountFromHeader W (r.header W c c.storage.length) = .ok (c.txCount + b.txCount) := by
  have hpos : c.storage.length ≠ 0 := (Nat.zero_lt_of_lt hc.lastConfig).ne'
  have hne : r.plan W c c.storage.length ≠ [] := by
    rw [← length_pos_iff, Computed.length_plan, Computed.count, hfragments, hrs]
    exact Nat.one_pos
  have hsum : UInt64.ofNat (blockCounts r.fragments r.configRequests).sum = b.txCount := by
    simp [blockCounts, hfragments, hrs]
  refine ⟨hne, ?_, hsum ▸ getLastTxCount_plan hpos hne⟩
  simp [Computed.header, Consensus.nextDecisionNumOfLastConfigBlock, hrs]

/-- **An idle node decides** a batch of its shard on one fragment, and is idle again. Its transaction count is that of
the decision, unless that is 0. -/
theorem Idle.decide (hc : Idle W c) (hseq : b.configSequence = 0) (hshard : b.shard = 1) (hnew : b.digest ∉ c.badb) :
    ∃ r c' s, simulateStateTransition W c.badb c.state c.verificationSequence (fragmentRequests W [b]) =
        .ok (s, [[b]], []) ∧ c.Computes L (fragmentRequests W [b]) r ∧ r.fragments = [b] ∧ r.configRequests = [] ∧
      c.deliver L (r.proposal W c c.storage.length (some (W.viewMetadata.marshal ⟨c.storage.length⟩))
        (fragmentRequests W [b])) [] = .ok (c', ⟨c.config.shared.partyIDs, false⟩) ∧
      Idle W c' ∧ c'.badb = c.badb ++ [b.digest] ∧
      c'.txCount = if 0 < c.txCount + b.txCount then c.txCount + b.txCount else c.txCount := by
  obtain ⟨s, hsim, r, hr, hfragments, hrs, hstate⟩ := @Idle.computes W L c b hc hseq hshard hnew
  have hhdr := hr.deserialize_header hc.wellFormed c.storage.length
  obtain ⟨-, hlast, htx⟩ := hc.header hfragments hrs
  have hdn : (r.header W c c.storage.length).num ≠ (r.header W c c.storage.length).decisionNumOfLastConfigBlock := by
    rw [hlast]
    exact hc.lastConfig.ne'
  obtain ⟨c', hdeliver, hstatus, hcount⟩ := @Consensus.deliver_of_data W L c
    (r.proposal W c c.storage.length (some (W.viewMetadata.marshal ⟨c.storage.length⟩)) (fragmentRequests W [b]))
    _ _ [] hhdr rfl rfl hc.prevHash hdn _ htx
  have hd := Consensus.delivered_of_deliver hhdr rfl hdeliver
  refine ⟨r, c', s, hsim, hr, hfragments, hrs, hdeliver, ?_, ?_, hcount⟩
  · obtain ⟨hpending, hthreshold, hshards⟩ := hc.round hseq hshard hnew hsim
    have hno : ¬ ∃ header envelope, NewConfig W c (r.header W c c.storage.length) header envelope ∧
        Reconfigured L c c' (r.header W c c.storage.length) header envelope := by
      rintro ⟨_, _, hconfig, -⟩
      exact hdn hconfig.num
    obtain ⟨hsame, -⟩ := hd.config.resolve_right hno
    have hnext : c'.state = setAppContext W s ((r.plan W c c.storage.length).getLast?.map (·.header)) :=
      hstate ▸ hd.state
    have hkept : c'.state.pending = s.pending ∧ c'.state.threshold = s.threshold ∧ c'.state.shards = s.shards := by
      rw [hnext]
      cases (r.plan W c c.storage.length).getLast? <;> exact ⟨rfl, rfl, rfl⟩
    exact {
      wellFormed := hd.state ▸ hr.wellFormed hc.wellFormed _
      pending := hkept.1.trans hpending
      threshold := hkept.2.1.trans hthreshold
      shard := hkept.2.2 ▸ hshards
      sequence := (congrArg NodeConfig.sequence hsame.config).trans hc.sequence
      status := hstatus.trans hc.status
      prevHash := by
        rw [hd.prevHash, hd.storage, ledgerHash, getLast?_concat]
        rfl
      lastConfig := by
        rw [hsame.decisionNumOfLastConfigBlock, hd.storage, length_append]
        exact Nat.lt_add_right 1 hc.lastConfig }
  · rw [hd.badb, hd.digestsOf_eq, hfragments]
    rfl

/-- The run goes on with the decision of an idle node on one fragment. -/
theorem Idle.record {Q genesisBlock log} (hc : Idle W c)
    (hrun : Recording L Q genesisBlock log c) (hseq : b.configSequence = 0) (hshard : b.shard = 1)
    (hnew : b.digest ∉ c.badb) (hcond : Q c (fragmentRequests W [b])) :
    ∃ (r : Computed) (c' : Consensus), Recording L Q genesisBlock (log ++ [r.decided W c c.storage.length]) c' ∧
      r.fragments = [b] ∧ r.configRequests = [] ∧ digestsOf W (r.decided W c c.storage.length).blocks = [b.digest] ∧
      Idle W c' ∧ c'.badb = c.badb ++ [b.digest] ∧
      c'.txCount = if 0 < c.txCount + b.txCount then c.txCount + b.txCount else c.txCount := by
  obtain ⟨r, c', s, hsim, hr, hfragments, hrs, hdeliver, hidle, hbadb, htx⟩ := @Idle.decide W L c b hc hseq hshard hnew
  have hassemble : c.assembleProposal L (some (W.viewMetadata.marshal ⟨c.storage.length⟩)) (fragmentRequests W [b]) =
      .ok (r.proposal W c c.storage.length (some (W.viewMetadata.marshal ⟨c.storage.length⟩))
        (fragmentRequests W [b])) :=
    Consensus.assembleProposal_eq_ok.mpr ⟨r, ⟨c.storage.length⟩, hr, Codec.unmarshal_marshal _ _, rfl⟩
  have hhdr := hr.deserialize_header hc.wellFormed c.storage.length
  have hstep := Recording.decide hrun hc.status hcond hassemble hhdr hsim hdeliver
  have hdecided : r.decided W c c.storage.length = ⟨r.header W c c.storage.length, firstFragments [[b]], []⟩ := by
    rw [Computed.decided, hfragments, hrs]
    rfl
  refine ⟨r, c', hdecided ▸ hstep, hfragments, hrs, ?_, hidle, hbadb, htx⟩
  exact (Consensus.delivered_of_deliver hhdr rfl hdeliver).digestsOf_eq.trans (by rw [hfragments]; rfl)

end Single

/-- A fragment for the second batch of primary 1. -/
def secondBatch : BAF := { firstBatchBy 1 with seq := 1, digest := [8] }

/-- Two decisions of one party, on batches of any numbers of transactions. -/
theorem record_two (txCount txCount' : UInt64) : ∃ (r r' : Computed) (c c' : Consensus),
    Recording soleLib anyPayload (newBlock 0 [])
      [r.decided refWire soleNode 1, r'.decided refWire c c.storage.length] c' ∧
    (digestsOf refWire (r.decided refWire soleNode 1).blocks = [[7]] ∧
      digestsOf refWire (r'.decided refWire c c.storage.length).blocks = [[8]]) ∧
    (r.fragments = [{ firstBatchBy 1 with txCount }] ∧ r.configRequests = []) ∧
    (r'.fragments = [{ secondBatch with txCount := txCount' }] ∧ r'.configRequests = []) ∧ Idle refWire c ∧
    c.txCount = if 0 < soleNode.txCount + txCount then soleNode.txCount + txCount else soleNode.txCount := by
  obtain ⟨r, c, hrun, hfragments, hrs, hdigests, hidle, hbadb, htx⟩ := idle_genesisNode.record
    (b := { firstBatchBy 1 with txCount }) (Q := anyPayload) (Recording.start (L := soleLib)) rfl rfl
    not_mem_nil trivial
  have hnew : secondBatch.digest ∉ c.badb := by
    rw [hbadb]
    show [8] ∉ [[7]]
    decide
  obtain ⟨r', c', hrun', hfragments', hrs', hdigests', -⟩ := hidle.record hrun
    (b := { secondBatch with txCount := txCount' }) rfl rfl hnew trivial
  exact ⟨r, r', c, c', hrun', ⟨hdigests, hdigests'⟩, ⟨hfragments, hrs⟩, ⟨hfragments', hrs'⟩, hidle, htx⟩

/-! ## The theorem -/

section Once

variable {W : Wire} {L : ConfigLib W} {past : List Header} {c : Consensus}

/-- **A batch is ordered once**: in every run no digest is the data hash of data blocks of two decisions,
and the data blocks of a decision are for pairwise distinct batches. -/
theorem Ordering.ordered_once (h : Ordering L past c) :
    past.Pairwise (fun hdr hdr' => ∀ d ∈ digestsOf W hdr.availableCommonBlocks,
      d ∉ digestsOf W hdr'.availableCommonBlocks) ∧ ∀ hdr ∈ past, ∃ batches : List BatchIDKey, batches.Nodup ∧
      List.Forall₂ (HasBatch W) (dataBlocks W hdr.availableCommonBlocks) batches := by
  obtain ⟨genesisBlock, log, hrun, rfl⟩ := h
  refine hrun.rule (fun _ _ => by simp) fun hinv hrunning _ hr hhdr hdeliver ih => ?_
  have hd := Consensus.delivered_of_deliver hhdr rfl hdeliver
  obtain ⟨s, attestations, hsim, -, -, hfragments⟩ := hr
  rw [map_append]
  constructor
  · refine pairwise_append.mpr ⟨ih.1, pairwise_singleton _ _, ?_⟩
    intro hdr hmem hdr' hmem' d hd₁ hd₂
    obtain rfl := mem_singleton.mp hmem'
    rw [Computed.decided, hd.digestsOf_eq] at hd₂
    obtain ⟨b, hb, rfl⟩ := mem_map.mp hd₂
    rw [hfragments] at hb
    exact firstFragments_digest hinv.wellFormed.sound (hinv.under hrunning) hsim b hb (hinv.indexed hdr hmem _ hd₁)
  · intro hdr hmem
    rcases mem_append.mp hmem with hmem | hmem
    · exact ih.2 hdr hmem
    · obtain rfl := mem_singleton.mp hmem
      refine ⟨_, hfragments ▸ nodup_batches hsim, ?_⟩
      rw [Computed.decided, hd.dataBlocks_eq]
      exact forall₂_hasBatch _ _ _

/-- Two decisions of one party, on a batch each. -/
theorem ordered_once_two : ∃ hdr hdr' c, Ordering soleLib [hdr, hdr'] c ∧
    digestsOf refWire hdr.availableCommonBlocks = [[7]] ∧ digestsOf refWire hdr'.availableCommonBlocks = [[8]] ∧
    (∀ d ∈ digestsOf refWire hdr.availableCommonBlocks, d ∉ digestsOf refWire hdr'.availableCommonBlocks) ∧
    ∃ batches : List BatchIDKey, batches.Nodup ∧
      List.Forall₂ (HasBatch refWire) (dataBlocks refWire hdr'.availableCommonBlocks) batches := by
  obtain ⟨r, r', c, c', hrun, ⟨hdigests, hdigests'⟩, -⟩ := record_two 1 1
  have hordering : Ordering soleLib [_, _] c' := ⟨_, _, hrun, rfl⟩
  obtain ⟨honce, hall⟩ := Ordering.ordered_once hordering
  exact ⟨_, _, c', hordering, hdigests, hdigests', rel_of_pairwise_cons honce mem_cons_self,
    hall _ (mem_cons_of_mem _ mem_cons_self)⟩

end Once

end Arma
