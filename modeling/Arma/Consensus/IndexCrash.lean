import Arma.Consensus.Pinned
import Arma.Consensus.Restart
import Arma.State.Order

/-!
# A crash between indexing and appending

`Deliver` puts the digests of a decision into the BADB (`Index`) before it appends the decision to the ledger, and says
why: a node that crashes in between replicates the decision and indexes it again, which changes nothing. What it does
not say is what the restarted node makes of the decision in the meantime. It recovers the state from the ledger, where
the decision is missing, with a BADB in which the decision's digests are already known, and `SimulateStateTransition`
leaves out the fragments of known digests.

* `simulateStateTransition_of_not_takesFragments`: without a shard, and under the first config, no fragment counts.
* `Consensus.not_harmless`: a digest that was not known before makes a difference, in the fragments of one batch.
* **`Committing.harmless_iff`**: the crash is harmless iff the decision's digests were known before.
* `indexed_decision_rejected`: a node that cannot verify the decision it crashed in.
-/

namespace Arma

open Arma.Lib List State Computed

/-! ## The crash -/

/-- **A process that starts again** on a BADB and a ledger that is not empty, under the config of its last config
block. -/
def restartConsensus (W : Wire) (partyID : PartyID) (config : NodeConfig) (badb : List Bytes) (storage : List Block)
    (bootstrapBlock : Block) : Outcome Consensus := do
  let r ← recover W storage bootstrapBlock
  return {
    partyID
    config
    state := r.state
    badb
    lastConfigBlockNum := r.lastConfigBlockNum
    decisionNumOfLastConfigBlock := r.decisionNumOfLastConfigBlock
    txCount := r.txCount
    prevHash := r.prevHash
    storage
    status := .running }

/-- The BADB once `Deliver` has indexed the digests of a decision. -/
def Consensus.indexedBADB (W : Wire) (c : Consensus) (hdr : Header) : List Bytes :=
  index c.badb (digestsOf W hdr.availableCommonBlocks)

/-- **For the decision `num` the node `v` does what `c` does**: it accepts the same proposals, and assembles the same
proposal from the same requests. -/
structure Harmless {W : Wire} (L : ConfigLib W) (num : DecisionNum) (c v : Consensus) : Prop where
  verify : ∀ p hdr, Header.deserialize W p.header = .ok hdr → hdr.num = num →
    ((∃ reqInfos, v.verifyProposal L p = .ok reqInfos) ↔ ∃ reqInfos, c.verifyProposal L p = .ok reqInfos)
  assemble : ∀ metadata md requests, W.viewMetadata.unmarshal (metadata.getD []) = .ok md → md.latestSequence = num →
    v.assembleProposal L metadata requests = c.assembleProposal L metadata requests

/-- A fragment can leave a trace in the state of the node: there is a shard to count it for, or a config sequence that
it can be stale of. -/
def Consensus.TakesFragments (c : Consensus) : Prop := c.state.shards ≠ [] ∨ 0 < c.verificationSequence

/-! ## Where the BADB makes no difference -/

section Unaffected

variable {W : Wire} {L : ConfigLib W} {c : Consensus} {s : State} {badb badb' : List Bytes}

/-- The BADB is read by `SimulateStateTransition` only. -/
theorem harmless_of_simulateStateTransition (num : DecisionNum)
    (h : ∀ requests, simulateStateTransition W badb c.state c.verificationSequence requests =
      simulateStateTransition W c.badb c.state c.verificationSequence requests) : Harmless L num c { c with badb } := by
  have hverify : ∀ requests hdr state md,
      Consensus.verifyHeader L { c with badb } requests hdr state md = c.verifyHeader L requests hdr state md := by
    intro requests hdr state md
    unfold Consensus.verifyHeader
    rw [← h requests]
    rfl
  refine ⟨fun p hdr _ _ => ?_, fun metadata md requests _ _ => ?_⟩
  · simp only [Consensus.verifyProposal_eq_ok, hverify]
    rfl
  · unfold Consensus.assembleProposal Consensus.assembleHeader
    rw [← h requests]
    rfl

def otherEvents (ces : List ControlEvent) : List ControlEvent := ces.filter fun ce => ce.baf?.isNone

theorem otherEvents_pruneKnown (ces) : otherEvents (pruneKnown badb ces) = otherEvents ces := by
  unfold otherEvents pruneKnown
  rw [filter_filter]
  refine filter_congr fun ce _ => ?_
  cases ce with
  | baf | complaint | configRequest | assemblerReport => simp

theorem foldl_collectEvent_otherEvents (keys) (ces) (acc) (hshards : acc.1.shards = []) :
    ces.foldl (collectEvent keys) acc = (otherEvents ces).foldl (collectEvent keys) acc := by
  unfold otherEvents
  induction ces generalizing acc with
  | nil => rfl
  | cons ce ces ih =>
    have hkept : (collectEvent keys acc ce).1.shards = [] := by
      obtain ⟨b, -, -, h⟩ | ⟨c, -, -, -, h⟩ | ⟨h, -⟩ := collectEvent_cases keys acc ce <;> rw [h] <;>
        exact hshards
    rw [foldl_cons, ih _ hkept]
    cases ce with
    | baf b =>
      have hskip : collectEvent keys acc (.baf b) = acc := by simp [collectEvent, hshards, termOf]
      rw [hskip, filter_cons_of_neg (by simp)]
    | complaint | configRequest | assemblerReport => rw [filter_cons_of_pos (by simp), foldl_cons]

theorem foldl_collectReport_otherEvents (ces) (acc) :
    ces.foldl collectReport acc = (otherEvents ces).foldl collectReport acc := by
  unfold otherEvents
  rw [foldl_filter]
  congr 1
  funext acc ce
  cases ce <;> rfl

theorem filterCEs_fst_otherEvents (configSeq : ConfigSequence) (ces) :
    (filterCEsWithDiffConfigSeq W configSeq (otherEvents ces)).1 =
      otherEvents (filterCEsWithDiffConfigSeq W configSeq ces).1 := by
  unfold filterCEsWithDiffConfigSeq otherEvents
  exact filter_comm _ _ _

theorem filterCE_first_ne_stale (ce : ControlEvent) (b : BAF) : filterCE W 0 ce ≠ .stale b := by
  cases ce with
  | baf b' =>
    by_cases hseq : b'.configSequence = 0 <;> simp [filterCE, hseq]
  | complaint c | assemblerReport c => by_cases hseq : c.configSeq = 0 <;> simp [filterCE, hseq]
  | configRequest =>
    rw [filterCE]
    split
    · split <;> simp
    · simp

theorem filterCEs_snd_first (ces) : (filterCEsWithDiffConfigSeq W 0 ces).2 = [] := by
  refine filterMap_eq_nil_iff.mpr fun ce _ => ?_
  cases hf : filterCE W 0 ce with
  | keep | drop => rfl
  | stale b => exact absurd hf (filterCE_first_ne_stale ce b)

/-- Without a shard, and under the first config, a round passes over the fragments. -/
theorem process_otherEvents (hshards : s.shards = []) (ces) :
    s.process W 0 ces = s.process W 0 (otherEvents ces) := by
  have hcollected : s.collected W 0 ces = s.collected W 0 (otherEvents ces) := by
    unfold collected collectAndDeduplicateEvents collectAssemblerReports
    simp only [filterCEs_snd_first, filterCEs_fst_otherEvents]
    rw [foldl_collectEvent_otherEvents _ _ _ hshards, foldl_collectReport_otherEvents]
  have hrequests : extractConfigRequests (filterCEsWithDiffConfigSeq W 0 ces).1 =
      extractConfigRequests (filterCEsWithDiffConfigSeq W 0 (otherEvents ces)).1 := by
    rw [filterCEs_fst_otherEvents, extractConfigRequests, extractConfigRequests, otherEvents, filterMap_filter]
    congr 1
    funext ce
    cases ce <;> rfl
  unfold process
  rw [hcollected, hrequests]

theorem simulateStateTransition_of_not_takesFragments (h : ¬ c.TakesFragments) (requests : BatchedRequests) :
    simulateStateTransition W badb c.state c.verificationSequence requests =
      simulateStateTransition W badb' c.state c.verificationSequence requests := by
  obtain ⟨hshards, hseq⟩ := not_or.mp h
  rw [not_not] at hshards
  have hzero : c.verificationSequence = 0 := by simpa [UInt64.pos_iff_ne_zero] using hseq
  unfold simulateStateTransition
  simp only [hzero, process_otherEvents hshards (pruneKnown _ _), otherEvents_pruneKnown]

end Unaffected

/-! ## Where it does -/

section Affected

variable {W : Wire} {L : ConfigLib W} {c v : Consensus} {r r' : Computed} {requests : BatchedRequests}
  {num : DecisionNum} {b : BAF}

/-- What a node computes from fragments, of which the BADB lets some through. -/
theorem exists_computes_fragments (hc : c.state.WellFormed W) (bs kept : List BAF)
    (hkept : pruneKnown c.badb (bs.map .baf) = kept.map .baf) :
    ∃ r, c.Computes L (fragmentRequests W bs) r ∧ r.configRequests = [] ∧
      r.fragments = firstFragments (aggregateFragments
        (c.state.collected W c.verificationSequence (kept.map .baf)).extractBatchAttestationsFromPending.2) ∧
      r.state.pending =
        (c.state.collected W c.verificationSequence (kept.map .baf)).extractBatchAttestationsFromPending.1.pending ∧
      r.state.staleConfigBAFs = (filterCEsWithDiffConfigSeq W c.verificationSequence (kept.map .baf)).2 := by
  obtain ⟨⟨s, attestations, configRequests⟩, hsim⟩ : ∃ result, simulateStateTransition W c.badb c.state
      c.verificationSequence (fragmentRequests W bs) = .ok result :=
    simulateStateTransition_eq hc.sound requestsToControlEvents_fragments
  obtain ⟨ces, extracted, hces, hp, hagg⟩ := simulateStateTransition_eq_ok.mp hsim
  cases requestsToControlEvents_fragments.symm.trans hces
  rw [hkept] at hp
  obtain ⟨hs, hextracted, hrequests⟩ := process_frame hp
  rw [extractConfigRequests_fragments] at hrequests
  subst hagg hextracted hrequests
  obtain ⟨last, hr⟩ := computes_of_simulate hc hsim rfl
  refine ⟨_, hr, rfl, rfl, ?_, ?_⟩
  · exact (congrArg pending hs :)
  · exact (congrArg staleConfigBAFs hs).trans collected_staleConfigBAFs

/-- Two nodes that assemble the same proposal have computed the same header. -/
theorem header_eq_of_assembleProposal (hc : c.state.WellFormed W) (hv : v.state.WellFormed W)
    (hr : c.Computes L requests r) (hr' : v.Computes L requests r')
    (h : v.assembleProposal L (some (W.viewMetadata.marshal ⟨num⟩)) requests =
      c.assembleProposal L (some (W.viewMetadata.marshal ⟨num⟩)) requests) : r'.header W v num = r.header W c num := by
  have hmd : W.viewMetadata.unmarshal ((some (W.viewMetadata.marshal ⟨num⟩)).getD []) = .ok ⟨num⟩ :=
    Codec.unmarshal_marshal _ _
  rw [Consensus.assembleProposal_eq_ok.mpr ⟨r, ⟨num⟩, hr, hmd, rfl⟩,
    Consensus.assembleProposal_eq_ok.mpr ⟨r', ⟨num⟩, hr', hmd, rfl⟩] at h
  have hheaders := congrArg Proposal.header (Except.ok.inj h)
  have hread := hr'.deserialize_header hv num
  rw [show some ((r'.header W v num).serialize W) = _ from hheaders, proposal, hr.deserialize_header hc num] at hread
  exact (Except.ok.inj hread).symm

theorem HasBatch.unique {block k k'} (h : HasBatch W block k) (h' : HasBatch W block k') : k = k' := by
  obtain ⟨header, md, raw, m, hheader, hmd, hraw, hm, hshard, hprimary, hseq, hdigest⟩ := h
  obtain ⟨header', md', raw', m', hheader', hmd', hraw', hm', hshard', hprimary', hseq', hdigest'⟩ := h'
  cases hheader.symm.trans hheader'
  cases hmd.symm.trans hmd'
  cases hraw.symm.trans hraw'
  cases hm.symm.trans hm'
  have hshards : k.shard = k'.shard := UInt16.toUInt32_inj.mp (hshard.symm.trans hshard')
  have hprimaries : k.primary = k'.primary := UInt16.toUInt32_inj.mp (hprimary.symm.trans hprimary')
  have hseqs : k.seq = k'.seq := hseq.symm.trans hseq'
  have hdigests : k.digest = k'.digest := hdigest.symm.trans hdigest'
  cases k
  cases k'
  simp_all

theorem batches_eq_of_header_eq (hrs : r.configRequests = []) (hrs' : r'.configRequests = [])
    (h : r'.header W v num = r.header W c num) : r'.fragments.map batchIDKeyOf = r.fragments.map batchIDKeyOf := by
  have hblocks : (r'.plan W v num).map (PlannedBlock.create W) = (r.plan W c num).map (PlannedBlock.create W) :=
    congrArg Header.availableCommonBlocks h
  rw [plan_of_nil hrs, plan_of_nil hrs'] at hblocks
  have hbatches := @forall₂_hasBatch W num r.count c.lastConfigBlockNum 0 (c.chainHead W r.last) r.fragments
  have hbatches' := @forall₂_hasBatch W num r'.count v.lastConfigBlockNum 0 (v.chainHead W r'.last) r'.fragments
  rw [hblocks] at hbatches'
  have hunique : Relator.RightUnique (HasBatch W) := fun _ _ _ => HasBatch.unique
  exact right_unique_forall₂' hunique hbatches' hbatches

/-- A fragment of a batch of which nothing is pending is left pending by a round, or extracted. -/
theorem mem_pending_or_extracted {s : State} (hshard : (termOf s.shards b.shard).isSome)
    (hfresh : ∀ b' ∈ s.pending, b'.seq ≠ b.seq) :
    b ∈ (s.collected W b.configSequence [.baf b]).extractBatchAttestationsFromPending.1.pending ∨
      b ∈ (s.collected W b.configSequence [.baf b]).extractBatchAttestationsFromPending.2 := by
  set old := s.pending.filter (·.configSequence = b.configSequence) with hold
  have hother : ∀ b' ∈ old, b'.seq ≠ b.seq := fun b' hb' => hfresh b' (mem_filter.mp hb').1
  have hpending : (s.collected W b.configSequence [.baf b]).pending = old ++ [b] := by
    have hkey : ∀ b' ∈ old, attestationKeyOf b' ≠ attestationKeyOf b := fun b' hb' heq =>
      hother b' hb' (congrArg (·.batch.seq) heq)
    rw [collected_pending]
    simpa [incoming, State.Fresh, hshard, ← hold] using hkey
  have hmem : b ∈ (s.collected W b.configSequence [.baf b]).pending := by simp [hpending]
  rw [mem_extract_pending, mem_extracted]
  by_cases hvotes : (s.collected W b.configSequence [.baf b]).threshold.toNat ≤
      votes (s.collected W b.configSequence [.baf b]).pending (batchKeyOf b) b.digest
  · exact .inr ⟨hmem, hvotes⟩
  · refine .inl ⟨hmem, fun b' hb' heq => ?_⟩
    -- nothing else is pending of the batch
    obtain rfl : b' = b := by
      rw [hpending, mem_append, mem_singleton] at hb'
      exact hb'.resolve_left fun hb' => hother b' hb' (congrArg (·.seq) heq)
    exact not_le.mp hvotes

/-- What a round without events leaves pending or extracts was pending before. -/
theorem mem_pending_of_no_events {s : State} {configSeq}
    (h : b ∈ (s.collected W configSeq []).extractBatchAttestationsFromPending.1.pending ∨
      b ∈ (s.collected W configSeq []).extractBatchAttestationsFromPending.2) : b ∈ s.pending := by
  rw [mem_extract_pending, mem_extracted, collected_pending] at h
  have hmem := h.elim And.left And.left
  simp only [incoming, filterMap_nil, filter_nil, append_nil] at hmem
  exact (mem_filter.mp hmem).1

/-- **A fragment that tells two BADBs apart**: it is stale of the config sequence, or of a known shard with nothing
pending of its batch. -/
def Consensus.Telling (c : Consensus) (b : BAF) : Prop :=
  b.configSequence < c.verificationSequence ∨
    b.configSequence = c.verificationSequence ∧ (termOf c.state.shards b.shard).isSome ∧
      ∀ b' ∈ c.state.pending, b'.seq ≠ b.seq

theorem Consensus.TakesFragments.exists_telling (h : c.TakesFragments) (d : Bytes) :
    ∃ b : BAF, b.digest = d ∧ c.Telling b := by
  by_cases hseq : 0 < c.verificationSequence
  · exact ⟨{ firstBatchBy 1 with digest := d }, rfl, .inl hseq⟩
  · obtain ⟨st, rest, hshards⟩ := exists_cons_of_ne_nil (h.resolve_right hseq)
    obtain ⟨seq, hseq'⟩ := Infinite.exists_notMem_finset (c.state.pending.map (·.seq)).toFinset
    refine ⟨{ firstBatchBy 1 with shard := st.shard, seq, digest := d, configSequence := c.verificationSequence }, rfl,
      .inr ⟨rfl, by simp [termOf, hshards], fun b' hb' heq => hseq' ?_⟩⟩
    rw [mem_toFinset]
    exact mem_map.mpr ⟨b', hb', heq⟩

theorem setAppContext_staleConfigBAFs (s : State) (header : Option BlockHeader) :
    (setAppContext W s header).staleConfigBAFs = s.staleConfigBAFs := by
  cases header <;> rfl

/-- **The round on a telling fragment has another outcome than the round on nothing.** -/
theorem Consensus.Telling.header_ne (hb : c.Telling b) (hc : c.state.WellFormed W) (hstate : v.state = c.state)
    (hconfig : v.config = c.config) (hnew : b.digest ∉ c.badb) (hknown : b.digest ∈ v.badb) :
    ∃ r r', c.Computes L (fragmentRequests W [b]) r ∧ v.Computes L (fragmentRequests W [b]) r' ∧
      r'.header W v num ≠ r.header W c num := by
  obtain ⟨r, hr, hrs, hfragments, hpending, hstale⟩ := @exists_computes_fragments W L c hc [b] [b]
    (pruneKnown_fragments (by simpa using hnew))
  obtain ⟨r', hr', hrs', hfragments', hpending', hstale'⟩ := @exists_computes_fragments W L v (hstate ▸ hc) [b] []
    (pruneKnown_of_known (by simpa using hknown))
  have hsequence : v.verificationSequence = c.verificationSequence := congrArg NodeConfig.sequence hconfig
  rw [hstate, hsequence] at hfragments' hpending'
  refine ⟨r, r', hr, hr', fun heq => ?_⟩
  have hstates : r'.nextState W v num = r.nextState W c num := Option.some.inj (congrArg Header.state heq)
  rcases hb with hlt | ⟨hseq, hshard, hfresh⟩
  · have hstales := congrArg staleConfigBAFs hstates
    rw [nextState, nextState, setAppContext_staleConfigBAFs, setAppContext_staleConfigBAFs, hstale,
      hstale'] at hstales
    have hne : b.configSequence ≠ c.verificationSequence := fun h => absurd (h ▸ hlt) (UInt64.lt_irrefl _)
    simp [filterCEsWithDiffConfigSeq, filterCE, hlt, hne] at hstales
  · have hpendings := congrArg pending hstates
    rw [nextState, nextState, setAppContext_pending, setAppContext_pending, hpending, hpending', ← hseq] at hpendings
    have hbatches := batches_eq_of_header_eq hrs hrs' heq
    rw [hfragments, hfragments', map_batchIDKeyOf_firstFragments, map_batchIDKeyOf_firstFragments, ← hseq] at hbatches
    simp only [map_cons, map_nil] at hpendings hbatches
    rcases mem_pending_or_extracted (W := W) hshard hfresh with hleft | hextracted
    · exact hfresh b (mem_pending_of_no_events (.inl (hpendings ▸ hleft))) rfl
    · have hkey : batchIDKeyOf b ∈ firstSeen batchIDKeyOf _ := mem_firstSeen.mpr ⟨b, hextracted, rfl⟩
      rw [← hbatches] at hkey
      obtain ⟨b', hb', hsame⟩ := mem_firstSeen.mp hkey
      exact hfresh b' (mem_pending_of_no_events (.inr hb')) (congrArg BatchIDKey.seq hsame)

theorem Consensus.not_harmless {d} (hc : c.state.WellFormed W) (htakes : c.TakesFragments)
    (hstate : v.state = c.state) (hconfig : v.config = c.config) (hnew : d ∉ c.badb) (hknown : d ∈ v.badb) :
    ¬ Harmless L num c v := by
  intro h
  obtain ⟨b, rfl, hb⟩ := htakes.exists_telling d
  obtain ⟨r, r', hr, hr', hne⟩ := @Consensus.Telling.header_ne W L c v num b hb hc hstate hconfig hnew hknown
  exact hne (header_eq_of_assembleProposal hc (hstate ▸ hc) hr hr' (h.assemble _ _ _ (Codec.unmarshal_marshal _ _) rfl))

end Affected

/-! ## The runs -/

/-- A decision after which the node can be restarted, and that a node in a well-formed state accepted. -/
structure Regular {W : Wire} (L : ConfigLib W) (n : SyncNode) (hdr : Header) : Prop extends Restartable W n hdr where
  accepted : ∃ (v : Consensus) (p : Proposal) (reqInfos : List RequestInfo), v.state.WellFormed W ∧
    Header.deserialize W p.header = .ok hdr ∧ v.verifyProposal L p = .ok reqInfos

section Crash

variable {W : Wire} {L : ConfigLib W} {genesisBlock : Block} {n : SyncNode} {c : Consensus} {hdr : Header} {s : State}

theorem Regular.wellFormed (h : Regular L n hdr) (hs : hdr.state = some s) : s.WellFormed W := by
  obtain ⟨v, p, reqInfos, hv, hhdr, hverify⟩ := h.accepted
  obtain ⟨d, r, ha, -⟩ := verifyProposal_iff_accepted.mp hverify
  obtain ⟨raw, hraw, hheader⟩ := ha.decodes.header
  rw [hraw, hheader] at hhdr
  cases hhdr
  cases ha.decodes.state.symm.trans hs
  rw [ha.state_eq hv]
  exact ha.computes.wellFormed hv _

theorem Committing.wellFormed (hboot : BootBlock W genesisBlock) (h : Committing L (Regular L) genesisBlock n) :
    n.node.state.WellFormed W := by
  induction h with
  | start => exact genesisState_wellFormed _ _
  | deliver _ _ hp hcond hdeliver =>
    rw [(Consensus.delivered_of_deliver hp.header hp.state hdeliver).state]
    exact hcond.wellFormed hp.state
  | sync _ _ hp hcond hcommit =>
    rw [(committed_of_commitPulled hp.header hp.state hcommit).1.state]
    exact hcond.wellFormed hp.state
  | @reconfigure n c' _ _ hrun hmem happly ih =>
    have hsteady := (hrun.mono fun _ _ hcond => hcond.toRestartable).steady hboot
    obtain rfl := hsteady.reconfigs _ _ hmem
    obtain ⟨-, hmemory⟩ := hsteady.recovers.applyConfig happly
    have hstate : c'.state = n.node.state := congrArg Recovered.state hmemory
    exact hstate ▸ ih

/-- A node that can be restarted is the same afterwards, on whatever BADB it finds. -/
theorem Recovers.restart (hc : Recovers W c) (hboot : BootBlock W genesisBlock) (hrunning : c.status = .running)
    (badb : List Bytes) : restartConsensus W c.partyID c.config badb c.storage genesisBlock = .ok { c with badb } := by
  rw [restartConsensus, hc.recover_inMemory hboot, Outcome.ok_bind, hrunning]
  rfl

/-- **A crash between indexing and appending a decision is harmless iff its digests were known before**, unless no
fragment can leave a trace. -/
theorem Committing.harmless_iff (hboot : BootBlock W genesisBlock) (h : Committing L (Regular L) genesisBlock ⟨c, []⟩)
    (hrunning : c.status = .running) (hdr : Header) :
    ∃ v, restartConsensus W c.partyID c.config (c.indexedBADB W hdr) c.storage genesisBlock = .ok v ∧
      (Harmless L hdr.num c v ↔ (c.TakesFragments → ∀ d ∈ digestsOf W hdr.availableCommonBlocks, d ∈ c.badb)) := by
  have hrecovers : Recovers W c := ((h.mono fun _ _ hcond => hcond.toRestartable).steady hboot).recovers
  have hwf : c.state.WellFormed W := h.wellFormed hboot
  refine ⟨_, hrecovers.restart hboot hrunning _, fun hharmless htakes d hd => ?_, fun hknown => ?_⟩
  · by_contra hnew
    have hadded : d ∈ c.indexedBADB W hdr := mem_append_right _ hd
    exact @Consensus.not_harmless W L c { c with badb := c.indexedBADB W hdr } _ d hwf htakes rfl rfl hnew hadded
      hharmless
  · refine harmless_of_simulateStateTransition _ fun requests => ?_
    by_cases htakes : c.TakesFragments
    · have hsame : ∀ d, d ∈ c.indexedBADB W hdr ↔ d ∈ c.badb := fun d =>
        mem_append.trans (or_iff_left_of_imp (hknown htakes d))
      simp only [simulateStateTransition, pruneKnown_congr hsame]
    · exact simulateStateTransition_of_not_takesFragments htakes requests

theorem Consensus.Computes.not_accepted {v : Consensus} {r r' requests metadata md} (hr : c.Computes L requests r)
    (hr' : v.Computes L requests r')
    (hc : c.state.WellFormed W) (hstate : v.state = c.state) (hframed : Framed requests)
    (hmd : W.viewMetadata.unmarshal metadata = .ok md) (hplan : r.plan W c md.latestSequence ≠ [])
    (hnil : r'.plan W v md.latestSequence = []) :
    ¬ ∃ reqInfos, v.verifyProposal L (r.proposal W c md.latestSequence (some metadata) requests) = .ok reqInfos := by
  rintro ⟨reqInfos, hverify⟩
  obtain ⟨d, r₂, ha, -⟩ := verifyProposal_iff_accepted.mp hverify
  obtain rfl := (decodes_proposal hc hframed hmd hr).unique ha.decodes
  obtain rfl := hr'.unique ha.computes
  obtain ⟨pb, hpb⟩ := Option.ne_none_iff_exists'.mp (mt getLast?_eq_none_iff.mp hplan)
  -- the state of the proposal leads on from its last block, that of the node from the last block before
  have hstates : r.nextState W c md.latestSequence = r'.state := by
    have heq : r.nextState W c md.latestSequence = r'.nextState W v md.latestSequence := ha.state_eq (hstate ▸ hc)
    rw [heq, nextState, hnil]
    rfl
  have hlast : W.blockHeader.unmarshal r'.state.appContext = .ok pb.header := by
    rw [← hstates, nextState, hpb]
    exact Codec.unmarshal_marshal _ _
  obtain ⟨_, _, -, -, hlast', -⟩ := hr'
  have hbefore := hr.unmarshal_last
  rw [← hstate, ha.computes.unmarshal_last] at hbefore
  have heq : pb.header = r.last := (Except.ok.inj (hlast.symm.trans hlast')).trans (Except.ok.inj hbefore)
  have hlt := lt_number_of_mem_plan (mem_of_getLast? hpb)
  rw [heq] at hlt
  exact lt_irrefl _ hlt

theorem fragments_of_no_events {s : State} {configSeq} (hpending : s.pending = []) :
    firstFragments (aggregateFragments (s.collected W configSeq []).extractBatchAttestationsFromPending.2) = [] := by
  have hnone : (s.collected W configSeq []).extractBatchAttestationsFromPending.2 = [] :=
    eq_nil_iff_forall_not_mem.mpr fun b hb => by
      have hmem := mem_pending_of_no_events (.inr hb)
      rw [hpending] at hmem
      cases hmem
  rw [hnone]
  rfl

end Crash

theorem regular_soleNode : Committing soleLib (Regular soleLib) (newBlock 0 []) ⟨soleNode, []⟩ := .start

def termComplaint : ControlEvent := .complaint ⟨⟨1, 0⟩, 1, [], "", 0⟩

/-- A crash in a decision on a complaint, which orders nothing. -/
theorem harmless_complaint : ∃ p hdr v,
    soleNode.assembleProposal soleLib (firstMetadata refWire) [termComplaint.bytes refWire] = .ok p ∧
      Header.deserialize refWire p.header = .ok hdr ∧
      restartConsensus refWire 1 soleNode.config (soleNode.indexedBADB refWire hdr) soleNode.storage (newBlock 0 []) =
        .ok v ∧ Harmless soleLib hdr.num soleNode v := by
  have hwf : soleNode.state.WellFormed refWire := genesisState_wellFormed _ _
  have hread : ControlEvent.fromBytes refWire (termComplaint.bytes refWire) = .ok termComplaint :=
    ControlEvent.fromBytes_bytes refWire trivial
  have hproposable : Proposable soleLib soleNode 1 (termComplaint.bytes refWire) := ⟨termComplaint, hread, .inl rfl⟩
  obtain ⟨r, hr⟩ := exists_computes hwf (forall_mem_singleton.mpr hproposable)
  obtain ⟨hfragments, hrs⟩ := hr.batches (requestsToControlEvents_eq_ok.mpr (.cons hread .nil))
  obtain ⟨v, hrestart, hiff⟩ := Committing.harmless_iff bootBlock_newBlock regular_soleNode rfl
    (r.header refWire soleNode 1)
  have hnone : digestsOf refWire (r.header refWire soleNode 1).availableCommonBlocks = [] := by
    rw [header, digestsOf_plan_of_nil hrs, hfragments]
    rfl
  refine ⟨_, _, v, Consensus.assembleProposal_eq_ok.mpr ⟨r, ⟨1⟩, hr, Codec.unmarshal_marshal _ _, rfl⟩,
    hr.deserialize_header hwf 1, hrestart, hiff.mpr fun _ d hd => ?_⟩
  rw [hnone] at hd
  cases hd

/-- **A node that cannot verify the decision it crashed in**: the first decision orders one batch. The node proposes
and accepts it; after a crash between `Index` and `Append` it leaves out the fragment of the batch, computes no block,
and rejects the proposal. -/
theorem indexed_decision_rejected : ∃ p hdr v, Committing soleLib (Regular soleLib) (newBlock 0 []) ⟨soleNode, []⟩ ∧
      soleNode.assembleProposal soleLib (firstMetadata refWire) (fragmentRequests refWire [firstBatchBy 1]) = .ok p ∧
      Header.deserialize refWire p.header = .ok hdr ∧ hdr.num = 1 ∧
      digestsOf refWire hdr.availableCommonBlocks = [[7]] ∧
      restartConsensus refWire 1 soleNode.config (soleNode.indexedBADB refWire hdr) soleNode.storage (newBlock 0 []) =
        .ok v ∧ (∃ reqInfos, soleNode.verifyProposal soleLib p = .ok reqInfos) ∧
      (¬ ∃ reqInfos, v.verifyProposal soleLib p = .ok reqInfos) ∧
      ¬ Harmless soleLib 1 soleNode v := by
  have hidle : Idle refWire soleNode := idle_genesisNode
  obtain ⟨s, -, r, hr, hfragments, hrs, -⟩ := @Idle.computes refWire soleLib _
    (firstBatchBy 1) hidle rfl rfl not_mem_nil
  have hmd : refWire.viewMetadata.unmarshal (refWire.viewMetadata.marshal ⟨1⟩) = .ok ⟨1⟩ := Codec.unmarshal_marshal _ _
  have hhdr := hr.deserialize_header hidle.wellFormed 1
  have hdigests : digestsOf refWire (r.header refWire soleNode 1).availableCommonBlocks = [[7]] := by
    rw [header, digestsOf_plan_of_nil hrs, hfragments]
    rfl
  have hplan : r.plan refWire soleNode 1 ≠ [] := (hidle.header hfragments hrs).1
  let v : Consensus := { soleNode with badb := soleNode.indexedBADB refWire (r.header refWire soleNode 1) }
  have hrestart : restartConsensus refWire 1 soleNode.config
      (soleNode.indexedBADB refWire (r.header refWire soleNode 1)) soleNode.storage (newBlock 0 []) = .ok v :=
    Recovers.restart (recovers_newConsensus bootBlock_newBlock) bootBlock_newBlock rfl _
  have hknown : (firstBatchBy 1).digest ∈ v.badb := mem_append_right _ (hdigests ▸ mem_singleton_self _)
  obtain ⟨r', hr', hrs', hfragments', -⟩ := @exists_computes_fragments refWire
    soleLib v hidle.wellFormed [firstBatchBy 1] []
    (pruneKnown_of_known (by simpa using hknown))
  have hnil : r'.plan refWire v 1 = [] := by
    rw [plan_of_nil hrs', hfragments', map_nil, fragments_of_no_events rfl]
    rfl
  have haccepted := (accepted_assembled_iff hidle.wellFormed framed_refWire hmd hr (SameView.refl _)).mpr
    ⟨_, verifyProposalRequests_permissive _ 1 rfl (by decide) (by decide)⟩
  have hrejected := hr.not_accepted hr' hidle.wellFormed rfl framed_refWire hmd hplan hnil
  exact ⟨_, _, v, regular_soleNode, Consensus.assembleProposal_eq_ok.mpr ⟨r, ⟨1⟩, hr, hmd, rfl⟩, hhdr, rfl, hdigests,
    hrestart, haccepted, hrejected, fun h => hrejected ((h.verify _ _ hhdr rfl).mpr haccepted)⟩

end Arma
