import Arma.Consensus.Reference

/-!
# The runs of the ordering service

Decision after decision a leader assembles a proposal from any requests whatever, and the decision on it is delivered.
Requests are not verified here; the runs are about what the blocks that `AssembleProposal` computes can hold, with every
event, config change and rotation allowed. `Recording` keeps what the decisions were made of, and its decisions meet a
condition; `Ordering` and `Meeting` forget the one or the other.

* `Inv`: the invariant of the runs. The BADB only keeps fragments out that come in; fragments that are pending stay.
  What makes it enough is that the pending fragments of the current config sequence are never a threshold by themselves
  (`Inv.under`): a group has a fragment that came in with it, and that one is of a digest the BADB did not have. The one
  thing that could change the threshold under the pending fragments is a config change, and that comes with another
  config sequence, of which nothing is pending.
-/

namespace Arma

open Arma.Lib List Computed PlannedBlock

/-- What a decision was made of. -/
structure Decided where
  header : Header
  /-- The fragments that stand for the batches it orders. -/
  fragments : List BAF
  configRequests : List ConfigRequest

abbrev Decided.blocks (d : Decided) : List Block := d.header.availableCommonBlocks

/-- **The runs** whose decisions all meet a condition, with a record of what the decisions were made of. A node that
waits for its administrator takes no further step. -/
inductive Recording {W : Wire} (L : ConfigLib W) (Q : PayloadCondition) (genesisBlock : Block) :
    List Decided → Consensus → Prop
  | start {partyID config} : Recording L Q genesisBlock [] (newConsensus W partyID config genesisBlock)
  | decide {log c c' metadata requests p hdr s attestations configRequests signatures reconfig}
      (hrun : Recording L Q genesisBlock log c) (hrunning : c.status = .running) (hcond : Q c requests)
      (hassemble : c.assembleProposal L metadata requests = .ok p)
      (hhdr : Header.deserialize W p.header = .ok hdr)
      (hsim : simulateStateTransition W c.badb c.state c.verificationSequence requests =
        .ok (s, attestations, configRequests))
      (hdeliver : c.deliver L p signatures = .ok (c', reconfig)) :
      Recording L Q genesisBlock (log ++ [⟨hdr, firstFragments attestations, configRequests⟩]) c'

/-- The runs, with the headers of their decisions in order. -/
def Ordering {W : Wire} (L : ConfigLib W) (past : List Header) (c : Consensus) : Prop :=
  ∃ genesisBlock log, Recording L anyPayload genesisBlock log c ∧ log.map (·.header) = past

/-- What is reached by decisions that all meet a condition. -/
def Meeting {W : Wire} (L : ConfigLib W) (Q : PayloadCondition) (c : Consensus) : Prop :=
  ∃ genesisBlock log, Recording L Q genesisBlock log c

/-- The transactions of the blocks of a decision: those of its batches, and one for its config block. -/
def blockCounts (fragments : List BAF) (configRequests : List ConfigRequest) : List Nat :=
  fragments.map (·.txCount.toNat) ++ if configRequests = [] then [] else [1]

/-- The block is one for the batch `k`: its ORDERER entry and its data hash name `k`. -/
def HasBatch (W : Wire) (block : Block) (k : BatchIDKey) : Prop :=
  ∃ header md raw m, block.header = some header ∧ block.metadata = some md ∧
    md[indexOrderer]? = some raw ∧ W.assemblerBlockMetadata.unmarshal raw = .ok m ∧
    m.shard = k.shard.toUInt32 ∧ m.primary = k.primary.toUInt32 ∧ m.sequence = k.seq ∧
    header.dataHash = k.digest

/-! ## The blocks of a plan -/

section Plan

variable {W : Wire} {num : DecisionNum} {count lastConfigBlockNum : Nat}

theorem isConfigBlock_create {pb : PlannedBlock} (h : pb.configTx = none) : isConfigBlock W (pb.create W) = false := by
  simp [isConfigBlock, create, h]

variable (i : Nat) (head : ChainHead) (bs : List BAF)

theorem dataBlocks_planData : dataBlocks W ((planData W num count lastConfigBlockNum i head bs).map (create W)) =
      (planData W num count lastConfigBlockNum i head bs).map (create W) := by
  refine filter_eq_self.mpr fun block hblock => ?_
  obtain ⟨pb, hpb, rfl⟩ := mem_map.mp hblock
  simp [isConfigBlock_create (planData_configTx hpb)]

/-- The data blocks of a plan are for the batches of their fragments, in order. -/
theorem forall₂_hasBatch : Forall₂ (HasBatch W)
      ((planData W num count lastConfigBlockNum i head bs).map (create W)) (bs.map batchIDKeyOf) := by
  induction bs generalizing i head with
  | nil => exact .nil
  | cons b bs ih =>
    have horderer : (createdMetadata W (plannedData W num count lastConfigBlockNum i head b).orderer
        lastConfigBlockNum)[indexOrderer]? = some (assemblerBlockMetadataToBytes W (batchIDKeyOf b)
          ⟨num, count, i⟩ (head.currentTXCount + b.txCount)) := rfl
    exact .cons ⟨_, _, _, _, rfl, rfl, horderer, Codec.unmarshal_marshal _ _, rfl, rfl, rfl, rfl⟩ (ih _ _)

theorem dataHashes_planData : ((planData W num count lastConfigBlockNum i head bs).map (create W)).map
      (fun ab => (ab.header.map (·.dataHash)).getD []) = bs.map (·.digest) := by
  induction bs generalizing i head with
  | nil => rfl
  | cons b bs ih =>
    rw [planData, map_cons, map_cons, ih]
    rfl

/-- The ORDERER entries of the blocks of a decision count on from the index and the transaction count before them. -/
theorem orderer_planFrom {i k head pb bs configRequests} (hcount : configRequests ≠ [] → count = i + bs.length + 1)
    (h : (planData W num count lastConfigBlockNum i head bs ++
      planConfig W num count (head.after W bs) configRequests)[k]? = some pb) :
    ∃ id, pb.orderer = assemblerBlockMetadataToBytes W id ⟨num, count, i + k⟩
      (head.currentTXCount + UInt64.ofNat ((blockCounts bs configRequests).take (k + 1)).sum) := by
  induction bs generalizing i k head with
  | nil =>
    cases configRequests with
    | nil => simp [planData, planConfig] at h
    | cons r rest =>
      obtain ⟨rfl, rfl⟩ : k = 0 ∧ plannedConfig W num count head r = pb := by
        simpa [planData, planConfig, getElem?_singleton] using h
      have hlast : count - 1 = i + 0 := by simp [hcount]
      exact ⟨configBatchID, by simp [plannedConfig, blockCounts, hlast]⟩
  | cons b bs ih =>
    cases k with
    | zero =>
      obtain rfl : plannedData W num count lastConfigBlockNum i head b = pb := by simpa [planData] using h
      exact ⟨batchIDKeyOf b, by simp [plannedData, blockCounts]⟩
    | succ k =>
      obtain ⟨id, hid⟩ := @ih (i + 1) k (head.next W b)
        (fun hne => by rw [hcount hne, length_cons]; omega) (by simpa [planData] using h)
      refine ⟨id, ?_⟩
      have hplace : i + 1 + k = i + (k + 1) := by omega
      have hsum : ((blockCounts (b :: bs) configRequests).take (k + 1 + 1)).sum =
          b.txCount.toNat + ((blockCounts bs configRequests).take (k + 1)).sum := by
        simp [blockCounts]
      rw [hid, hplace, hsum, UInt64.ofNat_add, UInt64.ofNat_toNat, ← UInt64.add_assoc]
      rfl

end Plan

section Computed

variable {W : Wire} {c : Consensus} {r : Computed} {num : DecisionNum}

theorem orderer_plan {k pb} (h : (r.plan W c num)[k]? = some pb) :
    ∃ id, pb.orderer = assemblerBlockMetadataToBytes W id ⟨num, r.count, k⟩
      (c.txCount + UInt64.ofNat ((blockCounts r.fragments r.configRequests).take (k + 1)).sum) := by
  have hcount : r.configRequests ≠ [] → r.count = 0 + r.fragments.length + 1 := by
    intro hne
    simp [Computed.count, hne]
  simpa [Consensus.chainHead] using orderer_planFrom hcount h

@[simp] theorem length_blockCounts : (blockCounts r.fragments r.configRequests).length = r.count := by
  unfold blockCounts Computed.count
  split <;> simp

theorem ordering_plan {k : Nat} {pb : PlannedBlock} (hnum : num ≠ 0) (h : (r.plan W c num)[k]? = some pb) :
    ∃ o, assemblerBatchIdOrderingInfoAndTxCountFromBlock W (pb.create W) = .ok o ∧
      o.info = ⟨num, (UInt32.ofNat r.count).toNat, (UInt32.ofNat k).toNat⟩ ∧
      o.txCount = c.txCount + UInt64.ofNat ((blockCounts r.fragments r.configRequests).take (k + 1)).sum := by
  obtain ⟨id, hid⟩ := orderer_plan h
  have hmetadata : (pb.create W).metadata = some (createdMetadata W pb.orderer pb.lastConfig) := rfl
  rw [hid] at hmetadata
  exact ⟨_, blockOrdering_create rfl hmetadata (.inr hnum), rfl, rfl⟩

theorem getLastTxCount_plan (hnum : num ≠ 0) (hne : r.plan W c num ≠ []) :
    getLastTxCountFromHeader W (r.header W c num) =
      .ok (c.txCount + UInt64.ofNat (blockCounts r.fragments r.configRequests).sum) := by
  obtain ⟨pb, hpb⟩ := Option.ne_none_iff_exists'.mp (mt getLast?_eq_none_iff.mp hne)
  have hlast : (r.header W c num).availableCommonBlocks.getLast? = some (pb.create W) := by
    simp [Computed.header, hpb]
  rw [getLast?_eq_getElem?] at hpb
  obtain ⟨o, ho, -, htx⟩ := ordering_plan hnum hpb
  have hpos : 0 < (r.plan W c num).length := length_pos_iff.mpr hne
  rw [Nat.sub_add_cancel hpos, length_plan, ← length_blockCounts, take_length] at htx
  rw [getLastTxCountFromHeader, hlast]
  simp only [ho, Outcome.orPanic_ok, Outcome.ok_bind, htx]
  rfl

end Computed

/-! ## One round -/

section Round

variable {W : Wire} {L : ConfigLib W} {badb : List Bytes} {s s' : State} {configSeq : ConfigSequence}
  {requests : BatchedRequests} {attestations : List (List BAF)} {configRequests : List ConfigRequest}

/-- The pending fragments of a config sequence are no threshold by themselves. -/
def State.UnderThresholdAt (s : State) (configSeq : ConfigSequence) : Prop :=
  ∀ b ∈ s.pending, b.configSequence = configSeq →
    votes (s.pending.filter (·.configSequence = configSeq)) (batchKeyOf b) b.digest < s.threshold.toNat

/-- **What is extracted came in**: a batch that reaches the threshold has a fragment among the events. -/
theorem exists_incoming {ces b} (hs : s.Sound) (hunder : s.UnderThresholdAt configSeq)
    (hb : b ∈ (s.collected W configSeq ces).extractBatchAttestationsFromPending.2) :
    ∃ b' ∈ incoming configSeq ces, b'.digest = b.digest := by
  obtain ⟨-, hvotes⟩ := State.mem_extracted.mp hb
  rw [State.collected_threshold, State.collected_pending, votes_append] at hvotes
  set old := s.pending.filter (·.configSequence = configSeq) with hold
  -- the old fragments alone are below the threshold, whether there are any or not
  have hlt : votes old (batchKeyOf b) b.digest < s.threshold.toNat := by
    by_cases hpos : 0 < votes old (batchKeyOf b) b.digest
    · obtain ⟨b₀, hb₀, hkey, hdigest⟩ := votes_pos.mp hpos
      obtain ⟨hmem, hseq⟩ := mem_filter.mp hb₀
      have h₀ := hunder b₀ hmem (by simpa using hseq)
      rwa [hkey, hdigest] at h₀
    · have := hs.threshold_pos
      omega
  set new := (incoming configSeq ces).filter (State.Fresh s.shards (old.map attestationKeyOf) ·)
  have hpos : 0 < votes new (batchKeyOf b) b.digest := by omega
  obtain ⟨b', hb', -, hdigest⟩ := votes_pos.mp hpos
  exact ⟨b', (mem_filter.mp hb').1, hdigest⟩

theorem digest_not_mem_of_incoming {ces b} (h : b ∈ incoming configSeq (pruneKnown badb ces)) : b.digest ∉ badb := by
  obtain ⟨ce, hce, hbaf⟩ := mem_filterMap.mp (mem_filter.mp h).1
  cases ce with
  | baf b' =>
    obtain rfl : b' = b := by simpa using hbaf
    simpa using (mem_filter.mp hce).2
  | complaint | configRequest | assemblerReport => simp at hbaf

/-- **A round orders no digest that the BADB knows.** -/
theorem firstFragments_digest (hs : s.Sound) (hunder : s.UnderThresholdAt configSeq)
    (hsim : simulateStateTransition W badb s configSeq requests = .ok (s', attestations, configRequests)) :
    ∀ b ∈ firstFragments attestations, b.digest ∉ badb := by
  obtain ⟨ces, extracted, -, hp, rfl⟩ := simulateStateTransition_eq_ok.mp hsim
  obtain ⟨-, rfl, -⟩ := State.process_frame hp
  intro b hb
  obtain ⟨g, hg, hhead⟩ := mem_firstFragments.mp hb
  obtain ⟨b₀, hb₀, rfl⟩ := mem_aggregateFragments.mp hg
  have hbmem := (mem_filter.mp (mem_of_head? hhead)).1
  obtain ⟨b', hb', hdigest⟩ := exists_incoming hs hunder hbmem
  exact hdigest ▸ digest_not_mem_of_incoming hb'

section

variable (hsim : simulateStateTransition W badb s configSeq requests = .ok (s', attestations, configRequests))
include hsim

/-- After a round nothing is pending but fragments of its config sequence, and no threshold of them. -/
theorem simulateStateTransition_pending : (∀ b ∈ s'.pending, b.configSequence = configSeq) ∧ s'.UnderThreshold := by
  obtain ⟨ces, extracted, -, hp, -⟩ := simulateStateTransition_eq_ok.mp hsim
  exact ⟨State.process_configSequence hp, State.process_underThreshold hp⟩

theorem nodup_batches : ((firstFragments attestations).map batchIDKeyOf).Nodup := by
  obtain ⟨ces, extracted, -, -, rfl⟩ := simulateStateTransition_eq_ok.mp hsim
  exact nodup_firstFragments _

end

end Round

/-! ## One decision -/

section Decision

variable {W : Wire} {L : ConfigLib W} {c c' : Consensus} {r : Computed} {num : DecisionNum}
  {requests : BatchedRequests}

theorem lt_number_of_mem_plan {pb} (h : pb ∈ r.plan W c num) : r.last.number < pb.header.number := by
  obtain ⟨k, hk⟩ := mem_iff_getElem?.mp h
  rw [number_plan hk]
  omega

/-- The config block is the last one, and carries the first config request. -/
theorem NewConfig.configRequest {header : BlockHeader} {envelope hdr}
    (hblocks : hdr.availableCommonBlocks = (r.plan W c num).map (create W))
    (hnew : NewConfig W c hdr header envelope) : ∃ configRequest rest, r.configRequests = configRequest :: rest ∧
      envelope = configRequest.envelope ∧ header = (plannedConfig W num r.count (r.dataHead W c) configRequest).header ∧
      isConfigBlock W ((plannedConfig W num r.count (r.dataHead W c) configRequest).create W) = true := by
  obtain ⟨block, tx, hlast, hheader, hconfig, hdata, henvelope⟩ := hnew.block
  rw [hblocks, getLast?_map] at hlast
  obtain ⟨pb, hpb, rfl⟩ := Option.map_eq_some_iff.mp hlast
  cases hrs : r.configRequests with
  | nil =>
    rw [plan_of_nil hrs] at hpb
    rw [isConfigBlock_create (planData_configTx (mem_of_getLast? hpb))] at hconfig
    cases hconfig
  | cons configRequest rest =>
    rw [plan_of_cons hrs, getLast?_concat] at hpb
    cases hpb
    obtain rfl : W.envelope.marshal configRequest.envelope = tx := by
      simpa [create, plannedConfig] using hdata
    rw [Codec.unmarshal_marshal] at henvelope
    exact ⟨configRequest, rest, rfl, (Except.ok.inj henvelope).symm, (Option.some.inj hheader).symm, hconfig⟩

end Decision

/-! ## The invariant -/

section Invariant

variable {W : Wire} {L : ConfigLib W} {past : List Header} {c c' : Consensus} {p : Proposal}
  {metadata : Option Bytes} {requests : BatchedRequests} {hdr : Header} {r : Computed}
  {signatures : List Signature} {reconfig : Reconfig} {Q : PayloadCondition} {genesisBlock : Block} {log : List Decided}

/-- What holds of a node after the decisions `past`. -/
structure Inv (W : Wire) (past : List Header) (c : Consensus) : Prop where
  wellFormed : c.state.WellFormed W
  indexed : ∀ hdr ∈ past, ∀ d ∈ digestsOf W hdr.availableCommonBlocks, d ∈ c.badb
  under : c.status = .running → c.state.UnderThresholdAt c.verificationSequence
  lastConfig : ∃ header, c.state.appContext = W.blockHeader.marshal header ∧ c.lastConfigBlockNum ≤ header.number

theorem assembled_header (hc : c.state.WellFormed W) (hassemble : c.assembleProposal L metadata requests = .ok p)
    (hhdr : Header.deserialize W p.header = .ok hdr) : ∃ r num, c.Computes L requests r ∧ hdr = r.header W c num := by
  obtain ⟨r, md, hr, -, rfl⟩ := Consensus.assembleProposal_eq_ok.mp hassemble
  rw [Computed.proposal, hr.deserialize_header hc] at hhdr
  exact ⟨r, md.latestSequence, hr, (Except.ok.inj hhdr).symm⟩

theorem Delivered.isConfigBlock_planned {num s configRequest rest}
    (hd : Delivered L c p (r.header W c num) s signatures c')
    (hrs : r.configRequests = configRequest :: rest) :
    isConfigBlock W ((plannedConfig W num r.count (r.dataHead W c) configRequest).create W) = true := by
  have hblocks : (r.header W c num).availableCommonBlocks = (r.plan W c num).map (create W) := rfl
  rcases hd.config with ⟨-, hold⟩ | ⟨header, envelope, hnew, -⟩
  · obtain ⟨block, header, hlast, -, hconfig, -⟩ := hold (by
      simp [Computed.header, Consensus.nextDecisionNumOfLastConfigBlock, hrs])
    rw [hblocks, plan_of_cons hrs, map_append, map_singleton, getLast?_concat] at hlast
    exact Option.some.inj hlast ▸ hconfig
  · obtain ⟨configRequest', rest', hrs', -, -, hconfig⟩ := hnew.configRequest hblocks
    rw [hrs] at hrs'
    cases hrs'
    exact hconfig

/-- The data blocks of a delivered decision are those planned for its fragments. -/
theorem Delivered.dataBlocks_eq {num : DecisionNum} {s} (hd : Delivered L c p (r.header W c num) s signatures c') :
    dataBlocks W (r.header W c num).availableCommonBlocks =
      (planData W num r.count c.lastConfigBlockNum 0 (c.chainHead W r.last) r.fragments).map (create W) := by
  have hblocks : (r.header W c num).availableCommonBlocks = (r.plan W c num).map (create W) := rfl
  cases hrs : r.configRequests with
  | nil => rw [hblocks, plan_of_nil hrs, dataBlocks_planData]
  | cons configRequest rest =>
    rw [hblocks, plan_of_cons hrs, map_append, map_singleton]
    unfold dataBlocks
    rw [filter_append, filter_singleton]
    simp only [hd.isConfigBlock_planned hrs]
    simpa using fun pb hpb => isConfigBlock_create (planData_configTx hpb)

/-- **The digests of a delivered decision** are those of its fragments. -/
theorem Delivered.digestsOf_eq {num s} (hd : Delivered L c p (r.header W c num) s signatures c') :
    digestsOf W (r.header W c num).availableCommonBlocks = r.fragments.map (·.digest) := by
  rw [digestsOf, hd.dataBlocks_eq, dataHashes_planData]

theorem nextState_appContext (hc : c.state.WellFormed W) (hr : c.Computes L requests r) :
    (r.nextState W c num).appContext =
      W.blockHeader.marshal (((r.plan W c num).map (·.header)).getLast?.getD r.last) := by
  obtain ⟨last, happ⟩ := hc.appContext
  have hlast := hr.last_eq happ
  obtain ⟨s, attestations, hsim, happly, -, -⟩ := hr
  obtain ⟨-, -, -, happ'⟩ := simulateStateTransition_frame hsim
  obtain ⟨-, happ''⟩ := applyConfigRequests_frame happly
  rw [Computed.nextState, getLast?_map]
  cases (r.plan W c num).getLast? with
  | none =>
    rw [hlast]
    exact happ''.trans (happ'.trans happ)
  | some pb => rfl

/-- The app context points to a block that is not before the last config block; to the last block of the decision, if it
has blocks. -/
theorem nextState_lastConfig (hinv : Inv W past c) (hr : c.Computes L requests r) {num} :
    ∃ header, (r.nextState W c num).appContext = W.blockHeader.marshal header ∧ c.lastConfigBlockNum ≤ header.number ∧
      ∀ pb, (r.plan W c num).getLast? = some pb → header = pb.header := by
  obtain ⟨header, happ, hle⟩ := hinv.lastConfig
  have hlast := hr.last_eq happ
  refine ⟨_, nextState_appContext hinv.wellFormed hr, ?_, ?_⟩
  · rw [getLast?_map, hlast]
    cases hpb : (r.plan W c num).getLast? with
    | none => exact hle
    | some pb =>
      have hlt := lt_number_of_mem_plan (mem_of_getLast? hpb)
      rw [hlast] at hlt
      exact hle.trans hlt.le
  · intro pb hpb
    rw [getLast?_map, hpb]
    rfl

/-- A decision without a new config has no config request: the number of a config block is a new one. -/
theorem OldConfig.configRequests_eq_nil (hinv : Inv W past c) {num}
    (hr : c.Computes L requests r) (hold : OldConfig W c (r.header W c num)) : r.configRequests = [] := by
  cases hrs : r.configRequests with
  | nil => rfl
  | cons configRequest rest =>
    obtain ⟨block, header, hlast, hheader, -, hle⟩ := hold (by
      simp [Computed.header, Consensus.nextDecisionNumOfLastConfigBlock, hrs])
    have hplan : r.plan W c num = _ := plan_of_cons hrs
    have hblock : (r.header W c num).availableCommonBlocks.getLast? =
        some ((plannedConfig W num r.count (r.dataHead W c) configRequest).create W) := by
      rw [Computed.header, hplan, map_append, map_singleton, getLast?_concat]
    cases hblock.symm.trans hlast
    cases hheader
    have hlt := lt_number_of_mem_plan (W := W) (c := c)
      (show plannedConfig W num r.count (r.dataHead W c) configRequest ∈ r.plan W c num by
        simp [hplan])
    obtain ⟨last, happ, hlast⟩ := hinv.lastConfig
    rw [hr.last_eq happ] at hlt
    omega

theorem Reconfigured.verificationSequence {num header envelope} (hr : c.Computes L requests r)
    (hnew : NewConfig W c (r.header W c num) header envelope)
    (hre : Reconfigured L c c' (r.header W c num) header envelope) (hrunning : c'.status = .running) :
    c'.verificationSequence = c.verificationSequence + 1 := by
  obtain ⟨configRequest, rest, hrs, rfl, -, -⟩ := hnew.configRequest rfl
  obtain ⟨s, attestations, hsim, -⟩ := hr
  have hseq := simulateStateTransition_configRequests hsim configRequest (by simp [hrs])
  rw [Consensus.verificationSequence, (hre.config hrunning).1]
  exact L.nodeConfig_sequence _ _ hseq

/-- **One decision** keeps the invariant. -/
theorem Inv.decide (hinv : Inv W past c) {num} (hr : c.Computes L requests r)
    (hd : Delivered L c p (r.header W c num) (r.nextState W c num) signatures c') :
    Inv W (past ++ [r.header W c num]) c' := by
  obtain ⟨header, happ, hle, hheader⟩ := @nextState_lastConfig W L past c requests r hinv hr num
  have hwf := hr.wellFormed hinv.wellFormed num
  obtain ⟨s, attestations, hsim, happly, -, -⟩ := id hr
  obtain ⟨hseq, hunder⟩ := simulateStateTransition_pending hsim
  have hpending : c'.state.pending = s.pending := by
    rw [hd.state, Computed.nextState, setAppContext_pending, (applyConfigRequests_frame happly).1]
  refine ⟨hd.state ▸ hwf, ?_, ?_, ?_⟩
  · intro hdr hmem d hdigest
    rw [hd.badb, index, mem_append]
    rcases mem_append.mp hmem with hmem | hmem
    · exact Or.inl (hinv.indexed hdr hmem d hdigest)
    · exact Or.inr (mem_singleton.mp hmem ▸ hdigest)
  · intro hrunning b hb hbseq
    rw [hpending] at hb ⊢
    rcases hd.config with ⟨hsame, hold⟩ | ⟨header', envelope, hnew, hre⟩
    · have hnil := OldConfig.configRequests_eq_nil hinv hr hold
      have hthreshold : c'.state.threshold = s.threshold := by
        rw [hnil] at happly
        rw [hd.state, Computed.nextState, ← Except.ok.inj happly]
        cases (r.plan W c num).getLast? <;> rfl
      rw [hthreshold]
      exact lt_of_le_of_lt (votes_filter_le _ _ _ _) (hunder b hb)
    · -- nothing is pending of the new config sequence
      rw [hre.verificationSequence hr hnew hrunning, hseq b hb] at hbseq
      exact absurd hbseq (by simp)
  · refine ⟨header, hd.state ▸ happ, ?_⟩
    rcases hd.config with ⟨hsame, -⟩ | ⟨header', envelope, hnew, hre⟩
    · rw [hsame.lastConfigBlockNum]
      exact hle
    · obtain ⟨configRequest, rest, hrs, -, rfl, -⟩ := hnew.configRequest rfl
      have hlast : (r.plan W c num).getLast? = some (plannedConfig W num r.count (r.dataHead W c) configRequest) := by
        rw [plan_of_cons hrs, getLast?_concat]
      rw [hre.lastConfigBlockNum, hheader _ hlast]

/-- The record of the decision on what a node computes. -/
def Computed.decided (W : Wire) (c : Consensus) (r : Computed) (num : DecisionNum) : Decided :=
  ⟨r.header W c num, r.fragments, r.configRequests⟩

/-- **The rule of the runs**: what holds at a genesis block and is kept by every decision of a running node holds after
every run. -/
@[elab_as_elim] theorem Recording.rule {motive : List Decided → Consensus → Prop} (h : Recording L Q genesisBlock log c)
    (start : ∀ partyID config, motive [] (newConsensus W partyID config genesisBlock))
    (decide : ∀ {log c c' p requests r num signatures reconfig}, Inv W (log.map (·.header)) c → c.status = .running →
      Q c requests → c.Computes L requests r → Header.deserialize W p.header = .ok (r.header W c num) →
      c.deliver L p signatures = .ok (c', reconfig) → motive log c → motive (log ++ [r.decided W c num]) c') :
    motive log c := by
  suffices Inv W (log.map (·.header)) c ∧ motive log c from this.2
  induction h with
  | start =>
    refine ⟨⟨genesisState_wellFormed _ genesisBlock, by simp, fun _ b hb => ?_, ⟨_, rfl, Nat.zero_le _⟩⟩, start _ _⟩
    exact absurd hb not_mem_nil
  | decide _ hrunning hcond hassemble hhdr hsim hdeliver ih =>
    obtain ⟨hinv, hkept⟩ := ih
    obtain ⟨r, num, hr, rfl⟩ := assembled_header hinv.wellFormed hassemble hhdr
    obtain ⟨s, attestations, hsim', -, -, hfragments⟩ := id hr
    obtain ⟨-, rfl, hconfigs⟩ : _ ∧ _ ∧ _ := by simpa using hsim.symm.trans hsim'
    rw [← hfragments, hconfigs, map_append]
    exact ⟨hinv.decide hr (Consensus.delivered_of_deliver hhdr rfl hdeliver),
      decide hinv hrunning hcond hr hhdr hdeliver hkept⟩

end Invariant

end Arma
