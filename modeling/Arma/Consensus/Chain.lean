import Mathlib.Data.List.Chain
import Mathlib.Data.List.Flatten
import Arma.Consensus.Once
import Arma.Consensus.Pending

/-!
# The decisions spell one chain of blocks

The blocks of all decisions, one after another, are the chain that the assemblers write. What the next decision adds to
it is threaded through four places: the header of the last block is in the app context of the state, the transaction
count and the number of the last config block are variables of the node, and the decision number is the height of its
ledger. `AssembleProposal` reads them, `Deliver` updates them.

* `isChain_plan`, `orderer_plan`, `lastConfig_plan`: the blocks of one decision, on top of what the node knows.
* **`Recording.oneChain`**: they are, in the runs whose decisions keep the transaction count (`CountKept`).
* `count_forgotten`: a decision that ends with a transaction count of 0, which `Deliver` takes for "no blocks".
-/

namespace Arma

open Arma.Lib List Computed

/-- A header that comes right after another in a chain. -/
def Follows (W : Wire) (h h' : BlockHeader) : Prop :=
  h'.number = h.number + 1 ∧ h'.previousHash = W.blockHeaderHash h

/-- The number of the last config block among these blocks; block 0 is one. -/
def latestConfig (W : Wire) (blocks : List Block) : Nat :=
  (((blocks.filter (isConfigBlock W)).getLast?.bind (·.header)).map (·.number)).getD 0

/-! ## The blocks of one decision -/

section Plan

variable {W : Wire} {num : DecisionNum} {count lastConfigBlockNum : Nat}

/-- The blocks of a decision follow one another, and the first one the header on top of which they are planned. -/
theorem isChain_planFrom {i head last} (bs : List BAF) (configRequests) (hnum : head.lastBlockNumber = last.number)
    (hhash : head.prevHash = W.blockHeaderHash last) :
    IsChain (Follows W) (last :: (planData W num count lastConfigBlockNum i head bs ++
      planConfig W num count (head.after W bs) configRequests).map (·.header)) := by
  induction bs generalizing i head last with
  | nil =>
    cases configRequests with
    | nil => exact .singleton _
    | cons r rest =>
      refine isChain_pair.mpr ⟨?_, hhash⟩
      simp only [plannedConfig, ChainHead.after_nil, hnum]
  | cons b bs ih =>
    refine isChain_cons_cons.mpr ⟨⟨?_, hhash⟩, ih rfl rfl⟩
    simp only [plannedData, ChainHead.header, hnum]

end Plan

section Computed

variable {W : Wire} {L : ConfigLib W} {c : Consensus} {r : Computed} {num : DecisionNum} {requests : BatchedRequests}

theorem isChain_plan : IsChain (Follows W) (r.last :: (r.plan W c num).map (·.header)) :=
  isChain_planFrom _ _ rfl rfl

end Computed

/-! ## The latest config block -/

section LatestConfig

variable {W : Wire}

theorem latestConfig_append_data {blocks data} (h : ∀ b ∈ data, isConfigBlock W b = false) :
    latestConfig W (blocks ++ data) = latestConfig W blocks := by
  have hnone : data.filter (isConfigBlock W) = [] := filter_eq_nil_iff.mpr fun b hb => by simp [h b hb]
  rw [latestConfig, filter_append, hnone, append_nil]
  rfl

theorem latestConfig_concat {blocks b header} (hconfig : isConfigBlock W b = true) (hheader : b.header = some header) :
    latestConfig W (blocks ++ [b]) = header.number := by
  rw [latestConfig, filter_append, filter_singleton, hconfig]
  simp [hheader]

end LatestConfig

/-! ## The runs -/

def blocksOf (log : List Decided) : List Block := log.flatMap (·.blocks)

/-- The transactions of the blocks of all decisions. -/
def countsOf (log : List Decided) : List Nat := log.flatMap fun d => blockCounts d.fragments d.configRequests

/-- The header of block 0, as the node makes it of the data of the genesis block. -/
def genesisHeader (W : Wire) (genesisBlock : Block) : BlockHeader := ⟨0, [], W.digest (genesisBlock.data.getD [])⟩

/-- **The blocks of the decisions are one chain**, on top of the genesis block, and the state of the node points to its
end. -/
structure OneChain (W : Wire) (genesisBlock : Block) (log : List Decided) (c : Consensus) : Prop where
  /-- Numbers and hashes run on from block to block, and the app context is the header of the last one. -/
  linked : ∃ headers, (blocksOf log).map (·.header) = headers.map some ∧
    IsChain (Follows W) (genesisHeader W genesisBlock :: headers) ∧
    c.state.appContext = W.blockHeader.marshal (headers.getLast?.getD (genesisHeader W genesisBlock))
  /-- The transaction count of a block is that of all blocks up to it, as a `uint64`. -/
  counted : ∀ n b, (blocksOf log)[n]? = some b → ∃ o, assemblerBatchIdOrderingInfoAndTxCountFromBlock W b = .ok o ∧
      o.txCount = UInt64.ofNat (1 + ((countsOf log).take (n + 1)).sum)
  /-- A block points to the latest config block up to it. -/
  configured : ∀ n b, (blocksOf log)[n]? = some b → ∃ md, b.metadata = some md ∧
    LastConfigIs W md (latestConfig W ((blocksOf log).take (n + 1)))
  /-- A block tells its decision, its index there and the number of blocks. -/
  placed : ∀ k d, log[k]? = some d → ∀ i b, d.blocks[i]? = some b → ∃ o,
    assemblerBatchIdOrderingInfoAndTxCountFromBlock W b = .ok o ∧ o.info = ⟨k + 1, d.blocks.length, i⟩

/-- A block of an earlier decision, or with a smaller index in the same one. -/
def Before (W : Wire) (b b' : Block) : Prop :=
  ∃ o o', assemblerBatchIdOrderingInfoAndTxCountFromBlock W b = .ok o ∧
    assemblerBatchIdOrderingInfoAndTxCountFromBlock W b' = .ok o' ∧
    (o.info.decisionNum < o'.info.decisionNum ∨
      o.info.decisionNum = o'.info.decisionNum ∧ o.info.batchIndex < o'.info.batchIndex)

/-- The fragments that stand for the batches with a threshold of votes among `l`. -/
def orderedBatches (threshold : Nat) (l : List BAF) : List BAF :=
  firstFragments (aggregateFragments (l.filter fun b => threshold ≤ votes l (batchKeyOf b) b.digest))

/-- The decision on these requests keeps the transaction count: the batches that reach the threshold do not bring it to
0 from another value, in `uint64` arithmetic, in a decision without a config request. And the decision has less than
`2 ^ 32` blocks, so that their indices can be told apart. -/
def CountKept (W : Wire) : PayloadCondition := fun c requests =>
  ∀ ces, requestsToControlEvents W requests = .ok ces →
    let events := pruneKnown c.badb ces
    let batches := orderedBatches c.state.threshold.toNat (c.state.roundFragments c.verificationSequence events)
    let configRequests := State.extractConfigRequests (filterCEsWithDiffConfigSeq W c.verificationSequence events).1
    (blockCounts batches configRequests).length < 2 ^ 32 ∧
      (configRequests = [] → c.txCount + UInt64.ofNat (blockCounts batches configRequests).sum = 0 → c.txCount = 0)

/-! ## One decision -/

section Decision

variable {W : Wire} {L : ConfigLib W} {past : List Header} {c c' : Consensus} {p : Proposal}
  {requests : BatchedRequests} {r : Computed} {num : DecisionNum} {signatures : List Signature} {before : List Block}

theorem isConfigBlock_planData {i head count lastConfigBlockNum bs b}
    (h : b ∈ (planData W num count lastConfigBlockNum i head bs).map (PlannedBlock.create W)) :
    isConfigBlock W b = false := by
  obtain ⟨pb, hpb, rfl⟩ := mem_map.mp h
  exact isConfigBlock_create (planData_configTx hpb)

/-- A block of a delivered decision points to the latest config block up to it. -/
theorem Delivered.lastConfig_plan (hd : Delivered L c p (r.header W c num) (r.nextState W c num) signatures c')
    (hbefore : c.lastConfigBlockNum = latestConfig W before) {k pb} (h : (r.plan W c num)[k]? = some pb) :
    pb.lastConfig = latestConfig W (before ++ ((r.plan W c num).map (PlannedBlock.create W)).take (k + 1)) := by
  rcases getElem?_plan h with ⟨hdata, -⟩ | ⟨configRequest, rest, hrs, hk, -, rfl⟩
  · obtain ⟨b, -, i, head, rfl⟩ := mem_planData (mem_of_getElem? hdata)
    have hlt : k + 1 ≤ r.fragments.length := by
      have := lt_of_getElem? hdata
      rwa [length_planData] at this
    rw [latestConfig_append_data, ← hbefore]
    · rfl
    · intro block hblock
      rw [Computed.plan, map_append, take_append_of_le_length (by simpa using hlt)] at hblock
      exact isConfigBlock_planData (mem_of_mem_take hblock)
  · have hall : r.fragments.length + 1 = ((r.plan W c num).map (PlannedBlock.create W)).length := by
      simp [Computed.count, hrs]
    rw [hk, hall, take_length, plan_of_cons hrs, map_append, map_singleton,
      ← append_assoc, latestConfig_concat (hd.isConfigBlock_planned hrs) rfl]
    rfl

theorem Delivered.lastConfigBlockNum_eq (hinv : Inv W past c) (hr : c.Computes L requests r)
    (hd : Delivered L c p (r.header W c num) (r.nextState W c num) signatures c')
    (hbefore : c.lastConfigBlockNum = latestConfig W before) :
    c'.lastConfigBlockNum = latestConfig W (before ++ (r.plan W c num).map (PlannedBlock.create W)) := by
  rcases hd.config with ⟨hsame, hold⟩ | ⟨header, envelope, hnew, hre⟩
  · have hnil := OldConfig.configRequests_eq_nil hinv hr hold
    rw [hsame.lastConfigBlockNum, hbefore, plan_of_nil hnil]
    exact (latestConfig_append_data fun b hb => isConfigBlock_planData hb).symm
  · obtain ⟨configRequest, rest, hrs, -, hheader, hconfig⟩ := hnew.configRequest rfl
    rw [hre.lastConfigBlockNum, plan_of_cons hrs, map_append, map_singleton,
      ← append_assoc, latestConfig_concat hconfig rfl, hheader]

/-- **The transaction count after a decision** is that of its last block, unless that is 0. -/
theorem txCount_deliver (hinv : Inv W past c) (hr : c.Computes L requests r) (hnum : num ≠ 0)
    (hne : c.storage ≠ []) (hhdr : Header.deserialize W p.header = .ok (r.header W c num))
    {reconfig} (hdeliver : c.deliver L p signatures = .ok (c', reconfig)) (hkept : r.configRequests = [] →
      c.txCount + UInt64.ofNat (blockCounts r.fragments r.configRequests).sum = 0 → c.txCount = 0)
    (hrunning : c'.status = .running) :
    c'.txCount = c.txCount + UInt64.ofNat (blockCounts r.fragments r.configRequests).sum := by
  obtain ⟨t, ht, hcases⟩ := Consensus.deliver_txCount hne hhdr rfl hdeliver
  by_cases hplan : r.plan W c num = []
  · have hcounts : blockCounts r.fragments r.configRequests = [] := by
      rw [← length_eq_zero_iff, length_blockCounts, ← length_plan W c r num, hplan]
      rfl
    have hnil : (r.header W c num).availableCommonBlocks = [] := by simp [Computed.header, hplan]
    obtain rfl : t = 0 := by
      rw [getLastTxCountFromHeader, hnil] at ht
      exact (Except.ok.inj ht).symm
    rcases hcases with ⟨hblocks, -⟩ | ⟨htx, -⟩
    · exact absurd hnil hblocks
    · simpa [hcounts] using htx
  · rw [getLastTxCount_plan hnum hplan] at ht
    cases ht
    rcases hcases with ⟨-, htx⟩ | ⟨htx, hold⟩
    · exact htx
    · have hnil := OldConfig.configRequests_eq_nil hinv hr (hold hrunning)
      rw [htx]
      split
      · rfl
      · rename_i hzero
        have hzero : c.txCount + UInt64.ofNat (blockCounts r.fragments r.configRequests).sum = 0 := by
          simpa [UInt64.pos_iff_ne_zero] using hzero
        rw [hzero, hkept hnil hzero]

end Decision

/-! ## The runs -/

section Runs

variable {W : Wire} {L : ConfigLib W} {Q : PayloadCondition} {genesisBlock : Block} {log : List Decided}
  {past : List Header} {c c' : Consensus} {p : Proposal} {requests : BatchedRequests} {r : Computed}
  {num : DecisionNum} {signatures : List Signature}

@[simp] theorem blocksOf_concat (d : Decided) : blocksOf (log ++ [d]) = blocksOf log ++ d.blocks := by
  simp [blocksOf]

@[simp] theorem countsOf_concat (d : Decided) :
    countsOf (log ++ [d]) = countsOf log ++ blockCounts d.fragments d.configRequests := by
  simp [countsOf]

theorem Consensus.Computes.batches {ces} (hr : c.Computes L requests r)
    (hces : requestsToControlEvents W requests = .ok ces) : r.fragments = orderedBatches c.state.threshold.toNat
        (c.state.roundFragments c.verificationSequence (pruneKnown c.badb ces)) ∧
      r.configRequests = State.extractConfigRequests
        (filterCEsWithDiffConfigSeq W c.verificationSequence (pruneKnown c.badb ces)).1 := by
  obtain ⟨s, attestations, hsim, -, -, hfragments⟩ := hr
  obtain ⟨ces', extracted, hces', hp, rfl⟩ := simulateStateTransition_eq_ok.mp hsim
  cases hces.symm.trans hces'
  obtain ⟨-, rfl, hconfigs⟩ := State.process_frame hp
  refine ⟨?_, hconfigs⟩
  rw [hfragments, State.extracted_eq, State.collected_threshold, State.collected_pending]
  rfl

theorem countKept_iff (hr : c.Computes L requests r) :
    CountKept W c requests ↔ r.count < 2 ^ 32 ∧ (r.configRequests = [] →
      c.txCount + UInt64.ofNat (blockCounts r.fragments r.configRequests).sum = 0 → c.txCount = 0) := by
  obtain ⟨ces, extracted, hces, -, -⟩ := simulateStateTransition_eq_ok.mp hr.choose_spec.choose_spec.1
  obtain ⟨hfragments, hconfigs⟩ := hr.batches hces
  rw [← length_blockCounts, hfragments, hconfigs]
  constructor
  · exact fun h => h ces hces
  · intro h ces' hces'
    cases hces.symm.trans hces'
    exact h

/-- What holds of a node, beside the chain, after the decisions that are recorded. -/
structure ChainInv (W : Wire) (genesisBlock : Block) (log : List Decided) (c : Consensus) : Prop
    extends OneChain W genesisBlock log c where
  height : c.storage.length = log.length + 1
  lengths : (countsOf log).length = (blocksOf log).length
  lastConfigBlockNum : c.lastConfigBlockNum = latestConfig W (blocksOf log)
  txCount : c.status = .running → c.txCount = UInt64.ofNat (1 + (countsOf log).sum)

theorem Computed.decided_blocks : (r.decided W c num).blocks = (r.plan W c num).map (PlannedBlock.create W) := rfl

theorem OneChain.linked_decide (hc : OneChain W genesisBlock log c) (hwf : c.state.WellFormed W)
    (hr : c.Computes L requests r) :
    ∃ headers, (blocksOf (log ++ [r.decided W c num])).map (·.header) = headers.map some ∧
      IsChain (Follows W) (genesisHeader W genesisBlock :: headers) ∧ (r.nextState W c num).appContext =
        W.blockHeader.marshal (headers.getLast?.getD (genesisHeader W genesisBlock)) := by
  obtain ⟨headers, hheaders, hchain, happ⟩ := hc.linked
  have hlast := hr.last_eq happ
  refine ⟨headers ++ (r.plan W c num).map (·.header), ?_, ?_, ?_⟩
  · rw [blocksOf_concat, map_append, hheaders, map_append, decided_blocks, map_map, map_map]
    rfl
  · obtain ⟨hfirst, hrest⟩ := isChain_cons.mp (@isChain_plan W c r num)
    rw [← cons_append]
    refine isChain_append.mpr ⟨hchain, hrest, ?_⟩
    intro x hx y hy
    rw [getLast?_cons, Option.mem_def] at hx
    cases hx
    exact hlast ▸ hfirst y hy
  · rw [nextState_appContext hwf hr, getLast?_append, hlast]
    cases ((r.plan W c num).map (·.header)).getLast? <;> rfl

theorem ChainInv.counted_decide (hc : ChainInv W genesisBlock log c) (hrunning : c.status = .running) (hnum : num ≠ 0) :
    ∀ n b, (blocksOf (log ++ [r.decided W c num]))[n]? = some b → ∃ o,
      assemblerBatchIdOrderingInfoAndTxCountFromBlock W b = .ok o ∧
        o.txCount = UInt64.ofNat (1 + ((countsOf (log ++ [r.decided W c num])).take (n + 1)).sum) := by
  rw [blocksOf_concat, countsOf_concat]
  refine forall_getElem?_append.mpr ⟨?_, ?_⟩
  · intro n b hb
    have hle : n + 1 ≤ (countsOf log).length := by
      rw [hc.lengths]
      exact lt_of_getElem? hb
    rw [take_append_of_le_length hle]
    exact hc.counted n b hb
  · intro k b hb
    rw [decided_blocks, getElem?_map] at hb
    obtain ⟨pb, hpb, rfl⟩ := Option.map_eq_some_iff.mp hb
    obtain ⟨o, ho, -, htx⟩ := ordering_plan hnum hpb
    refine ⟨o, ho, ?_⟩
    rw [htx, hc.txCount hrunning, ← hc.lengths, Nat.add_assoc, take_length_add_append, sum_append,
      ← Nat.add_assoc, UInt64.ofNat_add (1 + _)]
    rfl

theorem ChainInv.configured_decide (hc : ChainInv W genesisBlock log c)
    (hd : Delivered L c p (r.header W c num) (r.nextState W c num) signatures c') :
    ∀ n b, (blocksOf (log ++ [r.decided W c num]))[n]? = some b → ∃ md, b.metadata = some md ∧
      LastConfigIs W md (latestConfig W ((blocksOf (log ++ [r.decided W c num])).take (n + 1))) := by
  rw [blocksOf_concat]
  refine forall_getElem?_append.mpr ⟨?_, ?_⟩
  · intro n b hb
    rw [take_append_of_le_length (lt_of_getElem? hb)]
    exact hc.configured n b hb
  · intro k b hb
    rw [decided_blocks, getElem?_map] at hb
    obtain ⟨pb, hpb, rfl⟩ := Option.map_eq_some_iff.mp hb
    rw [Nat.add_assoc, take_length_add_append, decided_blocks, ← hd.lastConfig_plan hc.lastConfigBlockNum hpb]
    exact ⟨_, rfl, lastConfigIs_entry rfl⟩

theorem OneChain.placed_decide (hc : OneChain W genesisBlock log c) (hnum : num = log.length + 1)
    (hcount : r.count < 2 ^ 32) : ∀ k d, (log ++ [r.decided W c num])[k]? = some d → ∀ i b, d.blocks[i]? = some b → ∃ o,
      assemblerBatchIdOrderingInfoAndTxCountFromBlock W b = .ok o ∧ o.info = ⟨k + 1, d.blocks.length, i⟩ := by
  refine forall_getElem?_append.mpr ⟨hc.placed, ?_⟩
  intro k d hd i b hb
  obtain ⟨rfl, rfl⟩ : k = 0 ∧ r.decided W c num = d := by simpa [getElem?_singleton] using hd
  rw [decided_blocks, getElem?_map] at hb
  obtain ⟨pb, hpb, rfl⟩ := Option.map_eq_some_iff.mp hb
  obtain ⟨o, ho, hinfo, -⟩ := ordering_plan (hnum ▸ Nat.succ_ne_zero _) hpb
  have hi : i < r.count := by
    have hlt := lt_of_getElem? hpb
    rwa [length_plan] at hlt
  have hsmall : ∀ n, n < 2 ^ 32 → (UInt32.ofNat n).toNat = n := fun n hn => Nat.mod_eq_of_lt hn
  refine ⟨o, ho, ?_⟩
  rw [hinfo, hsmall _ hcount, hsmall _ (hi.trans hcount), decided_blocks, length_map, length_plan, hnum, Nat.add_zero]

/-- **One decision** that keeps the count keeps the chain. -/
theorem ChainInv.decide (hc : ChainInv W genesisBlock log c) (hinv : Inv W past c) (hrunning : c.status = .running)
    (hkept : CountKept W c requests) (hr : c.Computes L requests r)
    (hhdr : Header.deserialize W p.header = .ok (r.header W c num)) {reconfig}
    (hdeliver : c.deliver L p signatures = .ok (c', reconfig)) :
    ChainInv W genesisBlock (log ++ [r.decided W c num]) c' := by
  have hd := Consensus.delivered_of_deliver hhdr rfl hdeliver
  have hheight : num = log.length + 1 := hd.num.trans hc.height
  obtain ⟨hcount, hzero⟩ := (countKept_iff hr).mp hkept
  have hnum : num ≠ 0 := hheight ▸ Nat.succ_ne_zero _
  have hne : c.storage ≠ [] := ne_nil_of_length_eq_add_one hc.height
  exact {
    linked := hd.state ▸ hc.linked_decide hinv.wellFormed hr
    counted := hc.counted_decide hrunning hnum
    configured := hc.configured_decide hd
    placed := hc.placed_decide hheight hcount
    height := by rw [hd.storage, length_append, hc.height, length_append]; rfl
    lengths := by
      rw [countsOf_concat, blocksOf_concat, length_append, length_append, hc.lengths,
        decided_blocks, length_map, length_plan]
      exact congrArg _ length_blockCounts
    lastConfigBlockNum := by
      rw [blocksOf_concat]
      exact hd.lastConfigBlockNum_eq hinv hr hc.lastConfigBlockNum
    txCount := by
      intro hrun
      rw [txCount_deliver hinv hr hnum hne hhdr hdeliver hzero hrun, hc.txCount hrunning, countsOf_concat,
        sum_append, ← Nat.add_assoc, UInt64.ofNat_add (1 + _)]
      rfl }

theorem Recording.chainInv (h : Recording L (CountKept W) genesisBlock log c) : ChainInv W genesisBlock log c := by
  refine h.rule (fun _ _ => ?_) fun hinv hrunning hkept hr hhdr hdeliver ih => ?_
  · exact ⟨⟨⟨[], rfl, .singleton _, rfl⟩, by simp [blocksOf], by simp [blocksOf], by simp⟩, rfl, rfl, rfl, fun _ => rfl⟩
  · exact ih.decide hinv hrunning hkept hr hhdr hdeliver

/-- The blocks of a chain come in the order of their decisions and indices. -/
theorem OneChain.pairwise_before (hc : OneChain W genesisBlock log c) : (blocksOf log).Pairwise (Before W) := by
  refine pairwise_flatMap.mpr ⟨?_, ?_⟩
  · intro d hd
    obtain ⟨k, hk⟩ := mem_iff_getElem?.mp hd
    refine pairwise_iff_getElem.mpr fun i j hi hj hij => ?_
    obtain ⟨o, ho, hinfo⟩ := hc.placed k d hk i _ (getElem?_eq_getElem hi)
    obtain ⟨o', ho', hinfo'⟩ := hc.placed k d hk j _ (getElem?_eq_getElem hj)
    refine ⟨o, o', ho, ho', .inr ?_⟩
    rw [hinfo, hinfo']
    exact ⟨rfl, hij⟩
  · refine pairwise_iff_getElem.mpr fun k k' hk hk' hlt b hb b' hb' => ?_
    obtain ⟨i, hi⟩ := mem_iff_getElem?.mp hb
    obtain ⟨i', hi'⟩ := mem_iff_getElem?.mp hb'
    obtain ⟨o, ho, hinfo⟩ := hc.placed k _ (getElem?_eq_getElem hk) i b hi
    obtain ⟨o', ho', hinfo'⟩ := hc.placed k' _ (getElem?_eq_getElem hk') i' b' hi'
    refine ⟨o, o', ho, ho', .inl ?_⟩
    rw [hinfo, hinfo']
    exact Nat.succ_lt_succ hlt

/-- **The decisions spell one chain**, in the runs whose decisions keep the transaction count. -/
theorem Recording.oneChain (h : Recording L (CountKept W) genesisBlock log c) :
    OneChain W genesisBlock log c ∧ (blocksOf log).Pairwise (Before W) ∧
      ∀ b ∈ blocksOf log, ∃ o, assemblerBatchIdOrderingInfoAndTxCountFromBlock W b = .ok o ∧
        o.info.batchIndex < o.info.batchCount := by
  have hc := h.chainInv.toOneChain
  refine ⟨hc, hc.pairwise_before, ?_⟩
  intro b hb
  obtain ⟨d, hd, hblock⟩ := mem_flatMap.mp hb
  obtain ⟨k, hk⟩ := mem_iff_getElem?.mp hd
  obtain ⟨i, hi⟩ := mem_iff_getElem?.mp hblock
  obtain ⟨o, ho, hinfo⟩ := hc.placed k d hk i b hi
  refine ⟨o, ho, ?_⟩
  rw [hinfo]
  exact lt_of_getElem? hi

end Runs

/-- The run of one decision on a batch of five transactions. -/
theorem oneChain_genesisNode : ∃ log c, Recording soleLib (CountKept refWire) (newBlock 0 []) log c ∧
      countsOf log = [5] ∧ OneChain refWire (newBlock 0 []) log c := by
  let b : BAF := { firstBatchBy 1 with txCount := 5 }
  have hcond : CountKept refWire soleNode (fragmentRequests refWire [b]) := by
    obtain ⟨s, -, r, hr, hfragments, hrs, -⟩ := @Idle.computes refWire soleLib _ b
      idle_genesisNode rfl rfl not_mem_nil
    refine (countKept_iff hr).mpr ⟨?_, fun _ hzero => ?_⟩
    · rw [Computed.count, hfragments, hrs]
      decide
    · rw [hfragments, hrs] at hzero
      exact absurd hzero (by decide)
  obtain ⟨r, c, hrun, hfragments, hrs, -⟩ := idle_genesisNode.record
    (Recording.start (L := soleLib)) rfl rfl not_mem_nil hcond
  refine ⟨_, c, hrun, ?_, (Recording.oneChain hrun).1⟩
  rw [countsOf_concat, Computed.decided, hfragments, hrs]
  rfl

/-- **A transaction count that is forgotten**: the first batch has `2 ^ 64 - 1` transactions, so that with the genesis
block the count is `2 ^ 64`, that is 0. `Deliver` takes it for that of a decision without blocks and stays at 1; the
next block, of 5 transactions, has the count 6 in place of 5. -/
theorem count_forgotten : ∃ log c, Recording soleLib anyPayload (newBlock 0 []) log c ∧
      countsOf log = [2 ^ 64 - 1, 5] ∧ UInt64.ofNat (1 + ((countsOf log).take 2).sum) = 5 ∧
      (∃ b o, (blocksOf log)[1]? = some b ∧ assemblerBatchIdOrderingInfoAndTxCountFromBlock refWire b = .ok o ∧
        o.txCount = 6) ∧ ¬ OneChain refWire (newBlock 0 []) log c := by
  obtain ⟨r₁, r₂, c₁, c₂, hrun, -, ⟨hfragments₁, hrs₁⟩, ⟨hfragments₂, hrs₂⟩, hidle, htx⟩ :=
    record_two 18446744073709551615 5
  set log := [r₁.decided refWire soleNode 1, r₂.decided refWire c₁ c₁.storage.length]
  have hcounts : countsOf log = [2 ^ 64 - 1, 5] := by
    simp only [log, Computed.decided, hfragments₁, hrs₁, hfragments₂, hrs₂]
    rfl
  have hfirst : (r₁.decided refWire soleNode 1).blocks.length = 1 := by
    rw [decided_blocks, length_map, length_plan, Computed.count, hfragments₁, hrs₁]
    rfl
  obtain ⟨pb, hpb⟩ : ∃ pb, (r₂.plan refWire c₁ c₁.storage.length)[0]? = some pb := by
    refine ⟨_, getElem?_eq_getElem ?_⟩
    rw [length_plan, Computed.count, hfragments₂, hrs₂]
    exact Nat.one_pos
  obtain ⟨o, ho, -, hread⟩ := ordering_plan (Nat.zero_lt_of_lt hidle.lastConfig).ne' hpb
  have hblock : (blocksOf log)[1]? = some (pb.create refWire) := by
    have hblocks : blocksOf log = _ ++ _ := flatMap_cons
    rw [hblocks, getElem?_append_right hfirst.le, hfirst]
    simp [decided_blocks, hpb]
  have hsix : o.txCount = 6 := by
    rw [hread, htx, hfragments₂, hrs₂]
    decide
  have hfive : UInt64.ofNat (1 + ((countsOf log).take 2).sum) = 5 := by
    rw [hcounts]
    decide
  refine ⟨log, c₂, hrun, hcounts, hfive, ⟨_, o, hblock, ho, hsix⟩, fun hchain => ?_⟩
  obtain ⟨o', ho', hcount⟩ := hchain.counted 1 _ hblock
  cases ho.symm.trans ho'
  rw [hsix, hfive] at hcount
  exact absurd hcount (by decide)

end Arma
