import Arma.Consensus.Propose

/-!
# The plan of a decision

What `AssembleProposal` and `VerifyProposal` have in common: from its own state and the requests a node
computes the next state and a chain of blocks, the **plan** of the decision. A `PlannedBlock` is all there is
to say about a block of it: its header, the config transaction if it is the config block, its ORDERER
metadata and the config block it points to.

* `assembleHeader_eq_ok`: the leader's header carries the blocks that the plan describes
  (`PlannedBlock.create`), and the state that the plan leads to.
* `verifyHeader_eq_ok`: a follower accepts a header iff the block at the index of every planned block matches
  it (`PlannedBlock.Matches`) and the state is the one the plan leads to. Nothing is required of blocks past
  the end of the plan.
* `matches_create`: what the leader creates matches.
-/

namespace Arma

open Arma.Lib Outcome List

structure PlannedBlock where
  header : BlockHeader
  /-- The config request, in the config block. -/
  configTx : Option Bytes
  orderer : Bytes
  /-- The number of the config block that the LAST_CONFIG metadata entry points to. -/
  lastConfig : Nat
  deriving DecidableEq, Repr

/-- The block as the leader creates it. -/
def PlannedBlock.create (W : Wire) (pb : PlannedBlock) : Block :=
  ⟨some pb.header, some pb.configTx.toList, some (createdMetadata W pb.orderer pb.lastConfig)⟩

/-- What a follower checks of a config block beyond what it checks of every block. -/
def ConfigData (W : Wire) (dataHash : Bytes) (block : Block) : Prop :=
  (∃ tx, block.data = some [tx] ∧ W.digest [tx] = dataHash) ∧
    ∃ md, block.metadata = some md ∧ md.length = numMetadataIndices

/-- What a follower checks of a block. -/
structure PlannedBlock.Matches (W : Wire) (pb : PlannedBlock) (block : Block) : Prop where
  header : block.header = some pb.header
  metadata : HasMetadata W block pb.orderer pb.lastConfig
  data : pb.configTx.isSome → ConfigData W pb.header.dataHash block

/-- The block at the index of every planned block matches it. -/
def InPlace (W : Wire) (plan : List PlannedBlock) (blocks : List Block) : Prop :=
  ∀ (k : Nat) (pb : PlannedBlock), plan[k]? = some pb → ∃ block, blocks[k]? = some block ∧ pb.Matches W block

/-! ## The chain -/

namespace ChainHead

variable (W : Wire)

variable (head : ChainHead)

/-- The header of the data block for `b` on top of a chain. -/
def header (b : BAF) : BlockHeader :=
  ⟨head.lastBlockNumber + 1, head.prevHash, b.digest⟩

/-- The chain with the data block for `b` on top. -/
def next (b : BAF) : ChainHead :=
  ⟨head.lastBlockNumber + 1, W.blockHeaderHash (head.header b), head.currentTXCount + b.txCount⟩

/-- The chain with the data blocks for `bs` on top. -/
def after (bs : List BAF) : ChainHead := bs.foldl (next W) head

@[simp] theorem after_nil : head.after W [] = head := rfl

@[simp] theorem after_cons (b : BAF) (bs : List BAF) : head.after W (b :: bs) = (head.next W b).after W bs := rfl

theorem after_lastBlockNumber (bs : List BAF) :
    (head.after W bs).lastBlockNumber = head.lastBlockNumber + bs.length := by
  induction bs generalizing head with
  | nil => rfl
  | cons b bs ih =>
    rw [after_cons, ih, length_cons]
    simp only [next]
    omega

end ChainHead

variable {pb : PlannedBlock} {attestations : List (List BAF)}

section Plan

variable (W : Wire) (num : DecisionNum) (count lastConfigBlockNum : Nat)

def plannedData (i : Nat) (head : ChainHead) (b : BAF) : PlannedBlock where
  header := head.header b
  configTx := none
  orderer := assemblerBlockMetadataToBytes W (batchIDKeyOf b) ⟨num, count, i⟩ (head.currentTXCount + b.txCount)
  lastConfig := lastConfigBlockNum

/-- The data blocks for `bs`, from index `i`. -/
def planData : Nat → ChainHead → List BAF → List PlannedBlock
  | _, _, [] => []
  | i, head, b :: bs =>
    plannedData W num count lastConfigBlockNum i head b :: planData (i + 1) (head.next W b) bs

def plannedConfig (head : ChainHead) (configRequest : ConfigRequest) : PlannedBlock where
  header := ⟨head.lastBlockNumber + 1, head.prevHash, W.digest [W.envelope.marshal configRequest.envelope]⟩
  configTx := some (W.envelope.marshal configRequest.envelope)
  orderer := assemblerBlockMetadataToBytes W configBatchID ⟨num, count, count - 1⟩ (head.currentTXCount + 1)
  lastConfig := head.lastBlockNumber + 1

/-- The config block, if there is a config request. -/
def planConfig (head : ChainHead) : List ConfigRequest → List PlannedBlock
  | [] => []
  | configRequest :: _ => [plannedConfig W num count head configRequest]

@[simp] theorem length_planData (i : Nat) (head : ChainHead) (bs : List BAF) :
    (planData W num count lastConfigBlockNum i head bs).length = bs.length := by
  induction bs generalizing i head with
  | nil => rfl
  | cons b bs ih => simp [planData, ih]

variable {W num count lastConfigBlockNum}

variable {i : Nat} {head : ChainHead} {bs : List BAF}

theorem mem_planData (h : pb ∈ planData W num count lastConfigBlockNum i head bs) :
    ∃ b ∈ bs, ∃ i' head', pb = plannedData W num count lastConfigBlockNum i' head' b := by
  induction bs generalizing i head with
  | nil => simp [planData] at h
  | cons b bs ih =>
    rcases mem_cons.mp h with rfl | h
    · exact ⟨b, by simp, i, head, rfl⟩
    · obtain ⟨b', hb', hpb⟩ := ih h
      exact ⟨b', by simp [hb'], hpb⟩

theorem planData_configTx (h : pb ∈ planData W num count lastConfigBlockNum i head bs) : pb.configTx = none := by
  obtain ⟨b, -, i', head', rfl⟩ := mem_planData h
  rfl

theorem number_planData {k} (h : (planData W num count lastConfigBlockNum i head bs)[k]? = some pb) :
    pb.header.number = head.lastBlockNumber + k + 1 := by
  induction bs generalizing i k head with
  | nil => simp [planData] at h
  | cons b bs ih =>
    cases k with
    | zero =>
      obtain rfl : plannedData W num count lastConfigBlockNum i head b = pb := by
        simpa [planData] using h
      rfl
    | succ k =>
      have hrest := ih (by simpa [planData] using h)
      simp only [ChainHead.next] at hrest
      omega

/-! ## The two walks follow the plan -/

/-- **The leader's walk** creates the planned data blocks. -/
theorem createDataBlocks_eq (h : Forall₂ (fun g b => g[0]? = some b) attestations bs) (i : Nat) (head : ChainHead) :
    createDataBlocks W num count lastConfigBlockNum i head attestations =
      .ok ((planData W num count lastConfigBlockNum i head bs).map (PlannedBlock.create W), head.after W bs) := by
  induction h generalizing i head with
  | nil => rfl
  | cons hg _ ih =>
    rw [createDataBlocks, index_eq_ok.mpr hg, ok_bind]
    simp only [createDataCommonBlock, deref_some, ok_bind]
    rw [ih]
    rfl

theorem verifyDataCommonBlock_iff_matches {b block u} :
    verifyDataCommonBlock W block (head.lastBlockNumber + 1) head.prevHash (batchIDKeyOf b)
      (head.currentTXCount + b.txCount) ⟨num, count, i⟩ lastConfigBlockNum = .ok u ↔
      (plannedData W num count lastConfigBlockNum i head b).Matches W block := by
  rw [verifyDataCommonBlock_eq_ok]
  exact ⟨fun h => ⟨h.1, h.2, by simp [plannedData]⟩, fun h => ⟨h.header, h.metadata⟩⟩

/-- **A follower's walk** goes through iff the block at each index matches the planned one. -/
theorem verifyDataBlocks_eq_ok {proposed} (h : Forall₂ (fun g b => g[0]? = some b) attestations bs) {r} :
    verifyDataBlocks W num count lastConfigBlockNum proposed i head attestations = .ok r ↔
      r = ((planData W num count lastConfigBlockNum i head bs).map (·.header), head.after W bs) ∧
        ∀ k pb, (planData W num count lastConfigBlockNum i head bs)[k]? = some pb →
          ∃ block, proposed[i + k]? = some block ∧ pb.Matches W block := by
  induction h generalizing i head r with
  | nil => simp [verifyDataBlocks, planData, eq_comm]
  | @cons g b attestations bs hg _ ih =>
    rw [verifyDataBlocks, index_eq_ok.mpr hg, ok_bind, planData]
    simp only [bind_eq_ok, index_eq_ok, wrap_eq_ok, verifyDataCommonBlock_iff_matches,
      forall_getElem?_cons, Nat.add_zero, map_cons, ChainHead.after_cons]
    constructor
    · rintro ⟨block, hblock, _, hm, ⟨headers, last⟩, hrest, hret⟩
      obtain ⟨hr, hall⟩ := ih.mp hrest
      cases hr
      refine ⟨(Except.ok.inj hret).symm, ⟨block, hblock, hm⟩, fun k pb hk => ?_⟩
      rw [Nat.add_comm k 1, ← Nat.add_assoc]
      exact hall k pb hk
    · rintro ⟨rfl, ⟨block, hblock, hm⟩, hall⟩
      refine ⟨block, hblock, (), hm, _, ih.mpr ⟨rfl, fun k pb hk => ?_⟩, rfl⟩
      rw [Nat.add_assoc, Nat.add_comm 1 k]
      exact hall k pb hk

/-- The config block goes through iff the block at its index matches the planned one. -/
theorem verifyConfigBlocks_eq_ok {proposed configRequests headers} :
    verifyConfigBlocks W num count proposed head configRequests = .ok headers ↔
      headers = (planConfig W num count head configRequests).map (·.header) ∧
        ∀ pb ∈ planConfig W num count head configRequests,
          ∃ block, proposed[count - 1]? = some block ∧ pb.Matches W block := by
  cases configRequests with
  | nil => simp [verifyConfigBlocks, planConfig, eq_comm]
  | cons configRequest rest =>
    simp only [verifyConfigBlocks, planConfig, bind_eq_ok, index_eq_ok,
      wrap_eq_ok, verifyConfigCommonBlock_eq_ok, mem_singleton, forall_eq]
    constructor
    · rintro ⟨block, hblock, _, ⟨hheader, hdata, hlen, hmd⟩, hret⟩
      exact ⟨(Except.ok.inj hret).symm, block, hblock, hheader, hmd, fun _ => ⟨hdata, hlen⟩⟩
    · rintro ⟨rfl, block, hblock, hm⟩
      obtain ⟨hdata, hlen⟩ := hm.data rfl
      exact ⟨block, hblock, (), ⟨hm.header, hdata, hlen, hm.metadata⟩, rfl⟩

end Plan

theorem PlannedBlock.matches_create {W} (h : ∀ tx, pb.configTx = some tx → W.digest [tx] = pb.header.dataHash) :
    pb.Matches W (pb.create W) where
  header := rfl
  metadata := hasMetadata_created rfl
  data hsome := by
    obtain ⟨tx, htx⟩ := Option.isSome_iff_exists.mp hsome
    exact ⟨⟨tx, by simp [create, htx], h tx htx⟩, _, rfl, rfl⟩

/-! ## What a node computes -/

/-- What a node computes from the requests of a payload: the next state, up to its app context; the
fragments that stand for the groups; the config requests; the header of the last block before. -/
structure Computed where
  state : State
  fragments : List BAF
  configRequests : List ConfigRequest
  last : BlockHeader

namespace Computed

variable (W : Wire) (c : Consensus) (r : Computed) (num : DecisionNum)

/-- The number of blocks. -/
def count : Nat := r.fragments.length + if r.configRequests = [] then 0 else 1

/-- The chain with the data blocks on top. -/
def dataHead : ChainHead := (c.chainHead W r.last).after W r.fragments

/-- **The plan**: the data blocks, then the config block if there is one. -/
def plan : List PlannedBlock :=
  planData W num r.count c.lastConfigBlockNum 0 (c.chainHead W r.last) r.fragments ++
    planConfig W num r.count (r.dataHead W c) r.configRequests

def nextState : State := setAppContext W r.state ((r.plan W c num).getLast?.map (·.header))

def header : Header where
  num := num
  prevHash := c.prevHash
  availableCommonBlocks := (r.plan W c num).map (PlannedBlock.create W)
  state := some (r.nextState W c num)
  decisionNumOfLastConfigBlock := c.nextDecisionNumOfLastConfigBlock r.configRequests num

/-- The proposal, for a view whose metadata are `metadata` and whose sequence is `num`. -/
def proposal (metadata : Option Bytes) (requests : BatchedRequests) : Proposal where
  header := some ((r.header W c num).serialize W)
  metadata
  payload := some requests.serialize
  verificationSequence := c.verificationSequence.toInt64

@[simp] theorem length_plan : (r.plan W c num).length = r.count := by
  unfold plan count
  rw [length_append, length_planData]
  cases r.configRequests <;> simp [planConfig]

variable {W c num r}

theorem plan_of_nil (hrs : r.configRequests = []) :
    r.plan W c num = planData W num r.count c.lastConfigBlockNum 0 (c.chainHead W r.last) r.fragments := by
  simp [plan, hrs, planConfig]

theorem plan_of_cons {configRequest rest} (hrs : r.configRequests = configRequest :: rest) :
    r.plan W c num = planData W num r.count c.lastConfigBlockNum 0 (c.chainHead W r.last)
      r.fragments ++ [plannedConfig W num r.count (r.dataHead W c) configRequest] := by
  simp [plan, hrs, planConfig]

/-- A block of a plan is a data block, or it is the last one, for the first config request. -/
theorem getElem?_plan {k} (h : (r.plan W c num)[k]? = some pb) :
    ((planData W num r.count c.lastConfigBlockNum 0 (c.chainHead W r.last) r.fragments)[k]? = some pb ∧
        (k + 1 < r.count ∨ r.configRequests = [])) ∨
      ∃ configRequest rest, r.configRequests = configRequest :: rest ∧ k = r.fragments.length ∧
        k + 1 = r.count ∧ pb = plannedConfig W num r.count (r.dataHead W c) configRequest := by
  cases hrs : r.configRequests with
  | nil =>
    rw [plan_of_nil hrs] at h
    exact Or.inl ⟨h, Or.inr rfl⟩
  | cons configRequest rest =>
    have hcount : r.count = r.fragments.length + 1 := by simp [count, hrs]
    rw [plan_of_cons hrs] at h
    by_cases hk : k < r.fragments.length
    · rw [getElem?_append_left (by simpa using hk)] at h
      exact Or.inl ⟨h, Or.inl (by omega)⟩
    · rw [getElem?_append_right (by simpa using hk), getElem?_singleton] at h
      split at h
      · rename_i hzero
        cases h
        simp only [length_planData] at hzero
        have hlen : k = r.fragments.length := by omega
        exact Or.inr ⟨configRequest, rest, rfl, hlen, by omega, rfl⟩
      · cases h

theorem number_plan {k} (h : (r.plan W c num)[k]? = some pb) : pb.header.number = r.last.number + k + 1 := by
  rcases getElem?_plan h with ⟨hdata, -⟩ | ⟨configRequest, rest, -, rfl, -, rfl⟩
  · exact number_planData hdata
  · have hafter : (r.dataHead W c).lastBlockNumber = r.last.number + r.fragments.length :=
      ChainHead.after_lastBlockNumber W (c.chainHead W r.last) r.fragments
    simp only [plannedConfig]
    omega

end Computed

variable {hdr : Header}

namespace Consensus

variable {W : Wire} (L : ConfigLib W) (c : Consensus)

def Computes (requests : BatchedRequests) (r : Computed) : Prop :=
  ∃ s attestations,
    simulateStateTransition W c.badb c.state c.verificationSequence requests = .ok (s, attestations, r.configRequests) ∧
    applyConfigRequests L s r.configRequests = .ok r.state ∧
    W.blockHeader.unmarshal r.state.appContext = .ok r.last ∧
    r.fragments = firstFragments attestations

variable {L c} {requests : BatchedRequests} {r : Computed}

theorem Computes.unique {r'} (h : c.Computes L requests r) (h' : c.Computes L requests r') : r = r' := by
  obtain ⟨state, bs, rs, last⟩ := r
  obtain ⟨state', bs', rs', last'⟩ := r'
  obtain ⟨s, attestations, hsim, happly, hlast, hbs⟩ := h
  obtain ⟨s', attestations', hsim', happly', hlast', hbs'⟩ := h'
  obtain ⟨rfl, rfl, hrs⟩ : s = s' ∧ attestations = attestations' ∧ rs = rs' := by
    simpa using hsim.symm.trans hsim'
  dsimp only at *
  subst hrs hbs hbs'
  obtain rfl : state = state' := Except.ok.inj (happly.symm.trans happly')
  obtain rfl : last = last' := Except.ok.inj (hlast.symm.trans hlast')
  rfl

theorem numOfAvailableBlocks_eq (h : Forall₂ (fun g b => g[0]? = some b) attestations r.fragments) :
    numOfAvailableBlocks attestations r.configRequests = r.count := by
  unfold numOfAvailableBlocks Computed.count
  rw [h.length_eq]

theorem getLast?_create (plan : List PlannedBlock) :
    (plan.map (PlannedBlock.create W)).getLast?.bind (·.header) = plan.getLast?.map (·.header) := by
  rw [getLast?_map]
  cases plan.getLast? <;> rfl

theorem createConfigBlocks_eq (num : DecisionNum) (count : Nat) (head : ChainHead)
    (configRequests) : createConfigBlocks W num count head configRequests =
      (planConfig W num count head configRequests).map (PlannedBlock.create W) := by
  cases configRequests <;> rfl

variable {metadata : Option Bytes}

theorem assembleHeader_of_computes {md}
    (h : c.Computes L requests r) (hmd : W.viewMetadata.unmarshal (metadata.getD []) = .ok md) :
    c.assembleHeader L metadata requests = .ok (r.header W c md.latestSequence) := by
  obtain ⟨s, attestations, hsim, happly, hlast, hbs⟩ := h
  have hheads : Forall₂ (fun g b => g[0]? = some b) attestations r.fragments :=
    hbs ▸ forall₂_firstFragments (simulateStateTransition_groups hsim)
  have hstate := getLast?_create (W := W) (r.plan W c md.latestSequence)
  simp only [assembleHeader, lastCommonBlockHeader, hsim, happly, hlast, hmd, ok_bind,
    orPanic_ok, ofExcept_ok, createDataBlocks_eq hheads, createConfigBlocks_eq,
    numOfAvailableBlocks_eq hheads, ← map_append, pure_eq]
  rw [show planData W md.latestSequence r.count c.lastConfigBlockNum 0 (c.chainHead W r.last)
      r.fragments ++ planConfig W md.latestSequence r.count ((c.chainHead W r.last).after W r.fragments)
        r.configRequests = r.plan W c md.latestSequence from rfl, hstate]
  rfl

theorem assembleHeader_eq_ok : c.assembleHeader L metadata requests = .ok hdr ↔
      ∃ r md, c.Computes L requests r ∧ W.viewMetadata.unmarshal (metadata.getD []) = .ok md ∧
        hdr = r.header W c md.latestSequence := by
  constructor
  · intro h
    have hrun := h
    simp only [assembleHeader, lastCommonBlockHeader, bind_eq_ok, orPanic_eq_ok, ofExcept_eq_ok] at hrun
    obtain ⟨⟨s, attestations, rs⟩, hsim, st, happly, last, hlast, md, hmd, -⟩ := hrun
    have hcomp : c.Computes L requests ⟨st, firstFragments attestations, rs, last⟩ :=
      ⟨s, attestations, hsim, happly, hlast, rfl⟩
    refine ⟨_, md, hcomp, hmd, ?_⟩
    rw [assembleHeader_of_computes hcomp hmd] at h
    exact (Except.ok.inj h).symm
  · rintro ⟨r, md, hcomp, hmd, rfl⟩
    exact assembleHeader_of_computes hcomp hmd

/-- **The leader** proposes what it computes. -/
theorem assembleProposal_eq_ok {p} : c.assembleProposal L metadata requests = .ok p ↔
      ∃ r md, c.Computes L requests r ∧ W.viewMetadata.unmarshal (metadata.getD []) = .ok md ∧
        p = r.proposal W c md.latestSequence metadata requests := by
  simp only [assembleProposal, bind_eq_ok, assembleHeader_eq_ok]
  constructor
  · rintro ⟨hdr, ⟨r, md, hr, hmd, rfl⟩, hret⟩
    exact ⟨r, md, hr, hmd, (Except.ok.inj hret).symm⟩
  · rintro ⟨r, md, hr, hmd, rfl⟩
    exact ⟨_, ⟨r, md, hr, hmd, rfl⟩, rfl⟩

/-- The data blocks and the config block of a plan are in place iff the plan is. -/
theorem inPlace_plan {num blocks} : InPlace W (r.plan W c num) blocks ↔
      (∀ k pb, (planData W num r.count c.lastConfigBlockNum 0 (c.chainHead W r.last)
        r.fragments)[k]? = some pb → ∃ block, blocks[0 + k]? = some block ∧ pb.Matches W block) ∧
      ∀ pb ∈ planConfig W num r.count (r.dataHead W c) r.configRequests,
        ∃ block, blocks[r.count - 1]? = some block ∧ pb.Matches W block := by
  unfold InPlace Computed.plan
  rw [forall_getElem?_append, length_planData]
  simp only [Nat.zero_add]
  refine and_congr_right fun _ => ?_
  cases hrs : r.configRequests with
  | nil => simp [planConfig]
  | cons configRequest rest =>
    have hcount : r.count - 1 = r.fragments.length := by simp [Computed.count, hrs]
    simp only [planConfig, mem_singleton, forall_eq, forall_getElem?_cons, hcount]
    simp

theorem verifyHeader_eq_ok {state md} : c.verifyHeader L requests hdr state md = .ok () ↔ ∃ r, c.Computes L requests r ∧
        hdr.decisionNumOfLastConfigBlock = c.nextDecisionNumOfLastConfigBlock r.configRequests md.latestSequence ∧
        InPlace W (r.plan W c md.latestSequence) hdr.availableCommonBlocks ∧
        state.serialize W = (r.nextState W c md.latestSequence).serialize W := by
  have hnext : ∀ r : Computed, (((planData W md.latestSequence r.count c.lastConfigBlockNum 0
      (c.chainHead W r.last) r.fragments).map (·.header) ++ (planConfig W md.latestSequence r.count
        (r.dataHead W c) r.configRequests).map (·.header)).getLast?) =
      (r.plan W c md.latestSequence).getLast?.map (·.header) := by
    intro r
    rw [← map_append, getLast?_map]
    rfl
  simp only [verifyHeader, lastCommonBlockHeader, bind_eq_ok, orPanic_eq_ok,
    wrap_eq_ok, ofExcept_eq_ok, require_eq_ok]
  constructor
  · rintro ⟨⟨s, attestations, rs⟩, hsim, st, happly, _, hdn, last, hlast, ⟨headers, head⟩, hdata,
      configHeaders, hconfig, hstate⟩
    have hheads := forall₂_firstFragments (simulateStateTransition_groups hsim)
    let r : Computed := ⟨st, firstFragments attestations, rs, last⟩
    have hcount : numOfAvailableBlocks attestations r.configRequests = r.count := numOfAvailableBlocks_eq hheads
    dsimp only at hdata hconfig
    rw [hcount] at hdata hconfig
    obtain ⟨hr, hdataIn⟩ := (verifyDataBlocks_eq_ok hheads).mp hdata
    cases hr
    obtain ⟨rfl, hconfigIn⟩ := verifyConfigBlocks_eq_ok.mp hconfig
    refine ⟨r, ⟨s, attestations, hsim, happly, hlast, rfl⟩, hdn, inPlace_plan.mpr ⟨hdataIn, hconfigIn⟩, ?_⟩
    rw [hstate, Computed.nextState, ← hnext r]
    rfl
  · rintro ⟨r, ⟨s, attestations, hsim, happly, hlast, hbs⟩, hdn, hplace, hstate⟩
    have hheads : Forall₂ (fun g b => g[0]? = some b) attestations r.fragments :=
      hbs ▸ forall₂_firstFragments (simulateStateTransition_groups hsim)
    obtain ⟨hdata, hconfig⟩ := inPlace_plan.mp hplace
    have hdataOk := (verifyDataBlocks_eq_ok hheads).mpr ⟨rfl, hdata⟩
    have hconfigOk := verifyConfigBlocks_eq_ok.mpr ⟨rfl, hconfig⟩
    rw [← numOfAvailableBlocks_eq hheads] at hdataOk hconfigOk
    refine ⟨_, hsim, r.state, happly, (), hdn, r.last, hlast, _, hdataOk, _, hconfigOk, ?_⟩
    rw [hstate, Computed.nextState, ← hnext r, ← numOfAvailableBlocks_eq hheads]

end Consensus

/-! ## Proposals -/

structure Decoded where
  requests : BatchedRequests
  header : Header
  state : State
  md : ViewMetadata

/-- The parts of the proposal are there and decode. -/
structure Proposal.Decodes (W : Wire) (p : Proposal) (d : Decoded) : Prop where
  payload : ∃ payload, p.payload = some payload ∧ BatchedRequests.deserialize payload = .ok d.requests
  header : ∃ header, p.header = some header ∧ Header.deserialize W (some header) = .ok d.header
  metadata : ∃ metadata, p.metadata = some metadata ∧ W.viewMetadata.unmarshal metadata = .ok d.md
  state : d.header.state = some d.state

theorem Proposal.Decodes.unique {W : Wire} {p : Proposal} {d d'} (h : p.Decodes W d)
    (h' : p.Decodes W d') : d = d' := by
  obtain ⟨requests, header, state, md⟩ := d
  obtain ⟨requests', header', state', md'⟩ := d'
  obtain ⟨⟨payload, hp, hrequests⟩, ⟨raw, hh, hheader⟩, ⟨metadata, hm, hmd⟩, hs⟩ := h
  obtain ⟨⟨payload', hp', hrequests'⟩, ⟨raw', hh', hheader'⟩, ⟨metadata', hm', hmd'⟩, hs'⟩ := h'
  cases hp.symm.trans hp'
  cases hh.symm.trans hh'
  cases hm.symm.trans hm'
  cases hrequests.symm.trans hrequests'
  cases hheader.symm.trans hheader'
  cases hmd.symm.trans hmd'
  cases hs.symm.trans hs'
  rfl

namespace Consensus

variable {W : Wire} {L : ConfigLib W} {c : Consensus} {p : Proposal} {reqInfos : List RequestInfo}

theorem proposalParts_eq_ok {header metadata payload} : proposalParts p = .ok (header, metadata, payload) ↔
      p.header = some header ∧ p.metadata = some metadata ∧ p.payload = some payload := by
  obtain ⟨payload', header', metadata', seq⟩ := p
  cases header' <;> cases metadata' <;> cases payload' <;> simp [proposalParts]

theorem headerState_eq_ok {s} : headerState hdr = .ok s ↔ hdr.state = some s := by
  unfold headerState
  cases hdr.state <;> simp

/-- **What `VerifyProposal` accepts**: a proposal that decodes, under the right numbers, with requests
that pass and a header that is the computed one as far as it is compared. -/
theorem verifyProposal_eq_ok : c.verifyProposal L p = .ok reqInfos ↔
      ∃ d, p.Decodes W d ∧ d.md.latestSequence = d.header.num ∧
        c.verificationSequence = p.verificationSequence.toUInt64 ∧
        c.verifyProposalRequests L d.requests c.verificationSequence d.header.num = .ok reqInfos ∧
        c.verifyHeader L d.requests d.header d.state d.md = .ok () := by
  simp only [verifyProposal, bind_eq_ok, Prod.exists, proposalParts_eq_ok,
    wrap_eq_ok, ofExcept_eq_ok, require_eq_ok, headerState_eq_ok]
  constructor
  · rintro ⟨raw, metadata, payload, ⟨hh, hm, hp⟩, requests, hrequests, hdr, hhdr, state, hstate, md,
      hmd, _, hnum, _, hseq, infos, hinfos, _, hverify, hret⟩
    cases hret
    exact ⟨⟨requests, hdr, state, md⟩, ⟨⟨payload, hp, hrequests⟩, ⟨raw, hh, hhdr⟩,
      ⟨metadata, hm, hmd⟩, hstate⟩, hnum, hseq, hinfos, hverify⟩
  · rintro ⟨d, ⟨⟨payload, hp, hrequests⟩, ⟨raw, hh, hhdr⟩, ⟨metadata, hm, hmd⟩, hstate⟩, hnum, hseq, hinfos, hverify⟩
    exact ⟨raw, metadata, payload, ⟨hh, hm, hp⟩, d.requests, hrequests, d.header, hhdr, d.state,
      hstate, d.md, hmd, (), hnum, (), hseq, reqInfos, hinfos, (), hverify, rfl⟩

/-! ## The plan is in place in what the leader creates -/

theorem digest_configTx {r : Computed} {num} (h : pb ∈ r.plan W c num) {tx} (htx : pb.configTx = some tx) :
    W.digest [tx] = pb.header.dataHash := by
  rcases mem_append.mp h with h | h
  · rw [planData_configTx h] at htx
    cases htx
  · cases hrs : r.configRequests with
    | nil => simp [hrs, planConfig] at h
    | cons configRequest rest =>
      rw [hrs, planConfig, mem_singleton] at h
      subst h
      cases htx
      rfl

theorem inPlace_create (r : Computed) (num : DecisionNum) :
    InPlace W (r.plan W c num) ((r.plan W c num).map (PlannedBlock.create W)) := by
  intro k pb hk
  refine ⟨pb.create W, by simp [hk], PlannedBlock.matches_create fun tx htx => ?_⟩
  exact digest_configTx (mem_of_getElem? hk) htx

end Consensus

end Arma
