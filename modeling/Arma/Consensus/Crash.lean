import Arma.Consensus.Accept

/-!
# When a proposal can crash a follower

`VerifyProposal` walks the blocks that the follower computed and indexes with them into the blocks of the
leader. It does not compare the lengths of the two lists first, follows the header of the leader's block
without a nil check, and reads the ORDERER entry of a data block's metadata once they are not empty. So a
leader that sends fewer blocks than computed, or a block without a header, or metadata that are too short,
makes the follower panic. Before that it verifies the requests, and the rules of a new config may panic.

* **`Reachable.verifyProposal_noPanic_iff`**: nothing else can make `VerifyProposal` panic.
* `short_proposal_panics`: a proposal without blocks, where one block was computed, does.
-/

namespace Arma

open Arma.Lib Outcome List Consensus

/-- What the check of a planned block dereferences is there: the block at its index and its header, and, in
a data block with the planned header, an ORDERER entry if there are metadata. -/
def SafeAt (pb : PlannedBlock) (blocks : List Block) (k : Nat) : Prop :=
  ∃ block header, blocks[k]? = some block ∧ block.header = some header ∧
    (pb.configTx = none → header = pb.header → ∀ md, block.metadata = some md → md ≠ [] → indexOrderer < md.length)

/-- Every check that is reached, all planned blocks before being in place, is safe. -/
def SafeWalk (W : Wire) (plan : List PlannedBlock) (blocks : List Block) : Prop :=
  ∀ k pb, plan[k]? = some pb → InPlace W (plan.take k) blocks → SafeAt pb blocks k

/-! ## The walk over the data blocks -/

section Walk

variable {W : Wire} {num : DecisionNum} {count lastConfigBlockNum : Nat} {proposed : List Block}

theorem noPanic_verifyData_iff {i head b} :
    (∃ block, proposed[i]? = some block ∧ (verifyDataCommonBlock W block (head.lastBlockNumber + 1)
      head.prevHash (batchIDKeyOf b) (head.currentTXCount + b.txCount) ⟨num, count, i⟩ lastConfigBlockNum).NoPanic) ↔
      SafeAt (plannedData W num count lastConfigBlockNum i head b) proposed i := by
  simp only [noPanic_verifyDataCommonBlock_iff, SafeAt]
  constructor
  · rintro ⟨block, hblock, header, hheader, hmd⟩
    exact ⟨block, header, hblock, hheader, fun _ => hmd⟩
  · rintro ⟨block, header, hblock, hheader, hmd⟩
    exact ⟨block, hblock, header, hheader, hmd rfl⟩

/-- **The walk cannot panic** iff every check that is reached is safe. -/
theorem noPanic_verifyDataBlocks_iff {attestations bs}
    (h : Forall₂ (fun g b => g[0]? = some b) attestations bs) {i head} :
    (verifyDataBlocks W num count lastConfigBlockNum proposed i head attestations).NoPanic ↔
      ∀ k pb, (planData W num count lastConfigBlockNum i head bs)[k]? = some pb →
        (∀ j pb', j < k → (planData W num count lastConfigBlockNum i head bs)[j]? = some pb' →
          ∃ block, proposed[i + j]? = some block ∧ pb'.Matches W block) → SafeAt pb proposed (i + k) := by
  induction h generalizing i head with
  | nil => simp [verifyDataBlocks, planData]
  | @cons g b attestations bs hg _ ih =>
    have hshift : ∀ n, i + 1 + n = i + (n + 1) := fun n => by omega
    rw [verifyDataBlocks, index_eq_ok.mpr hg, ok_bind, planData]
    simp only [forall_getElem?_cons, forall_lt_getElem?_cons, Nat.add_zero, Nat.not_lt_zero,
      false_implies, implies_true, true_implies]
    rw [← noPanic_verifyData_iff]
    cases hblock : proposed[i]? with
    | none => simp [Outcome.index, hblock, Outcome.NoPanic]
    | some block =>
      have hrest := @ih (i + 1) (head.next W b)
      simp only [hshift] at hrest
      rw [index_eq_ok.mpr hblock, ok_bind]
      simp only [noPanic_bind_iff, noPanic_wrap_iff, wrap_eq_ok,
        verifyDataCommonBlock_iff_matches, Option.some.injEq, exists_eq_left']
      refine and_congr_right fun _ => ⟨fun h k pb hk hmatch => ?_, fun h _ hm => ⟨?_, ?_⟩⟩
      · obtain ⟨hm, hbefore⟩ := hmatch
        exact hrest.mp (h () hm).1 k pb hk hbefore
      · exact hrest.mpr fun k pb hk hbefore => h k pb hk ⟨hm, hbefore⟩
      · intro r _
        exact noPanic_ok _

end Walk

/-! ## The whole plan -/

section Plan

variable {W : Wire} {L : ConfigLib W} {c : Consensus} {requests : BatchedRequests} {r : Computed}
  {num : DecisionNum} {blocks : List Block}

theorem inPlace_take {plan : List PlannedBlock} {k} :
    InPlace W (plan.take k) blocks ↔ ∀ j pb, j < k → plan[j]? = some pb →
      ∃ block, blocks[j]? = some block ∧ pb.Matches W block := by
  unfold InPlace
  refine forall₂_congr fun j pb => ?_
  rw [getElem?_take]
  by_cases hj : j < k <;> simp [hj]

theorem noPanic_verifyConfigBlocks_iff {count head configRequests} :
    (verifyConfigBlocks W num count blocks head configRequests).NoPanic ↔
      ∀ pb ∈ planConfig W num count head configRequests, SafeAt pb blocks (count - 1) := by
  cases configRequests with
  | nil => simp [verifyConfigBlocks, planConfig]
  | cons configRequest rest =>
    simp only [verifyConfigBlocks, planConfig, mem_singleton, forall_eq,
      noPanic_bind_iff, noPanic_wrap_iff, index_eq_ok,
      noPanic_verifyConfigCommonBlock_iff, pure_eq, noPanic_ok, implies_true, and_true,
      noPanic_index_iff]
    constructor
    · rintro ⟨hlt, h⟩
      have hblock := getElem?_eq_getElem hlt
      obtain ⟨header, hheader⟩ := h _ hblock
      exact ⟨_, header, hblock, hheader, fun hnone => by simp [plannedConfig] at hnone⟩
    · rintro ⟨block, header, hblock, hheader, -⟩
      refine ⟨lt_of_getElem? hblock, fun block' hblock' => ?_⟩
      cases hblock.symm.trans hblock'
      exact ⟨header, hheader⟩

/-- The walk over a plan is safe iff the walk over its data blocks is and, if that goes through, the check
of the config block is. -/
theorem safeWalk_plan : SafeWalk W (r.plan W c num) blocks ↔
      SafeWalk W (planData W num r.count c.lastConfigBlockNum 0 (c.chainHead W r.last) r.fragments) blocks ∧
      (InPlace W (planData W num r.count c.lastConfigBlockNum 0 (c.chainHead W r.last) r.fragments)
        blocks → ∀ pb ∈ planConfig W num r.count (r.dataHead W c) r.configRequests,
          SafeAt pb blocks (r.count - 1)) := by
  set data := planData W num r.count c.lastConfigBlockNum 0 (c.chainHead W r.last) r.fragments with hdata
  have hlen : data.length = r.fragments.length := length_planData ..
  have htake : ∀ k pb, data[k]? = some pb → ∀ config : List PlannedBlock, (data ++ config).take k = data.take k := by
    intro k pb hk config
    have hlt := lt_of_getElem? hk
    rw [take_append_of_le_length (by omega)]
  unfold SafeWalk Computed.plan
  rw [← hdata, forall_getElem?_append]
  refine and_congr (forall₂_congr fun k pb => ?_) ?_
  · constructor
    · intro h hk hbefore
      exact h hk (by rwa [htake k pb hk])
    · intro h hk hbefore
      exact h hk (by rwa [htake k pb hk] at hbefore)
  · cases hrs : r.configRequests with
    | nil => simp [planConfig]
    | cons configRequest rest =>
      have hcount : r.count - 1 = data.length := by simp [Computed.count, hrs, hlen]
      simp only [planConfig, forall_getElem?_cons, mem_singleton, forall_eq, hcount]
      simp

end Plan

/-! ## The verification -/

section Verify

variable {W : Wire} {L : ConfigLib W} {P : PayloadCondition} {c : Consensus}
  {requests : BatchedRequests} {p : Proposal}

theorem applyConfigRequests_noPanic (s : State) (configRequests) :
    (applyConfigRequests L s configRequests).NoPanic := by
  cases configRequests with
  | nil => exact noPanic_ok _
  | cons r rest =>
    simp [applyConfigRequests, applyConfigToState]

theorem noPanic_walks_iff {r : Computed} {num : DecisionNum} {attestations : List (List BAF)}
    {blocks : List Block} (hheads : Forall₂ (fun g b => g[0]? = some b) attestations r.fragments)
    {f : List BlockHeader × ChainHead → List BlockHeader → Outcome Unit} (hf : ∀ x y, (f x y).NoPanic) : (do
      let x ← verifyDataBlocks W num r.count c.lastConfigBlockNum blocks 0 (c.chainHead W r.last) attestations
      let y ← verifyConfigBlocks W num r.count blocks x.2 r.configRequests
      f x y : Outcome Unit).NoPanic ↔ SafeWalk W (r.plan W c num) blocks := by
  have hdata : (verifyDataBlocks W num r.count c.lastConfigBlockNum blocks 0 (c.chainHead W r.last)
      attestations).NoPanic ↔ SafeWalk W (planData W num r.count c.lastConfigBlockNum 0
        (c.chainHead W r.last) r.fragments) blocks := by
    rw [noPanic_verifyDataBlocks_iff hheads]
    simp only [SafeWalk, inPlace_take, Nat.zero_add]
  rw [noPanic_bind_iff, safeWalk_plan, hdata]
  refine and_congr_right fun _ => ?_
  simp only [noPanic_bind_iff, noPanic_verifyConfigBlocks_iff, hf, implies_true, and_true,
    verifyDataBlocks_eq_ok hheads, Nat.zero_add]
  constructor
  · intro h hplace
    exact h _ ⟨rfl, hplace⟩
  · rintro h x ⟨rfl, hplace⟩
    exact h hplace

theorem noPanic_verifyHeader_iff {hdr : Header} {state : State} {md : ViewMetadata}
    (hc : c.state.WellFormed W) {ces} (hces : requestsToControlEvents W requests = .ok ces) :
    (c.verifyHeader L requests hdr state md).NoPanic ↔ ∀ r, c.Computes L requests r → hdr.decisionNumOfLastConfigBlock =
        c.nextDecisionNumOfLastConfigBlock r.configRequests md.latestSequence →
      SafeWalk W (r.plan W c md.latestSequence) hdr.availableCommonBlocks := by
  obtain ⟨⟨s, attestations, rs⟩, hsim⟩ :=
    @simulateStateTransition_eq W c.badb c.state c.verificationSequence requests ces hc.sound hces
  have hheads := forall₂_firstFragments (simulateStateTransition_groups hsim)
  simp only [verifyHeader, lastCommonBlockHeader, hsim, ok_bind, @noPanic_bind_iff State,
    @noPanic_bind_iff Unit, noPanic_wrap_iff, applyConfigRequests_noPanic, noPanic_require, require_eq_ok, wrap_eq_ok,
    true_and]
  constructor
  · rintro h r ⟨s', attestations', hsim', happly, hlast, hbs⟩ hdn
    cases hsim.symm.trans hsim'
    have hwalk := h r.state happly () hdn
    rw [← hbs] at hheads
    rw [hlast, ofExcept_ok, orPanic_ok, ok_bind, numOfAvailableBlocks_eq hheads] at hwalk
    exact (noPanic_walks_iff hheads fun _ _ => noPanic_require _ _).mp hwalk
  · intro h st happly _ hdn
    obtain ⟨-, -, -, happ⟩ := simulateStateTransition_frame hsim
    obtain ⟨header, hheader⟩ := hc.appContext
    have hlast : W.blockHeader.unmarshal st.appContext = .ok header := by
      rw [(applyConfigRequests_frame happly).2, happ, hheader, Codec.unmarshal_marshal]
    let r : Computed := ⟨st, firstFragments attestations, rs, header⟩
    have hcount : numOfAvailableBlocks attestations rs = r.count := numOfAvailableBlocks_eq (r := r) hheads
    rw [hlast, ofExcept_ok, orPanic_ok, ok_bind, hcount]
    exact (noPanic_walks_iff (r := r) hheads fun _ _ => noPanic_require _ _).mpr
      (h r ⟨s, attestations, hsim, happly, hlast, rfl⟩ hdn)

theorem proposalParts_noPanic (p : Proposal) : (proposalParts p).NoPanic := by
  obtain ⟨payload, header, metadata, seq⟩ := p
  cases header <;> cases metadata <;> cases payload <;> simp [proposalParts]

theorem headerState_noPanic (hdr : Header) : (headerState hdr).NoPanic := by
  unfold headerState
  cases hdr.state <;> simp

/-- The rules of the new configs among the requests do not panic, where all requests before pass. -/
def SafeRequests (L : ConfigLib W) (c : Consensus) (num : DecisionNum) (requests : BatchedRequests) : Prop :=
  ∀ (k : Nat) req r, requests[k]? = some req → RequestsPass L c num (requests.take k)
    → Consensus.ReachesRules W c req r →
    (L.validateNewConfig r.envelope c.partyID).NoPanic

theorem requestsPass_take_iff {num} {k : Nat} : RequestsPass L c num (requests.take k) ↔
    ∀ j req, j < k → requests[j]? = some req →
      ∃ info, c.verifyProposalRequest L c.verificationSequence num req = .ok info := by
  constructor
  · rintro ⟨reqInfos, hpass⟩ j req hj hreq
    obtain ⟨info, -, hinfo⟩ := mem_mapEach_of_mem hpass (mem_of_getElem? ((getElem?_take_of_lt hj).trans hreq))
    exact ⟨info, hinfo⟩
  · intro h
    refine exists_mapEach_eq_ok (fun req hreq => ?_) 0
    obtain ⟨j, hj⟩ := mem_iff_getElem?.mp hreq
    rw [getElem?_take] at hj
    split at hj
    · next hlt => exact h j req hlt hj
    · cases hj

theorem noPanic_verifyProposalRequests_iff {num} :
    (c.verifyProposalRequests L requests c.verificationSequence num).NoPanic ↔ SafeRequests L c num requests := by
  simp only [verifyProposalRequests, noPanic_mapEach_iff,
    noPanic_verifyProposalRequest_iff, ← requestsPass_take_iff, SafeRequests]
  exact ⟨fun h k req r hk hpass => h k req hk hpass r, fun h k req hk hpass r => h k req r hk hpass⟩

/-- The verification of `p`, which decodes to `d`, gets to the requests. -/
structure ReachesRequests (W : Wire) (c : Consensus) (p : Proposal) (d : Decoded) : Prop where
  decodes : p.Decodes W d
  num : d.md.latestSequence = d.header.num
  verificationSequence : c.verificationSequence = p.verificationSequence.toUInt64

/-- It gets as far as walking the blocks of the plan of `r`. -/
structure ReachesBlocks (L : ConfigLib W) (c : Consensus) (p : Proposal) (d : Decoded) (r : Computed) : Prop
    extends ReachesRequests W c p d where
  requests : RequestsPass L c d.header.num d.requests
  computes : c.Computes L d.requests r
  decisionNumOfLastConfigBlock : d.header.decisionNumOfLastConfigBlock =
    c.nextDecisionNumOfLastConfigBlock r.configRequests d.header.num

theorem RequestsPass.exists_events {num} (h : RequestsPass L c num requests) :
    ∃ ces, requestsToControlEvents W requests = .ok ces := by
  obtain ⟨reqInfos, hpass⟩ := h
  obtain ⟨-, hall⟩ := verifyProposalRequests_eq_ok.mp hpass
  refine exists_mapEach_eq_ok (fun req hreq => ?_) 0
  obtain ⟨ce, _, _, hce, -⟩ := hall req hreq
  exact ⟨ce, hce⟩

theorem noPanic_verifyProposal_iff (hwf : c.state.WellFormed W) (p : Proposal) : (c.verifyProposal L p).NoPanic ↔
      (∀ d, ReachesRequests W c p d → SafeRequests L c d.header.num d.requests) ∧
      ∀ d r, ReachesBlocks L c p d r → SafeWalk W (r.plan W c d.header.num) d.header.availableCommonBlocks := by
  have hbatch := BatchedRequests.deserialize_noPanic
  have hheader := Header.deserialize_noPanic W
  simp only [verifyProposal, noPanic_bind_iff, proposalParts_noPanic, hbatch, hheader,
    headerState_noPanic, noPanic_verifyProposalRequests_iff, noPanic_wrap_iff, noPanic_ofExcept,
    noPanic_require, require_eq_ok, wrap_eq_ok, ofExcept_eq_ok,
    headerState_eq_ok, pure_eq, noPanic_ok, true_and, implies_true, and_true,
    Prod.forall, proposalParts_eq_ok]
  constructor
  · intro hno
    refine ⟨?_, ?_⟩
    · rintro ⟨requests, hdr, state, md⟩ ⟨⟨⟨payload, hp, hrequests⟩, ⟨raw, hh, hhdr⟩, ⟨metadata, hm, hmd⟩, hstate⟩,
        hnum, hseq⟩
      exact (hno raw metadata payload ⟨hh, hm, hp⟩ requests hrequests hdr hhdr state hstate md hmd () hnum () hseq).1
    · rintro ⟨requests, hdr, state, md⟩ r ⟨⟨⟨⟨payload, hp, hrequests⟩, ⟨raw, hh, hhdr⟩,
        ⟨metadata, hm, hmd⟩, hstate⟩, hnum, hseq⟩, hpass, hr, hdn⟩
      obtain ⟨ces, hces⟩ := hpass.exists_events
      obtain ⟨reqInfos, hinfos⟩ := hpass
      dsimp only at *
      have hverify := (hno raw metadata payload ⟨hh, hm, hp⟩ requests hrequests hdr hhdr state hstate md hmd
        () hnum () hseq).2 reqInfos hinfos
      rw [← hnum] at hdn ⊢
      exact (noPanic_verifyHeader_iff hwf hces).mp hverify r hr hdn
  · rintro ⟨hrules, hsafe⟩ raw metadata payload ⟨hh, hm, hp⟩ requests hrequests hdr hhdr state hstate md hmd _ hnum
      _ hseq
    have hreaches : ReachesRequests W c p ⟨requests, hdr, state, md⟩ :=
      ⟨⟨⟨payload, hp, hrequests⟩, ⟨raw, hh, hhdr⟩, ⟨metadata, hm, hmd⟩, hstate⟩, hnum, hseq⟩
    refine ⟨hrules _ hreaches, fun reqInfos hinfos => ?_⟩
    have hpass : RequestsPass L c hdr.num requests := ⟨reqInfos, hinfos⟩
    obtain ⟨ces, hces⟩ := hpass.exists_events
    refine (noPanic_verifyHeader_iff hwf hces).mpr fun r hr hdn => ?_
    rw [hnum] at hdn ⊢
    exact hsafe _ r ⟨hreaches, hpass, hr, hdn⟩

/-- **When `VerifyProposal` cannot panic**, at a node that can be reached: iff the rules of the new configs that it gets
to do not panic, and the walk over the computed plan, where it is reached, finds the blocks, headers and metadata
entries that it dereferences. -/
theorem Reachable.verifyProposal_noPanic_iff (h : Reachable L P c) (p : Proposal) : (c.verifyProposal L p).NoPanic ↔
      (∀ d, ReachesRequests W c p d → SafeRequests L c d.header.num d.requests) ∧
      ∀ d r, ReachesBlocks L c p d r → SafeWalk W (r.plan W c d.header.num) d.header.availableCommonBlocks :=
  noPanic_verifyProposal_iff h.wellFormed p

/-- The walk over the block of an honest leader. -/
theorem assembled_proposal_noPanic : ∃ p d r, (soleNode.verifyProposal soleLib p).NoPanic ∧
    ReachesBlocks soleLib soleNode p d r ∧ 0 < r.count ∧
    SafeWalk refWire (r.plan refWire soleNode d.header.num) d.header.availableCommonBlocks := by
  have hreach := reachable_soleNode
  have hmd := Codec.unmarshal_marshal refWire.viewMetadata.toCodec (⟨1⟩ : ViewMetadata)
  obtain ⟨r, hr, -, hfirst⟩ := computes_refWire soleLib
  obtain ⟨reqInfos, haccepted⟩ := (accepted_assembled_iff hreach.wellFormed framed_refWire hmd hr
    (SameView.refl _)).mpr (requestsPass_refWire _)
  have hno := noPanic_ok reqInfos
  rw [← haccepted] at hno
  have hreaches : ReachesBlocks soleLib soleNode _ _ r :=
    ⟨⟨decodes_proposal hreach.wellFormed framed_refWire hmd hr, rfl, (UInt64.toUInt64_toInt64 _).symm⟩,
      requestsPass_refWire _, hr, rfl⟩
  exact ⟨_, _, r, hno, hreaches, by simp [Computed.count, hfirst],
    ((Reachable.verifyProposal_noPanic_iff hreach _).mp hno).2 _ r hreaches⟩

/-- A follower that computed a block does not survive a proposal without one. -/
theorem not_noPanic_short {metadata md r} (hwf : c.state.WellFormed W) (hframed : Framed requests)
    (hmd : W.viewMetadata.unmarshal metadata = .ok md) (hr : c.Computes L requests r)
    (hpass : RequestsPass L c md.latestSequence requests) (hcount : 0 < r.count) : ¬ (c.verifyProposal L (r.forged W c
      { r.header W c md.latestSequence with availableCommonBlocks := [] } (some metadata) requests)).NoPanic := by
  have hseq : c.verificationSequence = (c.verificationSequence.toInt64).toUInt64 := by simp
  have hplan : 0 < (r.plan W c md.latestSequence).length := by rwa [Computed.length_plan]
  intro hno
  have hsafe := ((noPanic_verifyProposal_iff hwf _).mp hno).2 _ r
    ⟨⟨decodes_forged hwf hframed hmd hr rfl, rfl, hseq⟩, hpass, hr, rfl⟩
  obtain ⟨block, header, hblock, -⟩ := hsafe 0 _ (getElem?_eq_getElem hplan) (by simp [InPlace])
  simp at hblock

/-- **A short proposal crashes a follower**: one party's fragment makes one block, and the leader sends
none. -/
theorem short_proposal_panics : Reachable soleLib anyPayload soleNode ∧ ∃ p msg, soleNode.verifyProposal soleLib p =
        .error (.panic msg) := by
  have hreach := reachable_soleNode
  obtain ⟨r, hr, -, hfirst⟩ := computes_refWire soleLib
  have hno := not_noPanic_short hreach.wellFormed framed_refWire
    (Codec.unmarshal_marshal _ (⟨1⟩ : ViewMetadata)) hr (requestsPass_refWire _)
    (by simp [Computed.count, hfirst])
  simp only [NoPanic, not_forall, not_not] at hno
  obtain ⟨msg, hpanic⟩ := hno
  exact ⟨hreach, _, msg, hpanic⟩

end Verify

end Arma
