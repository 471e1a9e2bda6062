import Arma.Consensus.Accept
import Arma.Consensus.History
import Arma.Consensus.Sign

/-!
# What acceptance pins

A follower that accepts a proposal has walked the blocks it computed itself, and has compared the leader's
block at each index with its own. It has not looked at the rest of the leader's list, nor at the transactions
of a data block, nor at more of a LAST_CONFIG entry than the number in it. This file says when that is enough
for the leader's list to be the one that `AssembleProposal` builds from the same state and requests.

* `SameBlocks`: header by header, data by data, and the two metadata entries.
* `HonestShape`: what a follower could read off the proposal and its own state, and does not: there are as many
  blocks as the number of the last block has grown by, data blocks carry no transactions, and LAST_CONFIG
  entries are marshalled the way `AssembleProposal` does.
* **`verifyProposal_pins_iff`**: an accepted proposal is pinned iff it has that shape, and then the digests
  that are indexed are those of the attestations, and the messages that are signed those over the
  computed blocks.
* **`padded_proposal_accepted`**: a block too many is accepted.
-/

namespace Arma

open Arma.Lib Outcome List Computed PlannedBlock

def Block.entry (block : Block) (index : Nat) : Option Bytes := block.metadata.bind (·[index]?)

/-- The same header, the same data, the same ORDERER and LAST_CONFIG entries. -/
structure SameBlock (b b' : Block) : Prop where
  header : b.header = b'.header
  data : b.data = b'.data
  orderer : b.entry indexOrderer = b'.entry indexOrderer
  lastConfig : b.entry indexLastConfig = b'.entry indexLastConfig

abbrev SameBlocks : List Block → List Block → Prop := Forall₂ SameBlock

/-- The payload has a config request of the next config sequence. -/
def HasNextConfigRequest (W : Wire) (c : Consensus) (requests : BatchedRequests) : Prop :=
  ∃ req ∈ requests, ∃ r, ControlEvent.fromBytes W req = .ok (.configRequest r) ∧
    r.configSequence W = .ok (c.verificationSequence + 1)

/-- **The shape of an honest leader's list of blocks.** -/
structure HonestShape (W : Wire) (c : Consensus) (d : Decoded) : Prop where
  /-- The last block of the proposed state is as far from the node's last block as there are blocks. -/
  count : ∃ last next, W.blockHeader.unmarshal c.state.appContext = .ok last ∧
    W.blockHeader.unmarshal d.state.appContext = .ok next ∧
    next.number = last.number + d.header.availableCommonBlocks.length
  /-- No block has transactions, but the last one if the payload has a config request. -/
  data : ∀ k ab, d.header.availableCommonBlocks[k]? = some ab →
    (k + 1 < d.header.availableCommonBlocks.length ∨ ¬ HasNextConfigRequest W c d.requests) → ab.data = some []
  lastConfig : ∀ ab ∈ d.header.availableCommonBlocks, ∃ n, ab.entry indexLastConfig = some (lastConfigEntry W n)
  /-- Where the config sequence wraps around, requests of the next one are not verified. -/
  wrapAround : c.verificationSequence + 1 = 0 → HasNextConfigRequest W c d.requests →
    ∀ ab, d.header.availableCommonBlocks.getLast? = some ab → isConfigBlock W ab = true

/-- The hash does not collide on a transaction of a proposed block and a config request of the payload. -/
def HashSeparates (W : Wire) (d : Decoded) : Prop :=
  ∀ ab ∈ d.header.availableCommonBlocks, ∀ tx, ab.data = some [tx] →
    ∀ req ∈ d.requests, ∀ r, ControlEvent.fromBytes W req = .ok (.configRequest r) →
      W.digest [tx] = W.digest [W.envelope.marshal r.envelope] → tx = W.envelope.marshal r.envelope

/-! ## Block by block -/

section Block

variable {W : Wire} {block : Block} {pb : PlannedBlock} {plan : List PlannedBlock} {blocks : List Block}

/-- **A block that matches is the one to be built** iff its data and the form of its LAST_CONFIG entry
are. -/
theorem PlannedBlock.Matches.sameBlock_iff (h : pb.Matches W block) : SameBlock block (pb.create W) ↔
      block.data = some pb.configTx.toList ∧ ∃ n, block.entry indexLastConfig = some (lastConfigEntry W n) := by
  have hcreated : (pb.create W).entry indexLastConfig = some (lastConfigEntry W pb.lastConfig) := rfl
  have horderer : (pb.create W).entry indexOrderer = some pb.orderer := rfl
  obtain ⟨md, hmd, hord, raw, m, hraw, hm, hlast⟩ := h.metadata
  have hentry : ∀ index, block.entry index = md[index]? := fun index => by simp [Block.entry, hmd]
  constructor
  · intro hsame
    exact ⟨hsame.data, _, hsame.lastConfig.trans hcreated⟩
  · rintro ⟨hdata, n, hn⟩
    refine ⟨h.header, hdata, by rw [hentry, hord, horderer], ?_⟩
    -- the entry decodes to the planned number, so it is the entry for that number
    obtain rfl : raw = lastConfigEntry W n := Option.some.inj (hraw.symm.trans (hentry _ ▸ hn))
    rw [lastConfigEntry, Codec.unmarshal_marshal] at hm
    cases hm
    rw [Codec.unmarshal_marshal] at hlast
    rw [hn, hcreated, LastConfig.mk.inj (Except.ok.inj hlast)]

end Block

/-! ## What was computed, read off the proposal -/

section Accepted

variable {W : Wire} {L : ConfigLib W} {c : Consensus} {p : Proposal} {d : Decoded} {r : Computed}
  {requests : BatchedRequests} {num : DecisionNum}

theorem Consensus.Computes.configRequests_ne_nil_iff (h : c.Computes L requests r) :
    r.configRequests ≠ [] ↔ HasNextConfigRequest W c requests := by
  obtain ⟨s, attestations, hsim, -, -, -⟩ := h
  constructor
  · intro hne
    obtain ⟨configRequest, rest, hrs⟩ := exists_cons_of_ne_nil hne
    have hmem : configRequest ∈ r.configRequests := by simp [hrs]
    obtain ⟨req, hreq, hread⟩ := mem_requests_of_configRequests hsim hmem
    exact ⟨req, hreq, configRequest, hread, simulateStateTransition_configRequests hsim configRequest hmem⟩
  · rintro ⟨req, hreq, configRequest, hread, hseq⟩
    obtain ⟨ces, extracted, hces, hp, -⟩ := simulateStateTransition_eq_ok.mp hsim
    obtain ⟨-, -, hrs⟩ := State.process_frame hp
    obtain ⟨ce, hce, hread'⟩ := mem_mapEach_of_mem hces hreq
    cases hread.symm.trans hread'
    have hkept : ControlEvent.configRequest configRequest ∈
        (filterCEsWithDiffConfigSeq W c.verificationSequence (pruneKnown c.badb ces)).1 :=
      mem_filter.mpr ⟨mem_filter.mpr ⟨hce, rfl⟩, by simp [filterCE, hseq]⟩
    rw [hrs]
    exact ne_nil_of_mem (mem_filterMap.mpr ⟨_, hkept, rfl⟩)

/-- The last block of the computed state is `r.count` blocks on from the node's last block. -/
theorem Consensus.Computes.unmarshal_next (h : c.Computes L requests r) (num : DecisionNum) :
    ∃ next, W.blockHeader.unmarshal (r.nextState W c num).appContext = .ok next ∧
      next.number = r.last.number + r.count := by
  unfold Computed.nextState
  cases hpb : (r.plan W c num).getLast? with
  | none =>
    have hcount : r.count = 0 := by
      rw [← length_plan W c r num, getLast?_eq_none_iff.mp hpb, length_nil]
    obtain ⟨s, attestations, -, -, hlast, -⟩ := h
    exact ⟨r.last, hlast, by omega⟩
  | some pb =>
    refine ⟨pb.header, Codec.unmarshal_marshal _ _, ?_⟩
    have hpos : 0 < (r.plan W c num).length := length_pos_of_mem (mem_of_getLast? hpb)
    rw [getLast?_eq_getElem?] at hpb
    rw [number_plan hpb]
    rw [length_plan] at hpos ⊢
    omega

namespace Consensus.Accepted

theorem appContext_eq (h : c.Accepted L p d r) : d.state.appContext = (r.nextState W c d.header.num).appContext :=
  congrArg ProtoState.appContext (W.state.toCodec.marshal_injective h.state)

theorem count_iff (h : c.Accepted L p d r) : (∃ last next, W.blockHeader.unmarshal c.state.appContext = .ok last ∧
      W.blockHeader.unmarshal d.state.appContext = .ok next ∧
      next.number = last.number + d.header.availableCommonBlocks.length) ↔
      d.header.availableCommonBlocks.length = r.count := by
  obtain ⟨next, hnext, hnumber⟩ := h.computes.unmarshal_next d.header.num
  rw [h.computes.unmarshal_last, h.appContext_eq, hnext]
  constructor
  · rintro ⟨_, _, ⟨⟩, ⟨⟩, hnum⟩
    omega
  · intro hlen
    exact ⟨_, _, rfl, rfl, by omega⟩

/-- **The list is the one to be built** iff it has as many blocks, the data of its data blocks is
empty and the LAST_CONFIG entries are marshalled as they should be. -/
theorem sameBlocks_iff (h : c.Accepted L p d r) (hhash : HashSeparates W d) : SameBlocks d.header.availableCommonBlocks
        ((r.plan W c d.header.num).map (create W)) ↔ d.header.availableCommonBlocks.length = r.count ∧
        (∀ k ab, d.header.availableCommonBlocks[k]? = some ab →
          (k + 1 < d.header.availableCommonBlocks.length ∨ r.configRequests = []) → ab.data = some []) ∧
        ∀ ab ∈ d.header.availableCommonBlocks, ∃ n, ab.entry indexLastConfig = some (lastConfigEntry W n) := by
  rw [SameBlocks, forall₂_iff_getElem?, length_map, length_plan]
  refine and_congr_right fun hlen => ?_
  -- the block at an index and the planned one there
  have hplanned : ∀ (k : Nat) ab, d.header.availableCommonBlocks[k]? = some ab →
      ∃ pb : PlannedBlock, (r.plan W c d.header.num)[k]? = some pb ∧ pb.Matches W ab := by
    intro k ab hab
    have hk : k < (r.plan W c d.header.num).length := by
      rw [length_plan, ← hlen]
      exact lt_of_getElem? hab
    obtain ⟨block, hblock, hmatch⟩ := h.inPlace k _ (getElem?_eq_getElem hk)
    cases hab.symm.trans hblock
    exact ⟨_, getElem?_eq_getElem hk, hmatch⟩
  constructor
  · intro hsame
    have hblock : ∀ (k : Nat) ab (pb : PlannedBlock), d.header.availableCommonBlocks[k]? = some ab →
        (r.plan W c d.header.num)[k]? = some pb → pb.Matches W ab → _ :=
      fun k ab pb hab hpb hmatch =>
        hmatch.sameBlock_iff.mp (hsame k ab (pb.create W) hab (by simp [hpb]))
    constructor
    · intro k ab hab hdata
      obtain ⟨pb, hpb, hmatch⟩ := hplanned k ab hab
      rcases getElem?_plan hpb with ⟨hpbdata, -⟩ | ⟨configRequest, rest, hrs, -, hcount, -⟩
      · rw [(hblock k ab pb hab hpb hmatch).1, planData_configTx (mem_of_getElem? hpbdata)]
        rfl
      · rcases hdata with hlt | hnil
        · omega
        · simp [hrs] at hnil
    · intro ab hab
      obtain ⟨k, hk⟩ := mem_iff_getElem?.mp hab
      obtain ⟨pb, hpb, hmatch⟩ := hplanned k ab hk
      exact (hblock k ab pb hk hpb hmatch).2
  · rintro ⟨hdata, hlastConfig⟩ k ab built hab hbuilt
    obtain ⟨pb, hpb, hmatch⟩ := hplanned k ab hab
    obtain rfl : pb.create W = built := by simpa [hpb] using hbuilt
    refine hmatch.sameBlock_iff.mpr ⟨?_, hlastConfig ab (mem_of_getElem? hab)⟩
    rcases getElem?_plan hpb with ⟨hpbdata, hpos⟩ | ⟨configRequest, rest, hrs, -, -, rfl⟩
    · rw [hdata k ab hab (hlen ▸ hpos), planData_configTx (mem_of_getElem? hpbdata)]
      rfl
    · -- the config block's transaction has the digest of the config request, and so is it
      obtain ⟨⟨tx, htx, hdigest⟩, -⟩ := hmatch.data rfl
      obtain ⟨s, attestations, hsim, -⟩ := h.computes
      obtain ⟨req, hreq, hread⟩ := mem_requests_of_configRequests hsim (r := configRequest) (by simp [hrs])
      rw [htx, hhash ab (mem_of_getElem? hab) tx htx req hreq configRequest hread hdigest]
      rfl

end Consensus.Accepted

end Accepted

/-! ## What is indexed and what is signed -/

section Consequences

variable {W : Wire} {L : ConfigLib W} {c : Consensus} {p : Proposal} {d : Decoded} {r : Computed}
  {blocks blocks' : List Block} {num : DecisionNum}

theorem SameBlock.isConfigBlock_eq {b b'} (h : SameBlock b b') : isConfigBlock W b = isConfigBlock W b' := by
  unfold isConfigBlock
  rw [h.data]

theorem digestsOf_congr (h : SameBlocks blocks blocks') : digestsOf W blocks = digestsOf W blocks' := by
  induction h with
  | nil => rfl
  | cons hb _ ih =>
    unfold digestsOf dataBlocks at ih ⊢
    simp only [filter_cons, hb.isConfigBlock_eq]
    split
    · simp only [map_cons, ih, hb.header]
    · exact ih

theorem SameBlock.blockMessage_eq {b : Block} {pb : PlannedBlock} (h : SameBlock b (pb.create W))
    (identifierHeader : Bytes) (n : Nat) :
    blockMessage W b identifierHeader n = blockMessage W (pb.create W) identifierHeader n := by
  have hcov : ∀ block : Block, block.header = some pb.header → block.entry indexOrderer = some pb.orderer →
      blockMessage W block identifierHeader n = .ok (messageToSign W pb.header identifierHeader n pb.orderer) := by
    intro block hheader hentry
    obtain ⟨md, hmd, horderer⟩ := Option.bind_eq_some_iff.mp hentry
    exact @blockMessage_of W block ⟨pb.header, pb.orderer, n⟩ ⟨hheader, md, hmd, horderer⟩ _
  rw [hcov b h.header h.orderer, hcov (pb.create W) rfl rfl]

/-- **The same is signed** over the same blocks. -/
theorem signBlocks_congr {plan : List PlannedBlock}
    (h : SameBlocks blocks (plan.map (create W))) (signer : Signer) (i n : Nat) :
    c.signBlocks W signer i n blocks = c.signBlocks W signer i n (plan.map (create W)) := by
  induction plan generalizing blocks i n with
  | nil => rw [forall₂_nil_right_iff.mp h, map_nil]
  | cons pb plan ih =>
    obtain ⟨b, rest, hb, hrest, rfl⟩ := forall₂_cons_right_iff.mp h
    have hlast : lastConfigFrom W n b = lastConfigFrom W n (pb.create W) := by
      unfold lastConfigFrom
      rw [hb.isConfigBlock_eq, hb.header]
    simp only [Consensus.signBlocks, map_cons, hlast, hb.blockMessage_eq, ih hrest]

/-- The config block of a plan is taken for one if its envelope is of type CONFIG. -/
theorem isConfigBlock_plannedConfig {configRequest count head}
    (h : W.envelopeType configRequest.envelope = some headerTypeConfig) :
    isConfigBlock W ((plannedConfig W num count head configRequest).create W) = true := by
  simp [isConfigBlock, create, plannedConfig, h]

/-- **A config request of an accepted proposal is of type CONFIG**, but where the config sequence wraps
around. -/
theorem Consensus.Accepted.envelopeType_eq (h : c.Accepted L p d r) {configRequest}
    (hmem : configRequest ∈ r.configRequests) (hwrap : c.verificationSequence + 1 ≠ 0) :
    W.envelopeType configRequest.envelope = some headerTypeConfig := by
  obtain ⟨s, attestations, hsim, -⟩ := h.computes
  obtain ⟨req, hreq, hread⟩ := mem_requests_of_configRequests hsim hmem
  have hseq := simulateStateTransition_configRequests hsim configRequest hmem
  obtain ⟨ce, configSeq, isBAF, hce, hce', hverify⟩ := h.requests req hreq
  cases hread.symm.trans hce
  obtain ⟨rfl, rfl⟩ : c.verificationSequence = configSeq ∧ false = isBAF := by
    simpa [Consensus.eventConfigSeq, hseq, hwrap, UInt64.add_sub_cancel] using hce'
  have hpass := hverify (Or.inl rfl)
  simp only [Consensus.verifyEvent, Consensus.verifyConfigRequest, NodeConfig.validateConfigRequest,
    bind_eq_ok, wrap_eq_ok, require_eq_ok] at hpass
  obtain ⟨-, -, -, -, -, ⟨-, htype, -⟩, -⟩ := hpass
  exact htype

theorem digestsOf_plan_of_nil (hrs : r.configRequests = []) :
    digestsOf W ((r.plan W c num).map (create W)) = r.fragments.map (·.digest) := by
  rw [plan_of_nil hrs, digestsOf, dataBlocks_planData, dataHashes_planData]

/-- The digests of a plan are those of its fragments iff its config block is taken for one. -/
theorem digestsOf_plan_of_cons {configRequest rest} (hrs : r.configRequests = configRequest :: rest) :
    digestsOf W ((r.plan W c num).map (create W)) = r.fragments.map (·.digest) ↔
      isConfigBlock W ((plannedConfig W num r.count (r.dataHead W c) configRequest).create W) = true := by
  have hsplit : ∀ l b, digestsOf W (l ++ [b]) = digestsOf W l ++ digestsOf W [b] := fun l b => by
    simp [digestsOf, dataBlocks]
  rw [plan_of_cons hrs, map_append, map_singleton, hsplit]
  rw [digestsOf, dataBlocks_planData, dataHashes_planData, append_right_eq_self]
  generalize (plannedConfig W num r.count (r.dataHead W c) configRequest).create W = b
  cases hb : isConfigBlock W b with
  | true | false => simp [digestsOf, dataBlocks, hb]

theorem SameBlocks.getLast_config {configRequest rest} (h : SameBlocks blocks ((r.plan W c num).map (create W)))
    (hrs : r.configRequests = configRequest :: rest) : ∃ ab, blocks.getLast? = some ab ∧
      SameBlock ab ((plannedConfig W num r.count (r.dataHead W c) configRequest).create W) := by
  rw [plan_of_cons hrs, map_append, map_singleton] at h
  obtain ⟨ab, rest', hab, hnil, hdrop⟩ := forall₂_cons_right_iff.mp (forall₂_drop_append _ _ _ h)
  obtain rfl := forall₂_nil_right_iff.mp hnil
  refine ⟨ab, ?_, hab⟩
  rw [← take_append_drop _ blocks, hdrop, getLast?_concat]

end Consequences

/-! ## Acceptance -/

section Pins

variable {W : Wire} {L : ConfigLib W} {c : Consensus} {p : Proposal} {d : Decoded} {r : Computed}
  {reqInfos : List RequestInfo}

/-- **The proposal is pinned**: its blocks are those that were to be built, the digests to be indexed those
of the attestations, and the messages to be signed those over the blocks that were to be built. -/
structure Pinned (W : Wire) (c : Consensus) (d : Decoded) (built : List Block)
    (attestations : List (List BAF)) : Prop where
  blocks : SameBlocks d.header.availableCommonBlocks built
  digests : digestsOf W d.header.availableCommonBlocks = (firstFragments attestations).map (·.digest)
  signed : ∀ signer i lastConfigBlockNum, c.signBlocks W signer i lastConfigBlockNum d.header.availableCommonBlocks =
      c.signBlocks W signer i lastConfigBlockNum built

/-- The digests are those of the fragments iff the config block, if there is one, is taken for one. -/
theorem Consensus.Accepted.digests_iff (h : c.Accepted L p d r) (hsame : SameBlocks d.header.availableCommonBlocks
      ((r.plan W c d.header.num).map (create W))) :
    digestsOf W d.header.availableCommonBlocks = r.fragments.map (·.digest) ↔
      (c.verificationSequence + 1 = 0 → r.configRequests ≠ [] →
        ∀ ab, d.header.availableCommonBlocks.getLast? = some ab → isConfigBlock W ab = true) := by
  rw [digestsOf_congr hsame]
  cases hrs : r.configRequests with
  | nil => simp [digestsOf_plan_of_nil hrs]
  | cons configRequest rest =>
    obtain ⟨ab, hlast, hab⟩ := hsame.getLast_config hrs
    rw [digestsOf_plan_of_cons hrs, ← hab.isConfigBlock_eq]
    constructor
    · intro hconfig _ _ ab' hab'
      cases hlast.symm.trans hab'
      exact hconfig
    · intro hshape
      by_cases hwrap : c.verificationSequence + 1 = 0
      · exact hshape hwrap (by simp) ab hlast
      · rw [hab.isConfigBlock_eq]
        exact isConfigBlock_plannedConfig (h.envelopeType_eq (by simp [hrs]) hwrap)

theorem Consensus.Accepted.pinned_iff (h : c.Accepted L p d r) (hhash : HashSeparates W d)
    {attestations : List (List BAF)} (hbs : r.fragments = firstFragments attestations) :
    Pinned W c d ((r.plan W c d.header.num).map (create W)) attestations ↔ HonestShape W c d := by
  have hrequests := h.computes.configRequests_ne_nil_iff
  constructor
  · rintro ⟨hsame, hdigests, -⟩
    obtain ⟨hlen, hdata, hlastConfig⟩ := (h.sameBlocks_iff hhash).mp hsame
    refine ⟨h.count_iff.mpr hlen, fun k ab hab hor => hdata k ab hab ?_, hlastConfig, ?_⟩
    · exact hor.imp_right fun hno => not_not.mp fun hne => hno (hrequests.mp hne)
    · rw [← hrequests]
      exact (h.digests_iff hsame).mp (hbs ▸ hdigests)
  · intro hshape
    have hlen := h.count_iff.mp hshape.count
    have hsame := (h.sameBlocks_iff hhash).mpr ⟨hlen, fun k ab hab hor => hshape.data k ab hab
      (hor.imp_right fun hnil hno => hrequests.mpr hno hnil), hshape.lastConfig⟩
    refine ⟨hsame, hbs ▸ (h.digests_iff hsame).mpr ?_, fun signer => signBlocks_congr hsame signer⟩
    rw [hrequests]
    exact hshape.wrapAround

/-- **An accepted proposal is pinned iff it has an honest leader's shape.** -/
theorem verifyProposal_pins_iff (hverify : c.verifyProposal L p = .ok reqInfos) (hd : p.Decodes W d)
    (hhash : HashSeparates W d) : ∃ (built : Proposal) (hdr : Header) (s : State) (attestations : List (List BAF))
      (configRequests : List ConfigRequest), c.assembleProposal L p.metadata d.requests = .ok built ∧
      built.header = some (hdr.serialize W) ∧
      simulateStateTransition W c.badb c.state c.verificationSequence d.requests =
        .ok (s, attestations, configRequests) ∧
      (Pinned W c d hdr.availableCommonBlocks attestations ↔ HonestShape W c d) := by
  obtain ⟨d', r, h, -⟩ := verifyProposal_iff_accepted.mp hverify
  obtain rfl := hd.unique h.decodes
  have hr := h.computes
  obtain ⟨s, attestations, hsim, -, -, hbs⟩ := id hr
  obtain ⟨metadata, hmetadata, hmd⟩ := hd.metadata
  have hmd' : W.viewMetadata.unmarshal (p.metadata.getD []) = .ok d.md := by simpa [hmetadata] using hmd
  refine ⟨r.proposal W c d.md.latestSequence p.metadata d.requests, r.header W c d.md.latestSequence,
    s, attestations, r.configRequests, Consensus.assembleProposal_eq_ok.mpr ⟨r, d.md, hr, hmd', rfl⟩, rfl, hsim, ?_⟩
  rw [h.num]
  exact h.pinned_iff hhash hbs

theorem hashSeparates_refWire {d}
    (h : d.requests = fragmentRequests refWire [firstBatchBy 1]) : HashSeparates refWire d := by
  intro ab _ tx _ req hreq configRequest hread
  obtain rfl : req = (ControlEvent.baf (firstBatchBy 1)).bytes refWire := by
    simpa [h, fragmentRequests] using hreq
  have hbaf : ControlEvent.fromBytes refWire ((ControlEvent.baf (firstBatchBy 1)).bytes refWire) =
      .ok (.baf (firstBatchBy 1)) := ControlEvent.fromBytes_bytes refWire trivial
  cases hbaf.symm.trans hread

/-- The proposal that the reference node assembles is accepted, and pinned iff it has the shape. -/
theorem pins_genesisNode : ∃ p reqInfos d, soleNode.verifyProposal soleLib p = .ok reqInfos ∧
      ∃ (built : Proposal) (hdr : Header) (s : State) (attestations : List (List BAF))
        (configRequests : List ConfigRequest),
        soleNode.assembleProposal soleLib
          p.metadata d.requests = .ok built ∧ built.header = some (hdr.serialize refWire) ∧
        simulateStateTransition refWire soleNode.badb soleNode.state soleNode.verificationSequence
          d.requests = .ok (s, attestations, configRequests) ∧
        (Pinned refWire soleNode d hdr.availableCommonBlocks attestations ↔ HonestShape refWire soleNode d) := by
  have hwf := reachable_soleNode.wellFormed
  obtain ⟨r, hr, -, -⟩ := computes_refWire soleLib
  have hmd := Codec.unmarshal_marshal refWire.viewMetadata.toCodec (⟨1⟩ : ViewMetadata)
  obtain ⟨reqInfos, haccepted⟩ := (accepted_assembled_iff hwf framed_refWire hmd hr
    (SameView.refl _)).mpr (requestsPass_refWire _)
  exact ⟨_, reqInfos, _, haccepted, verifyProposal_pins_iff haccepted
    (decodes_proposal hwf framed_refWire hmd hr) (hashSeparates_refWire rfl)⟩

theorem accepts_padded {metadata md requests} (hwf : c.state.WellFormed W) (hframed : Framed requests)
    (hmd : W.viewMetadata.unmarshal metadata = .ok md) (hr : c.Computes L requests r)
    (hpass : RequestsPass L c md.latestSequence requests) (block : Block) :
    ∃ p reqInfos d, c.verifyProposal L p = .ok reqInfos ∧ p.Decodes W d ∧ d.requests = requests ∧
      p.metadata = some metadata ∧ d.header.availableCommonBlocks =
        (r.header W c md.latestSequence).availableCommonBlocks ++ [block] := by
  have hplace : InPlace W (r.plan W c md.latestSequence)
      ((r.header W c md.latestSequence).availableCommonBlocks ++ [block]) := by
    intro k pb hpb
    obtain ⟨ab, hab, hmatch⟩ := Consensus.inPlace_create r md.latestSequence k pb hpb
    refine ⟨ab, ?_, hmatch⟩
    rw [Computed.header, getElem?_append_left (lt_of_getElem? hab), hab]
  obtain ⟨reqInfos, haccepted⟩ := @accepted_forged _ _ _ _ r metadata md
    { r.header W c md.latestSequence with
      availableCommonBlocks := (r.header W c md.latestSequence).availableCommonBlocks ++ [block] }
    hwf hframed hmd hr rfl rfl rfl hplace hpass
  exact ⟨_, reqInfos, _, haccepted, decodes_forged hwf hframed hmd hr rfl, rfl, rfl, rfl⟩

/-- **A block too many is accepted**: the leader appends a block without a header to the one block of the
decision, and the follower takes the proposal, which is not the one that it would have assembled. -/
theorem padded_proposal_accepted : ∃ p reqInfos d built hdr, soleNode.verifyProposal
        soleLib p = .ok reqInfos ∧ p.Decodes refWire d ∧ HashSeparates refWire d ∧
      soleNode.assembleProposal soleLib
        p.metadata d.requests = .ok built ∧ built.header = some (Header.serialize refWire hdr) ∧
      ¬ SameBlocks d.header.availableCommonBlocks hdr.availableCommonBlocks := by
  have hwf := reachable_soleNode.wellFormed
  obtain ⟨r, hr, -, -⟩ := computes_refWire soleLib
  have hmd := Codec.unmarshal_marshal refWire.viewMetadata.toCodec (⟨1⟩ : ViewMetadata)
  obtain ⟨p, reqInfos, d, haccepted, hd, hrequests, hmetadata, hblocks⟩ :=
    accepts_padded hwf framed_refWire hmd hr (requestsPass_refWire _) ⟨none, none, none⟩
  refine ⟨p, reqInfos, d, _, r.header refWire soleNode 1, haccepted, hd, hashSeparates_refWire hrequests,
    Consensus.assembleProposal_eq_ok.mpr ⟨r, ⟨1⟩, hrequests ▸ hr, by rw [hmetadata]; exact hmd, rfl⟩,
    rfl, fun hsame => ?_⟩
  have hlen := hsame.length_eq
  rw [hblocks] at hlen
  simp at hlen

end Pins

end Arma
