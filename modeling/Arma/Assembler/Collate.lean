import Arma.Assembler.Replicate
import Arma.Consensus.Reference

/-!
# The assembler commits the blocks

Model of the collator (`node/assembler/collator.go`) and of its replicator between two starts of an assembler. The
replicator is a client as in `Lib/Pull.lean`: the server's log is the decisions of an honest consenter, and at each
connection the client asks for the decision in which its ledger continues, while attestations wait in the channel.

**`Collation.in_order_iff`**: the attestations handed to the collator are the blocks of the consenter from the
ledger's height at the start on, iff every stream that gave a block was opened where the one before ended. Then every
block that is appended has the next number. `Collation.repeated_block` is a run in which the append panics.

The index that keeps the batches is not modelled: it gives any batch, or the collator is cancelled.
-/

namespace Arma

open Arma.Lib AssemblerLedger Outcome List

/-! ## The run -/

/-- Where `processOrderedBatchAttestations` stands. -/
inductive CollatorControl where
  | receive
  | collate (oba : AvailableBatchOrdered)
  | returned
  deriving DecidableEq, Repr

/-- The attestations in the collator's hands. -/
def CollatorControl.inHand : CollatorControl → Option Nat
  | .receive => some 0
  | .collate _ => some 1
  | .returned => none

/-- An assembler between two starts: the consenter's log, the replicator with the position at the start, the
collator, the ledger, and the number of the config block that the assembler runs with. -/
structure Collation (W : Wire) where
  log : ConsensusLog W
  initPosition : AssemblerConsensusPosition
  puller : Puller AvailableBatchOrdered
  control : CollatorControl
  ledger : List Block
  configBlockNumber : Nat

namespace Collation

variable {W : Wire} {c c' c₀ : Collation W} {height : Nat}

/-- The block at the end of the ledger is the one of the consenter with its number, as far as its place goes. -/
def EndsInLog (c : Collation W) : Prop :=
  ∃ blocks block oba, c.ledger = blocks ++ [block] ∧ c.log.obas[blocks.length]? = some oba ∧
    placeOf W block = placeOf W oba.commonBlock

/-- The assembler starts, with a ledger that holds blocks of the consenter: `initLedger` leaves no empty one. -/
structure Begins (c : Collation W) : Prop where
  idle : c.puller = .idle
  control : c.control = .receive
  ends : c.EndsInLog
  init : ∃ oi, lastOrderingInfo W c.ledger = .ok oi ∧ c.initPosition = createAssemblerConsensusPosition oi

/-- The attestations that were handed to the collator, also the one that waits for room in the channel. -/
def handed (c : Collation W) : List AvailableBatchOrdered := c.puller.emitted ++ c.puller.handing

/-- One step of the consenter, the replicator or the collator. Where a call panics there is no step. -/
inductive Step (c : Collation W) : Collation W → Prop
  | decide {log} (hlog : c.log.decisions <+: log.decisions) : Step c { c with log }
  /-- The replicator goes on. `requestEnvelopeFactoryFunc` reads the ledger at each connection. -/
  | pull {oi puller} (hoi : lastOrderingInfo W c.ledger = .ok oi)
      (hstep : Puller.Step (blockHandlerFunc c.initPosition) replicateBAChanSize c.log.decisions
        (createAssemblerConsensusPosition oi).decisionNum c.puller puller) : Step c { c with puller }
  | take {oba rest} (hat : c.control = .receive) (hchan : c.puller.chan = oba :: rest) :
      Step c { c with puller := { c.puller with chan := rest }, control := .collate oba }
  /-- It has found the batch, and appends the block. -/
  | append {oba ledger} (hat : c.control = .collate oba)
      (hshard : oba.availableBatch.shard ≠ shardIDConsensus) (batch : FabricBatch)
      (happend : AssemblerLedger.append W c.ledger batch oba = .ok ledger) :
      Step c { c with ledger, control := .receive }
  /-- It appends a config block, and returns if the config is a new one. -/
  | appendConfig {oba ledger} (hat : c.control = .collate oba) (hshard : oba.availableBatch.shard = shardIDConsensus)
      (happend : AssemblerLedger.appendConfig W c.ledger oba = .ok ledger) :
      Step c { c with
        ledger
        control := if c.configBlockNumber < (oba.commonBlock.header.map BlockHeader.number).getD 0 then .returned
          else .receive }
  | stop : Step c { c with control := .returned }

def Run : Collation W → Collation W → Prop := Relation.ReflTransGen Step

/-- What holds in a run from a ledger of some height: the replicator is faithful, and the collator has appended what
it has taken, `k` blocks. -/
structure Inv (height : Nat) (c : Collation W) : Prop where
  faithful : c.puller.Faithful (blockHandlerFunc c.initPosition) c.log.decisions
  continues : c.log.ContinuesAt height c.initPosition
  ends : c.EndsInLog
  taken : ∃ k, c.ledger.length = height + k ∧ k ≤ c.puller.emitted.length ∧
    ∀ n, c.control.inHand = some n → c.puller.chan = c.puller.emitted.drop (k + n) ∧
      ∀ oba, c.control = .collate oba → c.puller.emitted[k]? = some oba

/-- What `LastOrderingInfo` reads is where the ledger continues. -/
theorem EndsInLog.continuesAt (h : c.EndsInLog) {oi} (hoi : lastOrderingInfo W c.ledger = .ok oi) :
    c.log.ContinuesAt c.ledger.length (createAssemblerConsensusPosition oi) := by
  obtain ⟨blocks, block, oba, hledger, hoba, hplace⟩ := h
  rw [hledger] at hoi ⊢
  obtain ⟨info, rfl, hinfo⟩ := lastOrderingInfo_concat hoi
  exact ⟨blocks.length, oba, info, by simp, hoba, hplace ▸ hinfo, rfl⟩

theorem Begins.inv (h : c.Begins) : c.Inv c.ledger.length where
  faithful := h.idle ▸ Puller.faithful_idle
  continues := by
    obtain ⟨oi, hoi, hinit⟩ := h.init
    rw [hinit]
    exact h.ends.continuesAt hoi
  ends := h.ends
  taken := by
    refine ⟨0, rfl, Nat.zero_le _, fun n hn => ?_⟩
    obtain rfl : 0 = n := by rw [h.control] at hn; exact Option.some.inj hn
    rw [h.idle, h.control]
    exact ⟨rfl, nofun⟩

variable {oba : AvailableBatchOrdered}

theorem Inv.mem_obas (hc : c.Inv height) (h : oba ∈ c.puller.emitted) : oba ∈ c.log.obas := by
  have hmem := hc.faithful.emitted ▸ mem_append_left c.puller.handing h
  obtain ⟨n, -, hn⟩ := mem_flatMap.mp hmem
  cases hd : c.log.decisions[n]? with
  | none => simp [hd] at hn
  | some d =>
    rw [hd] at hn
    exact mem_flatMap.mpr ⟨d, mem_of_getElem? hd, mem_of_mem_filter hn⟩

theorem EndsInLog.of_appended {ledger} (hoba : oba ∈ c.log.obas)
    (h : Appended W c.ledger ledger oba) (control : CollatorControl) :
    ({ c with ledger, control } : Collation W).EndsInLog := by
  obtain ⟨block, hledger, hplace⟩ := h.concat
  obtain ⟨header, hheader, hnumber⟩ := h.number
  obtain ⟨k, hk⟩ := getElem?_of_mem hoba
  obtain ⟨header', hheader', hnumber'⟩ := c.log.number k oba hk
  cases hheader.symm.trans hheader'
  refine ⟨c.ledger, block, oba, hledger, ?_, hplace⟩
  rw [← hnumber, hnumber']
  exact hk

theorem Inv.of_appended (hc : c.Inv height) {ledger}
    (hat : c.control = .collate oba) (h : Appended W c.ledger ledger oba) {control}
    (hcontrol : control = .receive ∨ control = .returned) : ({ c with ledger, control } : Collation W).Inv height := by
  obtain ⟨k, hlength, -, htaken⟩ := hc.taken
  obtain ⟨hchan, hhand⟩ := htaken 1 (by rw [hat]; rfl)
  have hk := hhand oba hat
  refine ⟨hc.faithful, hc.continues, .of_appended (hc.mem_obas (mem_of_getElem? hk)) h control, k + 1, ?_,
    (lt_of_getElem? hk), fun n hn => ?_⟩
  · obtain ⟨block, hledger, -⟩ := h.concat
    rw [hledger, length_append, hlength]
    rfl
  · rcases hcontrol with rfl | rfl
    · obtain rfl : 0 = n := Option.some.inj hn
      exact ⟨hchan, nofun⟩
    · cases hn

theorem Step.inv (h : Step c c') (hc : c.Inv height) : c'.Inv height := by
  obtain ⟨k, hlength, hle, htaken⟩ := hc.taken
  cases h with
  | @decide log hlog =>
    obtain ⟨more, hmore⟩ := hlog
    have hobas : ∀ (n : Nat) oba, c.log.obas[n]? = some oba → log.obas[n]? = some oba := by
      intro n oba hn
      unfold ConsensusLog.obas at hn ⊢
      rw [← hmore, flatMap_append, getElem?_append_left (lt_of_getElem? hn)]
      exact hn
    obtain ⟨n, oba, info, hn, hoba, hinfo, hinit⟩ := hc.continues.last
    obtain ⟨blocks, block, oba', hledger, hoba', hplace⟩ := hc.ends
    exact ⟨hmore ▸ hc.faithful.grow more, ⟨n, oba, info, hn, hobas n oba hoba, hinfo, hinit⟩,
      ⟨blocks, block, oba', hledger, hobas _ oba' hoba', hplace⟩, hc.taken⟩
  | pull _ hstep =>
    obtain ⟨items, hemitted, hchan⟩ := hstep.emitted
    refine ⟨hstep.faithful hc.faithful, hc.continues, hc.ends, k, hlength, ?_, fun n hn => ?_⟩
    · rw [hemitted, length_append]
      exact Nat.le_add_right_of_le hle
    · obtain ⟨hdrop, hhand⟩ := htaken n hn
      have hbound : k + n ≤ c.puller.emitted.length := by
        cases hat : c.control with
        | receive =>
          rw [hat] at hn
          obtain rfl : 0 = n := Option.some.inj hn
          exact hle
        | collate oba =>
          rw [hat] at hn
          obtain rfl : 1 = n := Option.some.inj hn
          exact (lt_of_getElem? (hhand oba hat))
        | returned =>
          rw [hat] at hn
          cases hn
      refine ⟨?_, fun oba hat => ?_⟩
      · rw [hchan, hemitted, hdrop, drop_append_of_le_length hbound]
      · rw [hemitted]
        exact getElem?_append_left (lt_of_getElem? (hhand oba hat)) ▸ hhand oba hat
  | @take oba _ hat hchan =>
    have hdrop := (htaken 0 (by rw [hat]; rfl)).1.symm.trans hchan
    have hk : c.puller.emitted[k]? = some oba := by
      rw [← Nat.add_zero k, ← getElem?_drop, ← Nat.add_zero k, hdrop]
      rfl
    refine ⟨⟨hc.faithful.emitted, hc.faithful.bound⟩, hc.continues, hc.ends, k, hlength, hle, fun n hn => ?_⟩
    obtain rfl : 1 = n := Option.some.inj hn
    refine ⟨?_, ?_⟩
    · rw [← drop_drop, ← Nat.add_zero k, hdrop]
      rfl
    · rintro _ ⟨⟩
      exact hk
  | append hat _ _ happend => exact hc.of_appended hat (append_eq_ok happend) (.inl rfl)
  | appendConfig hat _ happend =>
    refine hc.of_appended hat (appendConfig_eq_ok happend) ?_
    split
    · exact .inr rfl
    · exact .inl rfl
  | stop => exact ⟨hc.faithful, hc.continues, hc.ends, k, hlength, hle, nofun⟩

theorem Run.inv (h : Run c₀ c) (hbegin : c₀.Begins) : c.Inv c₀.ledger.length ∧ c.initPosition = c₀.initPosition := by
  induction h with
  | refl => exact ⟨hbegin.inv, rfl⟩
  | tail _ hstep ih =>
    refine ⟨hstep.inv ih.1, Eq.trans ?_ ih.2⟩
    cases hstep <;> rfl

/-- The streams as the collator sees them: the index, among the attestations that the handler makes of all
decisions, of the first one that a stream brings, and their number. -/
def streams (c : Collation W) : List Session :=
  c.puller.sessions.map (Puller.itemwise (blockHandlerFunc c.initPosition) c.log.decisions)

/-- The index of the first attestation to be handed on. -/
def firstIndex (c : Collation W) : Nat :=
  Puller.offset (blockHandlerFunc c.initPosition) c.log.decisions c.initPosition.decisionNum

theorem Inv.handed_iff (hc : c.Inv height) :
    c.handed = (c.log.obas.drop height).take c.handed.length ↔ Session.InOrder c.firstIndex c.streams := by
  rw [← hc.continues.drop_eq]
  exact hc.faithful.items_iff (c.log.nodup_handled c.initPosition)

/-- If the attestations come in order, the collator works on the block that the ledger lacks. -/
theorem Inv.number_eq (hc : c.Inv height) (h : c.handed = (c.log.obas.drop height).take c.handed.length)
    (hat : c.control = .collate oba) :
    ∃ header, oba.commonBlock.header = some header ∧ header.number = c.ledger.length := by
  obtain ⟨k, hlength, -, htaken⟩ := hc.taken
  have hk := (htaken 1 (by rw [hat]; rfl)).2 oba hat
  have hlt := lt_of_getElem? hk
  have hhanded : c.handed[k]? = some oba := by
    rw [handed, getElem?_append_left hlt]
    exact hk
  have hlt' := lt_of_getElem? hhanded
  rw [h, getElem?_take_of_lt hlt', getElem?_drop, ← hlength] at hhanded
  exact c.log.number _ oba hhanded

/-- **When the assembler commits every block once and in order**: in every run between two starts, the attestations
handed to the collator are the blocks of the consenter from the height of the ledger at the start on, iff every stream
that gave a block was opened where the one before ended. Then the block that the collator works on has the next number
of the ledger. -/
theorem in_order_iff (hbegin : c₀.Begins) (hrun : Run c₀ c) :
    (c.handed = (c.log.obas.drop c₀.ledger.length).take c.handed.length ↔ Session.InOrder c.firstIndex c.streams) ∧
    (Session.InOrder c.firstIndex c.streams → ∀ oba, c.control = .collate oba →
      ∃ header, oba.commonBlock.header = some header ∧ header.number = c.ledger.length) := by
  have hc := (hrun.inv hbegin).1
  exact ⟨hc.handed_iff, fun horder oba hat => hc.number_eq (hc.handed_iff.mpr horder) hat⟩

/-! ## An assembler that reconnects -/

section

variable (W : Wire) (header : BlockHeader) (batchID : BatchIDKey) (place : OrderingInformation)
include header

/-- A block with a header and a place, as a consenter creates it. -/
def blockAt : Block :=
  ⟨some header, some [], some (createdMetadata W (assemblerBlockMetadataToBytes W batchID place 1) 0)⟩

/-- The attestation of a block that is the only one of its decision and that nobody signed. -/
def obaAt (num : DecisionNum) : AvailableBatchOrdered where
  availableBatch := { batchID with digest := header.dataHash }
  commonBlock := blockAt W header batchID place
  signatures := []
  info := ⟨num, 1, 0⟩

end

theorem index_blockAt (W : Wire) (batchID : BatchIDKey) (place) :
    Outcome.index (createdMetadata W (assemblerBlockMetadataToBytes W batchID place 1) 0) indexOrderer =
      .ok (assemblerBlockMetadataToBytes W batchID place 1) := rfl

def decisionAt (W : Wire) (header : BlockHeader) (batchID : BatchIDKey) (place : OrderingInformation)
    (num : DecisionNum) (hshard : batchID.shard ≠ 0) : ServedDecision W where
  header := ⟨num, [], [blockAt W header batchID place], none, 0⟩
  sigs := [[]]
  obas := [obaAt W header batchID place num]
  extracted := by
    refine mapEach_eq_ok_of_getElem? rfl fun k acb oba hacb hoba => ?_
    cases k with
    | succ k => simp at hacb
    | zero =>
      cases hacb
      cases hoba
      simp only [availableBatchOrdered, blockAt, deref_some, ok_bind, index_blockAt,
        assemblerBlockMetadataFromBytes_toBytes (assemblerBlockMetadataToBytes_ne_nil (.inl hshard)),
        orPanic_ok]
      rfl

theorem placeOf_blockAt (W : Wire) (header : BlockHeader) {batchID} (place)
    (hshard : batchID.shard ≠ 0) : placeOf W (blockAt W header batchID place) =
      .ok ⟨place.decisionNum, (UInt32.ofNat place.batchCount).toNat, (UInt32.ofNat place.batchIndex).toNat⟩ := by
  simp only [placeOf, blockAt, deref_some, ok_bind, index_blockAt,
    assemblerBlockMetadataFromBytes_toBytes (assemblerBlockMetadataToBytes_ne_nil (.inl hshard))]
  rfl

/-- The genesis block, and blocks for the batches of party 1 in shard 1 on top of it. -/
def genesisHeader : BlockHeader := ⟨0, [], []⟩

def headerAt (W : Wire) : Nat → BlockHeader
  | 0 => genesisHeader
  | n + 1 => ⟨n + 1, W.blockHeaderHash (headerAt W n), [7]⟩

def batchIDAt : Nat → BatchIDKey
  | 0 => configBatchID
  | n + 1 => ⟨1, 1, n, [7]⟩

def placeAt : Nat → OrderingInformation
  | 0 => ⟨0, 0, 0⟩
  | n + 1 => ⟨n + 1, 1, 0⟩

theorem shard_batchIDAt (n : Nat) : (batchIDAt n).shard ≠ 0 := by
  cases n with
  | zero => decide
  | succ n => exact (by decide : (1 : ShardID) ≠ 0)

def genesisOba (W : Wire) : AvailableBatchOrdered := obaAt W genesisHeader configBatchID ⟨0, 0, 0⟩ 0

def firstOba (W : Wire) : AvailableBatchOrdered := obaAt W (headerAt W 1) (batchIDAt 1) (placeAt 1) 1

theorem number_headerAt (W : Wire) (n : Nat) : (headerAt W n).number = n := by
  cases n <;> rfl

def blockDecision (W : Wire) (n : Nat) : ServedDecision W :=
  decisionAt W (headerAt W n) (batchIDAt n) (placeAt n) n (shard_batchIDAt n)

theorem getElem?_range_map {α : Type} {f : Nat → α} {n i : Nat} {a : α} (h : ((range n).map f)[i]? = some a) :
    a = f i := by
  obtain ⟨hi, rfl⟩ := List.getElem?_eq_some_iff.mp h
  rw [getElem_map, getElem_range]

/-- The decisions with the first blocks. -/
def firstBlocks (W : Wire) (n : Nat) : ConsensusLog W where
  decisions := (range n).map (blockDecision W)
  num i d h := by
    rw [getElem?_range_map h]
    rfl
  number k oba h := by
    have hobas : ((range n).map (blockDecision W)).flatMap ServedDecision.obas =
        (range n).map fun n => obaAt W (headerAt W n) (batchIDAt n) (placeAt n) n := by
      rw [flatMap_map, map_eq_flatMap]
      rfl
    rw [hobas] at h
    rw [getElem?_range_map h]
    exact ⟨headerAt W k, rfl, number_headerAt W k⟩
  place d hd oba hoba := by
    obtain ⟨n, -, rfl⟩ := mem_map.mp hd
    obtain rfl := mem_singleton.mp hoba
    refine (placeOf_blockAt W (headerAt W n) (placeAt n) (shard_batchIDAt n)).trans ?_
    cases n <;> rfl
  genesis d h := by
    rw [getElem?_range_map h]
    rfl

/-- An assembler with the genesis block in its ledger starts. -/
def firstCollation (W : Wire) : Collation W where
  log := firstBlocks W 2
  initPosition := ⟨0, 1⟩
  puller := .idle
  control := .receive
  ledger := [(genesisOba W).commonBlock]
  configBlockNumber := 0

theorem lastOrderingInfo_genesis (W : Wire) :
    lastOrderingInfo W [(genesisOba W).commonBlock] = .ok (some ⟨0, 0, 0⟩) := by
  have hread : assemblerBatchIdOrderingInfoAndTxCountFromBlock W (genesisOba W).commonBlock = .ok _ :=
    blockOrdering_create rfl rfl (.inl (show configBatchID.shard ≠ 0 by decide))
  simp only [lastOrderingInfo, getLast?_singleton]
  rw [hread]
  rfl

theorem begins_firstCollation (W : Wire) : (firstCollation W).Begins where
  idle := rfl
  control := rfl
  ends := ⟨[], _, genesisOba W, rfl, rfl, rfl⟩
  init := ⟨_, lastOrderingInfo_genesis W, rfl⟩

/-- The replicator gets both decisions and loses the stream, `m` times. The attestation of the first batch waits in the
channel as often. -/
def pulledTimes (W : Wire) (m : Nat) : Collation W :=
  { firstCollation W with
    puller :=
      { past := replicate m ⟨0, 2⟩
        stream := none
        handing := []
        chan := replicate m (firstOba W)
        emitted := replicate m (firstOba W) } }

theorem run_pulledTimes (W : Wire) {m} (hm : m ≤ replicateBAChanSize) : Run (firstCollation W) (pulledTimes W m) := by
  induction m with
  | zero => exact .refl
  | succ m ih =>
    have hoi := lastOrderingInfo_genesis W
    have hconnected := (ih (Nat.le_of_succ_le hm)).tail (.pull hoi (.connect rfl))
    have hgenesis := hconnected.tail (.pull hoi (.receive rfl rfl rfl))
    have hreceived := hgenesis.tail (.pull hoi (.receive rfl rfl rfl))
    have hhanded := hreceived.tail (.pull hoi (.hand rfl (by simp only [pulledTimes, length_replicate]; exact hm)))
    have hfailed := hhanded.tail (.pull hoi (.fail rfl rfl))
    simp only [pulledTimes, replicate_succ'] at hfailed ⊢
    exact hfailed

theorem append_firstOba (W : Wire) : ∃ block,
    AssemblerLedger.append W [(genesisOba W).commonBlock] default (firstOba W) =
      .ok [(genesisOba W).commonBlock, block] := by
  have happend : ∀ data metadata, appendBlock W [(genesisOba W).commonBlock] ⟨some (headerAt W 1), data, metadata⟩ =
        .ok [(genesisOba W).commonBlock, ⟨some (headerAt W 1), data, metadata⟩] := by
    intro data metadata
    simp [appendBlock, ledgerHash, headerAt, genesisOba, obaAt, blockAt]
  exact ⟨_, happend _ _⟩

theorem lastOrderingInfo_append {storage storage' batch header batchID place num} (hshard : batchID.shard ≠ 0)
    (h : AssemblerLedger.append W storage batch (obaAt W header batchID place num) = .ok storage') :
    lastOrderingInfo W storage' =
      .ok (some ⟨place.decisionNum, (UInt32.ofNat place.batchCount).toNat, (UInt32.ofNat place.batchIndex).toNat⟩) := by
  have happend : appendBlock W storage ⟨some header, some batch.requests,
      some ((createdMetadata W (assemblerBlockMetadataToBytes W batchID place 1) 0).set indexSignatures
        (W.metadata.marshal ⟨[], []⟩))⟩ = .ok storage' := h
  have hread := assemblerBlockMetadataFromBytes_toBytes
    (assemblerBlockMetadataToBytes_ne_nil (.inl hshard) : assemblerBlockMetadataToBytes W batchID place 1 ≠ [])
  rw [(appendBlock_eq_ok happend).1, lastOrderingInfo, getLast?_concat]
  simp [assemblerBatchIdOrderingInfoAndTxCountFromBlock, getMetadataFromBlock, createdMetadata, initBlockMetadata,
    indexSignatures, indexLastConfig, indexOrderer, numMetadataIndices, hread, mapEach]

/-- The stream is lost, and the next one is opened when block 1 is in the ledger. -/
theorem in_order_reconnected : ∃ c, Run (firstCollation refWire) c ∧ c.puller.sessions = [⟨0, 2⟩, ⟨2, 1⟩] ∧
    c.handed = ((firstBlocks refWire 3).obas.drop 1).take 2 := by
  obtain ⟨block, happend⟩ := append_firstOba refWire
  have hoi := lastOrderingInfo_append (shard_batchIDAt 1) happend
  have htaken := (run_pulledTimes refWire (m := 1) (by decide)).tail (.take rfl rfl)
  have hstored := htaken.tail (.append rfl (by decide) default happend)
  have hgrows : (firstBlocks refWire 2).decisions <+: (firstBlocks refWire 3).decisions :=
    ⟨[blockDecision refWire 2], rfl⟩
  have hdecided := hstored.tail (.decide hgrows)
  have hconnected := hdecided.tail (.pull hoi (.connect rfl))
  have hreceived := hconnected.tail (.pull hoi (.receive rfl rfl rfl))
  exact ⟨_, hreceived, rfl,
    (in_order_iff (begins_firstCollation refWire) hreceived).1.mpr ⟨.inr rfl, .inr rfl, trivial⟩⟩

/-- **A block is handed to the collator twice**: the stream fails while the attestation of block 1 waits in the channel,
and the ledger is still at the genesis block when the replicator connects again. When the collator takes the second
copy, block 1 is in the ledger and the append panics. -/
theorem repeated_block : ∃ c, (firstCollation refWire).Begins ∧ Run (firstCollation refWire) c ∧
      c.handed = [firstOba refWire, firstOba refWire] ∧ c.control = .collate (firstOba refWire) ∧
      ∀ batch, AssemblerLedger.append refWire c.ledger batch (firstOba refWire) =
        .error (.panic s!"block number should have been {2} but was {1}") := by
  obtain ⟨block, happend⟩ := append_firstOba refWire
  have htaken : Run (pulledTimes refWire 2) _ := .single (.take rfl rfl)
  have hstored := htaken.tail (.append rfl (by decide) default happend)
  have hrun := (run_pulledTimes refWire (by decide)).trans (hstored.tail (.take rfl rfl))
  exact ⟨_, begins_firstCollation refWire, hrun, rfl, rfl, fun batch => rfl⟩

end Collation

end Arma
