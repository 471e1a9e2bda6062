import Mathlib.Data.List.ProdSigma
import Arma.Assembler.Ledger
import Arma.Consensus.Reference

/-!
# What the assembler reads back from its ledger

Model of `AssemblerLedger.BatchFrontier` (`node/ledger/assembler_ledger.go`), and what the ORDERER entry of a block
says once it is read (`AssemblerBlockMetadataFromBytes`).

* A shard or a primary above sixteen bits is answered with zeroes and no error, because the error that is wrapped
  there is the outer, nil one (`big_shard_reads_zero`). Else the values read are those of the message, and those
  that were written (`metadata_read_as_written`).
* `BatchFrontier` scans the ledger from its end and stops once it has counted down the configured pairs. What
  carries the scan is `Scanned`: the entries are those of the part already seen, and the count is the number of
  configured pairs that have none (`batchFrontier_exact`).

A shard's map is made together with its first entry, so the map of maps is modelled by the entries of the pairs.
The clock is a parameter that says at which blocks the deadline has passed.
-/

namespace Arma

open Arma.Lib Outcome List

/-! ## The ORDERER entry -/

/-- The values returned are the fields of the message. -/
structure BlockMetadataValues.Of (md : AssemblerBlockMetadata) (v : BlockMetadataValues) : Prop where
  primary : v.primary.toNat = md.primary.toNat
  shard : v.shard.toNat = md.shard.toNat
  seq : v.seq = md.sequence
  num : v.num = md.decisionNum
  batchIndex : v.batchIndex = md.batchIndex
  batchCount : v.batchCount = md.batchCount
  transactionCount : v.transactionCount = md.transactionCount

variable {W : Wire}

/-- The values are those of the message just when its shard and its primary have sixteen bits. -/
theorem of_iff_of_fromBytes {metadata v} (h : assemblerBlockMetadataFromBytes W metadata = .ok v) :
    ∃ md, W.assemblerBlockMetadata.unmarshal metadata = .ok md ∧
      (v.Of md ↔ md.shard.toNat ≤ maxUint16 ∧ md.primary.toNat ≤ maxUint16) := by
  unfold assemblerBlockMetadataFromBytes at h
  split at h
  · cases h
  · simp only [bind_eq_ok, wrap_eq_ok, ofExcept_eq_ok] at h
    obtain ⟨md, hmd, h⟩ := h
    refine ⟨md, hmd, ?_⟩
    split at h
    · next hshard =>
      cases h
      exact ⟨fun hof => absurd hof.shard (by simp only [maxUint16] at hshard; show (0 : Nat) ≠ _; omega),
        fun hle => absurd hshard (by omega)⟩
    · split at h
      · next hprimary =>
        cases h
        exact ⟨fun hof => absurd hof.primary (by simp only [maxUint16] at hprimary; show (0 : Nat) ≠ _; omega),
          fun hle => absurd hprimary (by omega)⟩
      · next hshard hprimary =>
        cases h
        simp only [maxUint16] at hshard hprimary ⊢
        refine ⟨fun _ => by omega, fun _ => ⟨?_, ?_, rfl, rfl, rfl, rfl, rfl⟩⟩
        · simp only [UInt32.toNat_toUInt16]
          omega
        · simp only [UInt32.toNat_toUInt16]
          omega

/-- **Zeroes and no error**, for a message whose shard has seventeen bits. -/
theorem big_shard_reads_zero :
    ∃ metadata md, refWire.assemblerBlockMetadata.unmarshal metadata = .ok md ∧ md.shard = 65536 ∧
      assemblerBlockMetadataFromBytes refWire metadata = .ok default := by
  let md : AssemblerBlockMetadata := { (default : AssemblerBlockMetadata) with shard := 65536, sequence := 7 }
  have hne : refWire.assemblerBlockMetadata.marshal md ≠ [] := refWire.assemblerBlockMetadata.marshal_ne_nil (by decide)
  refine ⟨refWire.assemblerBlockMetadata.marshal md, md, Codec.unmarshal_marshal _ _, rfl, ?_⟩
  rw [assemblerBlockMetadataFromBytes, if_neg hne]
  simp only [Codec.unmarshal_marshal, ofExcept_ok, wrap_ok, ok_bind]
  exact if_pos (by decide)

/-- **What is read is what was written**: the values read are those of the message just when its shard and its
primary have sixteen bits, every message that is written with an index and a count below `2^32` is read back
unless nothing is written of it, and so is the place that a block with that entry names. -/
theorem metadata_read_as_written (W : Wire) : (∀ metadata v, assemblerBlockMetadataFromBytes W metadata = .ok v →
      ∃ md, W.assemblerBlockMetadata.unmarshal metadata = .ok md ∧
        (v.Of md ↔ md.shard.toNat ≤ maxUint16 ∧ md.primary.toNat ≤ maxUint16)) ∧
    ∀ (batchID : BatchIDKey) (info : OrderingInformation) (txCount : UInt64),
      info.batchIndex < 2 ^ 32 → info.batchCount < 2 ^ 32 → assemblerBlockMetadataToBytes W batchID info txCount ≠ [] →
      (∃ v, assemblerBlockMetadataFromBytes W (assemblerBlockMetadataToBytes W batchID info txCount) = .ok v ∧
        v.primary = batchID.primary ∧ v.shard = batchID.shard ∧ v.seq = batchID.seq ∧ v.num = info.decisionNum ∧
        v.batchIndex.toNat = info.batchIndex ∧ v.batchCount.toNat = info.batchCount ∧ v.transactionCount = txCount) ∧
      ∀ block header md o, block.header = some header → block.metadata = some md →
        md[indexOrderer]? = some (assemblerBlockMetadataToBytes W batchID info txCount) →
        assemblerBatchIdOrderingInfoAndTxCountFromBlock W block = .ok o →
        o.batchID = { batchID with digest := header.dataHash } ∧ o.info = info ∧ o.txCount = txCount := by
  refine ⟨fun _ _ => of_iff_of_fromBytes, fun batchID info txCount hindex hcount hne => ?_⟩
  have hread := assemblerBlockMetadataFromBytes_toBytes hne
  have hi : (UInt32.ofNat info.batchIndex).toNat = info.batchIndex := UInt32.toNat_ofNat_of_lt hindex
  have hc : (UInt32.ofNat info.batchCount).toNat = info.batchCount := UInt32.toNat_ofNat_of_lt hcount
  refine ⟨⟨_, hread, rfl, rfl, rfl, rfl, hi, hc, rfl⟩, fun block header md o hheader hmd horderer ho => ?_⟩
  obtain ⟨header', md', orderer, v, hheader', hmd', horderer', hv, hid, hinfo, htx⟩ := blockOrdering_eq_ok ho
  cases hheader.symm.trans hheader'
  cases hmd.symm.trans hmd'
  cases horderer.symm.trans horderer'
  cases hread.symm.trans hv
  rw [hi, hc] at hinfo
  exact ⟨hid, hinfo, htx⟩

/-! ## The batch frontier -/

/-- `BatchFrontier`: the last sequence of each shard and primary that has one. -/
abbrev BatchFrontier := ShardID → PartyID → Option BatchSequence

namespace AssemblerLedger

/-- The batch is one of a shard: the scan takes any other block for a config block. -/
def isData (id : BatchIDKey) : Prop := ¬ (id.shard = shardIDConsensus ∨ id.primary = 0)

instance (id : BatchIDKey) : Decidable (isData id) := by unfold isData; infer_instance

/-- Saving the sequence of a batch in the frontier. -/
def save (frontier : BatchFrontier) (id : BatchIDKey) : BatchFrontier := fun shard primary =>
  if shard = id.shard ∧ primary = id.primary then some id.seq else frontier shard primary

section Scan

variable (W : Wire) (storage : List Block) (shards : List ShardID) (parties : List PartyID) (late : Nat → Bool)

/-- The loop of `BatchFrontier`, from height `h` down. -/
def batchFrontierLoop : Nat → BatchFrontier → Int → Outcome BatchFrontier
  | 0, frontier, _ => return frontier
  | h + 1, frontier, count => do
    let block ← nonNil storage[h]? s!"no such block number [{h}] in index"
    let ordering ← assemblerBatchIdOrderingInfoAndTxCountFromBlock W block
    let batchID := ordering.batchID
    if batchID.shard = shardIDConsensus ∨ batchID.primary = 0 then batchFrontierLoop h frontier count
    else if batchID.primary ∉ parties ∨ batchID.shard ∉ shards then batchFrontierLoop h frontier count
    else if (frontier batchID.shard batchID.primary).isSome then batchFrontierLoop h frontier count
    else if count - 1 = 0 then return save frontier batchID
    else if late h then return save frontier batchID
    else batchFrontierLoop h (save frontier batchID) (count - 1)

/-- `AssemblerLedger.BatchFrontier`: nil for an empty ledger. -/
def batchFrontier : Outcome (Option BatchFrontier) :=
  if storage.length = 0 then return none
  else return some (← batchFrontierLoop W storage shards parties late storage.length (fun _ _ => none)
    (shards.length * parties.length))

end Scan

/-- The sequence in the last block of the pair, among blocks with these batches in ledger order. -/
def lastSeq (ids : List BatchIDKey) (shard : ShardID) (primary : PartyID) : Option BatchSequence :=
  (ids.filter fun id => isData id ∧ id.shard = shard ∧ id.primary = primary).getLast?.map (·.seq)

/-- The entry of a pair in what `BatchFrontier` returns: a nil map has none. -/
def entry (frontier : Option BatchFrontier) (shard : ShardID) (primary : PartyID) : Option BatchSequence :=
  frontier.bind fun f => f shard primary

/-- The frontier of the configured pairs, over blocks with these batches. -/
def frontierOf (shards : List ShardID) (parties : List PartyID) (ids : List BatchIDKey) : BatchFrontier :=
  fun shard primary => if shard ∈ shards ∧ primary ∈ parties then lastSeq ids shard primary else none

section Exact

variable {W : Wire} {storage : List Block} {orders : List BlockOrdering} {shards : List ShardID}
  {parties : List PartyID} {late : Nat → Bool} {ids : List BatchIDKey} {id : BatchIDKey} {shard : ShardID}
  {primary : PartyID} {frontier : BatchFrontier}

theorem lastSeq_cons : lastSeq (id :: ids) shard primary = (lastSeq ids shard primary).or
      (if isData id ∧ id.shard = shard ∧ id.primary = primary then some id.seq else none) := by
  unfold lastSeq
  rw [filter_cons]
  split
  · next h =>
    rw [if_pos (by simpa using h), getLast?_cons]
    cases (ids.filter _).getLast? <;> rfl
  · next h =>
    rw [if_neg (by simpa using h), Option.or_none]

theorem frontierOf_skip (h : ¬ isData id ∨ id.primary ∉ parties ∨ id.shard ∉ shards ∨
    (frontierOf shards parties ids id.shard id.primary).isSome) :
    frontierOf shards parties (id :: ids) = frontierOf shards parties ids := by
  funext shard primary
  unfold frontierOf
  split
  · next hmem =>
    rw [lastSeq_cons]
    split
    · next hpair =>
      obtain ⟨hdata, rfl, rfl⟩ := hpair
      rw [frontierOf, if_pos hmem] at h
      obtain ⟨seq, hseq⟩ : ∃ seq, lastSeq ids id.shard id.primary = some seq := by
        simpa [hdata, hmem, Option.isSome_iff_exists] using h
      rw [hseq, Option.some_or]
    · exact Option.or_none
  · rfl

theorem frontierOf_save (hdata : isData id) (hprimary : id.primary ∈ parties) (hshard : id.shard ∈ shards)
    (hnone : frontierOf shards parties ids id.shard id.primary = none) :
    frontierOf shards parties (id :: ids) = save (frontierOf shards parties ids) id := by
  rw [frontierOf, if_pos ⟨hshard, hprimary⟩] at hnone
  funext shard primary
  unfold save
  split
  · next hpair =>
    obtain ⟨rfl, rfl⟩ := hpair
    rw [frontierOf, if_pos ⟨hshard, hprimary⟩, lastSeq_cons, hnone, if_pos ⟨hdata, rfl, rfl⟩, Option.none_or]
  · next hpair =>
    have hother : ¬ (isData id ∧ id.shard = shard ∧ id.primary = primary) := fun h => hpair ⟨h.2.1.symm, h.2.2.symm⟩
    simp only [frontierOf, lastSeq_cons, if_neg hother, Option.or_none]

/-- The configured pairs that have no entry. -/
def missing (shards : List ShardID) (parties : List PartyID) (frontier : BatchFrontier) : Nat :=
  (shards ×ˢ parties).countP fun pair => (frontier pair.1 pair.2).isNone

theorem missing_save (hs : shards.Nodup) (hp : parties.Nodup) (hprimary : id.primary ∈ parties)
    (hshard : id.shard ∈ shards) (hnone : frontier id.shard id.primary = none) :
    missing shards parties (save frontier id) + 1 = missing shards parties frontier := by
  have hmem : (id.shard, id.primary) ∈ shards ×ˢ parties := mem_product.mpr ⟨hshard, hprimary⟩
  have hperm := perm_cons_erase hmem
  have hrest : ((shards ×ˢ parties).erase (id.shard, id.primary)).countP
        (fun pair => (save frontier id pair.1 pair.2).isNone) =
      ((shards ×ˢ parties).erase (id.shard, id.primary)).countP (fun pair => (frontier pair.1 pair.2).isNone) := by
    refine countP_congr fun pair hpair => ?_
    have hne : pair ≠ (id.shard, id.primary) := ((hs.product hp).mem_erase_iff.mp hpair).1
    rw [save, if_neg (fun h => hne (Prod.ext h.1 h.2))]
  rw [missing, missing, hperm.countP_eq, hperm.countP_eq, countP_cons_of_neg (by simp [save]),
    countP_cons_of_pos (by simp [hnone]), hrest]

theorem frontierOf_append (h : missing shards parties (frontierOf shards parties ids) = 0) (front : List BatchIDKey) :
    frontierOf shards parties (front ++ ids) = frontierOf shards parties ids := by
  induction front with
  | nil => rfl
  | cons id front ih =>
    rw [cons_append, frontierOf_skip, ih]
    by_cases hmem : id.shard ∈ shards ∧ id.primary ∈ parties
    · have hsome := countP_eq_zero.mp h (id.shard, id.primary) (mem_product.mpr hmem)
      rw [ih]
      exact .inr (.inr (.inr (by simpa [Option.isSome_iff_ne_none] using hsome)))
    · rw [not_and_or] at hmem
      exact .inr (hmem.elim (fun h => .inr (.inl h)) .inl)

/-- **The scan**, from any height: what it returns is the frontier of the whole ledger, if it is entered with that
of the blocks above and with the number of pairs that are missing there. -/
theorem batchFrontierLoop_eq (hread : storage.Forall₂ (fun b o =>
      assemblerBatchIdOrderingInfoAndTxCountFromBlock W b = .ok o) orders)
    (hs : shards.Nodup) (hp : parties.Nodup) (hlate : ∀ h, late h = false) (h : Nat) (hh : h ≤ orders.length)
    (ids : List BatchIDKey) (hids : ids = (orders.map (·.batchID)).drop h) :
    batchFrontierLoop W storage shards parties late h (frontierOf shards parties ids)
        (missing shards parties (frontierOf shards parties ids)) =
      .ok (frontierOf shards parties (orders.map (·.batchID))) := by
  induction h generalizing ids with
  | zero => rw [hids, drop_zero]; rfl
  | succ h ih =>
    obtain ⟨o, ho⟩ : ∃ o, orders[h]? = some o := ⟨_, getElem?_eq_getElem hh⟩
    obtain ⟨block, hblock, hbo⟩ : ∃ block, storage[h]? = some block ∧
        assemblerBatchIdOrderingInfoAndTxCountFromBlock W block = .ok o := by
      have hlen : h < storage.length := hread.length_eq ▸ hh
      refine ⟨_, getElem?_eq_getElem hlen, ?_⟩
      obtain ⟨_, rfl⟩ := List.getElem?_eq_some_iff.mp ho
      exact hread.get hlen hh
    have hdrop : (orders.map (·.batchID)).drop h = o.batchID :: ids := by
      rw [hids, drop_eq_getElem_cons (by rw [length_map]; exact hh)]
      obtain ⟨_, rfl⟩ := List.getElem?_eq_some_iff.mp ho
      simp
    have hback := ih (by omega) (o.batchID :: ids) hdrop.symm
    have hskip := fun hfr : frontierOf shards parties (o.batchID :: ids) = frontierOf shards parties ids =>
      hfr ▸ hback
    rw [batchFrontierLoop]
    simp only [hblock, nonNil, hbo, ok_bind]
    split
    · next hconfig => exact hskip (frontierOf_skip (.inl (not_not.mpr hconfig)))
    · next hdata =>
      split
      · next hpair => exact hskip (frontierOf_skip (.inr (hpair.imp_right .inl)))
      · next hpair =>
        obtain ⟨hprimary, hshard⟩ := not_or.mp hpair |>.imp not_not.mp not_not.mp
        split
        · next hsome => exact hskip (frontierOf_skip (.inr (.inr (.inr hsome))))
        · next hnone =>
          rw [Option.not_isSome_iff_eq_none] at hnone
          have hsave := frontierOf_save hdata hprimary hshard hnone
          have hcount := missing_save hs hp hprimary hshard hnone
          rw [← hsave] at hcount ⊢
          split
          · next hzero =>
            -- Every configured pair has its entry: the blocks below do not matter.
            have hall : missing shards parties (frontierOf shards parties (o.batchID :: ids)) = 0 := by omega
            have hwhole := frontierOf_append hall ((orders.map (·.batchID)).take h)
            rw [← hdrop, take_append_drop] at hwhole
            rw [hwhole, hdrop]
            rfl
          · rw [hlate h, if_neg Bool.false_ne_true, ← hback]
            congr 1
            omega

/-- **The frontier is exact**: over a ledger whose blocks can be read, and with distinct shards and parties, what
is returned has for each configured pair the sequence in the pair's last block, and nothing else. -/
theorem batchFrontier_exact (hread : storage.Forall₂ (fun b o =>
      assemblerBatchIdOrderingInfoAndTxCountFromBlock W b = .ok o) orders)
    (hs : shards.Nodup) (hp : parties.Nodup) (hlate : ∀ h, late h = false) :
    ∃ frontier, batchFrontier W storage shards parties late = .ok frontier ∧
      ∀ shard primary, entry frontier shard primary =
        if shard ∈ shards ∧ primary ∈ parties then lastSeq (orders.map (·.batchID)) shard primary else none := by
  unfold batchFrontier
  split
  · next hzero =>
    obtain rfl : orders = [] := length_eq_zero_iff.mp (hread.length_eq ▸ hzero)
    exact ⟨none, rfl, fun shard primary => (ite_self none).symm⟩
  · have hnil : (fun _ _ => none : BatchFrontier) = frontierOf shards parties [] := by
      funext shard primary
      exact (ite_self none).symm
    have hall : missing shards parties (frontierOf shards parties []) = shards.length * parties.length := by
      rw [missing, ← hnil, ← length_product shards parties]
      exact countP_eq_length.mpr fun _ _ => rfl
    have hloop := batchFrontierLoop_eq hread hs hp hlate storage.length (le_of_eq hread.length_eq) []
      (by rw [drop_of_length_le (by simp [hread.length_eq])])
    rw [hall, ← hnil, Nat.cast_mul] at hloop
    rw [hloop]
    exact ⟨_, rfl, fun shard primary => rfl⟩

/-- Any wire format will do. -/
abbrev sampleWire : Wire := .unary default

/-- A block of batch `seq` of shard 2, of which party 1 was the primary. -/
def sampleBlock (seq : BatchSequence) : Block :=
  ⟨some ⟨seq, [], []⟩, some [], some (createdMetadata sampleWire
    (assemblerBlockMetadataToBytes sampleWire ⟨2, 1, seq, []⟩ ⟨seq, 1, 0⟩ 1) 0)⟩

theorem read_sampleBlock (seq : BatchSequence) :
    assemblerBatchIdOrderingInfoAndTxCountFromBlock sampleWire (sampleBlock seq) =
      .ok ⟨⟨2, 1, seq, []⟩, ⟨seq, 1, 0⟩, [], 1⟩ := by
  have hshard : (⟨2, 1, seq, []⟩ : BatchIDKey).shard ≠ 0 := (by decide : (2 : ShardID) ≠ 0)
  have hmd : (sampleBlock seq).metadata = some (createdMetadata sampleWire
    (assemblerBlockMetadataToBytes sampleWire ⟨2, 1, seq, []⟩ ⟨seq, 1, 0⟩ 1) 0) := rfl
  exact blockOrdering_create rfl hmd (.inl hshard)

/-- Of two batches of one pair the second one is the frontier, and a party that has no block has no entry. -/
theorem batchFrontier_two_blocks : ∃ frontier,
    batchFrontier sampleWire [sampleBlock 7, sampleBlock 8] [2] [1, 3] (fun _ => false) = .ok frontier ∧
      entry frontier 2 1 = some 8 ∧ entry frontier 2 3 = none := by
  obtain ⟨frontier, hrun, hentry⟩ := batchFrontier_exact (.cons (read_sampleBlock 7) (.cons (read_sampleBlock 8) .nil))
    (nodup_singleton (2 : ShardID)) (by decide : [(1 : PartyID), 3].Nodup) (fun _ => rfl)
  exact ⟨frontier, hrun, by rw [hentry]; decide, by rw [hentry]; decide⟩

end Exact

end AssemblerLedger

end Arma
