import Arma.Assembler.Ledger
import Arma.Lib.Pull

/-!
# The ordered batches of the decisions

Model of the handler of `ConsensusBAReplicator.Replicate` (`node/delivery/consensus_ba_deliver_client.go`), which makes
one attestation of each block of a decision, and of where the assembler continues in the decisions.

* The handler skips the blocks of a decision that are already in the ledger, but it compares with the position at the
  start of the assembler (`blockHandlerFunc_eq`).
* `ContinuesAt.height_eq`: the position that a ledger of the consenter's blocks continues at is right, in the middle of
  a decision, at its end and after the genesis block. `ContinuesAt.drop_eq`: from there on the handler gives what the
  ledger lacks.
-/

namespace Arma

open Arma.Lib AssemblerLedger Outcome List

/-! ## The decisions of an honest consenter -/

/-- The attestation that the handler makes of the block at an index of a decision. -/
def availableBatchOrdered (W : Wire) (header : Header) (sigs : List (List Signature)) (index : Nat) (acb : Block) :
    Outcome AvailableBatchOrdered := do
  let md ← deref acb.metadata
  let raw ← Outcome.index md indexOrderer
  let v ← (assemblerBlockMetadataFromBytes W raw).orPanic fun e => s!"Failed extracting info from metadata: {e}"
  let acbHeader ← deref acb.header
  let signatures ← Outcome.index sigs index
  return {
    availableBatch := ⟨v.shard, v.primary, v.seq, acbHeader.dataHash⟩
    commonBlock := acb
    signatures
    info := ⟨header.num, header.availableCommonBlocks.length, index⟩ }

/-- A decision that the handler can read: its header, the signatures on each of its blocks, and the attestations. -/
structure ServedDecision (W : Wire) where
  header : Header
  sigs : List (List Signature)
  obas : List AvailableBatchOrdered
  extracted : mapEach (availableBatchOrdered W header sigs) 0 header.availableCommonBlocks = .ok obas

theorem ServedDecision.info_eq {W : Wire} (d : ServedDecision W) {i : Nat} {oba}
    (h : d.obas[i]? = some oba) : oba.info.decisionNum = d.header.num ∧ oba.info.batchIndex = i := by
  obtain ⟨acb, -, hacb⟩ := getElem?_of_mapEach d.extracted h
  simp only [availableBatchOrdered, bind_eq_ok] at hacb
  obtain ⟨md, -, raw, -, v, -, acbHeader, -, signatures, -, hret⟩ := hacb
  cases hret
  exact ⟨rfl, Nat.zero_add i⟩

/-- What an honest consenter serves: every decision has the number of its block, every block has the next number, and
its ORDERER entry names its place in its decision. That of the genesis block, which is the only block of decision 0,
is empty. -/
structure ConsensusLog (W : Wire) where
  decisions : List (ServedDecision W)
  num : ∀ (i : Nat) (d : ServedDecision W), decisions[i]? = some d → d.header.num = i
  number : ∀ (k : Nat) (oba : AvailableBatchOrdered), (decisions.flatMap ServedDecision.obas)[k]? = some oba →
    ∃ header, oba.commonBlock.header = some header ∧ header.number = k
  place : ∀ d ∈ decisions, ∀ oba ∈ d.obas, placeOf W oba.commonBlock =
    .ok (if d.header.num = 0 then ⟨0, 0, 0⟩ else ⟨d.header.num, d.obas.length, oba.info.batchIndex⟩)
  genesis : ∀ d, decisions[0]? = some d → d.obas.length = 1

namespace ConsensusLog

variable {W : Wire} (log : ConsensusLog W)

/-- The blocks of all decisions in their order. -/
def obas : List AvailableBatchOrdered := log.decisions.flatMap ServedDecision.obas

theorem nodup_obas : log.obas.Nodup := by
  have hnumber : log.obas.map (fun oba => (oba.commonBlock.header.map BlockHeader.number).getD 0) =
      range log.obas.length := by
    refine ext_getElem? fun k => ?_
    rw [getElem?_map]
    by_cases hk : k < log.obas.length
    · have hget := getElem?_eq_getElem hk
      obtain ⟨header, hheader, hnum⟩ := log.number k _ hget
      simp [hget, hheader, hnum, getElem?_range hk]
    · simp [Nat.le_of_not_lt hk]
  exact Nodup.of_map _ (hnumber ▸ nodup_range)

end ConsensusLog

/-! ## The handler -/

/-- The capacity of the replicator's channel. -/
def replicateBAChanSize : Nat := 100

/-- `blockHandlerFunc`: the blocks of the decision in which the ledger continued at the start are skipped if they
were in the ledger then. -/
def blockHandlerFunc {W : Wire} (initPosition : AssemblerConsensusPosition) (d : ServedDecision W) :
    List AvailableBatchOrdered :=
  d.obas.filter fun oba =>
    ¬ (oba.info.decisionNum = initPosition.decisionNum ∧ oba.info.batchIndex < initPosition.batchIndex)

theorem filter_le_eq_drop {I : Type} {l : List I} {f : I → Nat} {n}
    (h : ∀ (i : Nat) (x : I), l[i]? = some x → f x = n + i) (j : Nat) :
    l.filter (fun x => ¬ f x < n + j) = l.drop j := by
  induction l generalizing n j with
  | nil => simp
  | cons x l ih =>
    have hx : f x = n := h 0 x rfl
    have hrest : ∀ (i : Nat) (y : I), l[i]? = some y → f y = (n + 1) + i := by
      intro i y hy
      rw [h (i + 1) y hy]
      omega
    cases j with
    | zero =>
      rw [filter_cons_of_pos (by simp [hx]), drop_zero]
      have hall := ih hrest 0
      rw [drop_zero, filter_eq_self] at hall
      rw [filter_eq_self.mpr fun y hy => ?_]
      have hy' := hall y hy
      simp only [decide_eq_true_eq] at hy' ⊢
      omega
    | succ j =>
      rw [filter_cons_of_neg (by simp [hx]), drop_succ_cons, ← ih hrest j]
      exact filter_congr fun y _ => by simp only [Nat.add_assoc, Nat.add_comm 1 j]

theorem blockHandlerFunc_eq {W : Wire} (initPosition) (d : ServedDecision W) : blockHandlerFunc initPosition d =
      if d.header.num = initPosition.decisionNum then d.obas.drop initPosition.batchIndex else d.obas := by
  unfold blockHandlerFunc
  by_cases hnum : d.header.num = initPosition.decisionNum
  · rw [if_pos hnum, ← filter_le_eq_drop (f := fun oba => oba.info.batchIndex) (n := 0)
      (fun i oba h => (d.info_eq h).2.trans (Nat.zero_add i).symm)]
    refine filter_congr fun oba hoba => ?_
    obtain ⟨i, hi⟩ := getElem?_of_mem hoba
    simp [(d.info_eq hi).1, hnum]
  · rw [if_neg hnum, filter_eq_self]
    intro oba hoba
    obtain ⟨i, hi⟩ := getElem?_of_mem hoba
    simp [(d.info_eq hi).1, hnum]

namespace ConsensusLog

variable {W : Wire} {log : ConsensusLog W} {initPosition : AssemblerConsensusPosition} {height : Nat}

theorem flatMap_blockHandlerFunc {l : List (ServedDecision W)} (h : ∀ d ∈ l, d.header.num ≠ initPosition.decisionNum) :
    l.flatMap (blockHandlerFunc initPosition) = l.flatMap ServedDecision.obas :=
  flatMap_congr fun d hd => by rw [blockHandlerFunc_eq, if_neg (h d hd)]

/-- A ledger of this height continues at this position: the place that the block at its end names. -/
structure ContinuesAt (log : ConsensusLog W) (height : Nat) (position : AssemblerConsensusPosition) : Prop where
  last : ∃ k oba info, height = k + 1 ∧ log.obas[k]? = some oba ∧ placeOf W oba.commonBlock = .ok info ∧
    position = createAssemblerConsensusPosition (some info)

/-- **The position is right**: before it there are as many blocks as the ledger has. -/
theorem ContinuesAt.height_eq (h : log.ContinuesAt height initPosition) :
    height = Puller.offset ServedDecision.obas log.decisions initPosition.decisionNum + initPosition.batchIndex ∧
      (∀ d, log.decisions[initPosition.decisionNum]? = some d → initPosition.batchIndex ≤ d.obas.length) ∧
      (log.decisions[initPosition.decisionNum]? = none → initPosition.batchIndex = 0) := by
  obtain ⟨k, oba, info, rfl, hoba, hplace, rfl⟩ := h.last
  obtain ⟨n, d, i, hd, hi, rfl⟩ := Puller.exists_offset hoba
  have hnum := log.num n d hd
  have hlt := lt_of_getElem? hi
  have hinfo := hplace.symm.trans (log.place d (mem_of_getElem? hd) oba (mem_of_getElem? hi))
  rw [hnum, (d.info_eq hi).2] at hinfo
  by_cases hn : n = 0
  · -- the genesis block names no count, and the position is in decision 0
    subst hn
    have hone := log.genesis d hd
    obtain rfl : i = 0 := by omega
    obtain rfl : info = ⟨0, 0, 0⟩ := Except.ok.inj hinfo
    refine ⟨rfl, fun d' hd' => ?_, fun hnone => ?_⟩
    · cases hd.symm.trans hd'
      exact hone.ge
    · cases hd.symm.trans hnone
  · rw [if_neg hn] at hinfo
    cases hinfo
    by_cases hlast : i + 1 = d.obas.length
    · simp only [createAssemblerConsensusPosition, hlast, ne_eq, not_true_eq_false, if_false]
      refine ⟨?_, fun _ _ => Nat.zero_le _, fun _ => trivial⟩
      rw [Puller.offset_succ hd]
      omega
    · simp only [createAssemblerConsensusPosition, ne_eq, hlast, not_false_eq_true, if_true]
      refine ⟨rfl, fun d' hd' => ?_, fun hnone => ?_⟩
      · cases hd.symm.trans hd'
        omega
      · cases hd.symm.trans hnone

/-- The blocks that the handler does not skip, from that position on, are those that the ledger lacks. -/
theorem ContinuesAt.drop_eq (h : log.ContinuesAt height initPosition) :
    (log.decisions.flatMap (blockHandlerFunc initPosition)).drop
        (Puller.offset (blockHandlerFunc initPosition) log.decisions initPosition.decisionNum) =
      log.obas.drop height := by
  obtain ⟨hheight, hsome, hnone⟩ := h.height_eq
  set n := initPosition.decisionNum with hn
  have hbefore : (log.decisions.take n).flatMap (blockHandlerFunc initPosition) =
      (log.decisions.take n).flatMap ServedDecision.obas := by
    refine flatMap_blockHandlerFunc fun d hd => ?_
    obtain ⟨i, hi⟩ := getElem?_of_mem hd
    have hlt := lt_of_getElem? hi
    rw [length_take] at hlt
    rw [getElem?_take_of_lt (by omega)] at hi
    rw [log.num i d hi]
    exact Nat.ne_of_lt (by omega)
  have hafter : (log.decisions.drop (n + 1)).flatMap (blockHandlerFunc initPosition) =
      (log.decisions.drop (n + 1)).flatMap ServedDecision.obas := by
    refine flatMap_blockHandlerFunc fun d hd => ?_
    obtain ⟨i, hi⟩ := getElem?_of_mem hd
    rw [getElem?_drop] at hi
    rw [log.num _ d hi]
    exact Nat.ne_of_gt (by omega)
  have hoffset : Puller.offset (blockHandlerFunc initPosition) log.decisions n =
      Puller.offset ServedDecision.obas log.decisions n := congrArg List.length hbefore
  rw [hoffset, hheight, obas, ← take_append_drop n log.decisions, flatMap_append, flatMap_append,
    hbefore, take_append_drop, Puller.offset, drop_left, ← drop_drop, drop_left]
  cases hd : log.decisions[n]? with
  | none =>
    rw [drop_eq_nil_of_le (getElem?_eq_none_iff.mp hd)]
    simp
  | some d =>
    obtain ⟨hlt, rfl⟩ := List.getElem?_eq_some_iff.mp hd
    rw [drop_eq_getElem_cons hlt, flatMap_cons, flatMap_cons, hafter, blockHandlerFunc_eq,
      if_pos (log.num n _ hd), drop_append_of_le_length (hsome _ hd)]

theorem nodup_handled (log : ConsensusLog W) (initPosition) :
    (log.decisions.flatMap (blockHandlerFunc initPosition)).Nodup := by
  refine log.nodup_obas.sublist ?_
  rw [obas]
  induction log.decisions with
  | nil => exact Sublist.refl _
  | cons d l ih =>
    rw [flatMap_cons, flatMap_cons]
    exact filter_sublist.append ih

end ConsensusLog

end Arma
