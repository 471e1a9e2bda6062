import Arma.Lib.Ranked
import Arma.State.Invariant

/-!
# The heights that assemblers report

`AssemblerHeights` lists for each party the highest decision its assembler has reported, and `UpdateDurableWatermark`
reads the watermark off it. The list is a map from parties to heights, `heightAt`. It stays strictly sorted by party
(`HeightsSorted`), and a sorted list is determined by its map (`HeightsSorted.eq_of_heightAt`).

* `heightAt_collectReports`: a round raises the height of a party to the highest one that it reported in the round.
* `updateDurableWatermark_cases`: the watermark stays, or it rises to the largest height that `2 f + 1` parties have
  reached.
-/

namespace Arma

open Arma.Lib List

def heightAt (heights : List AssemblerHeight) (party : PartyID) : Option DecisionNum :=
  (heights.find? (·.party = party)).map (·.decisionNum)

/-- The heights are strictly sorted by party, so that no party is listed twice. -/
def HeightsSorted (heights : List AssemblerHeight) : Prop := heights.Pairwise (·.party < ·.party)

/-! ## The list as a map -/

section Map

variable {heights heights' : List AssemblerHeight} {party : PartyID} {num : DecisionNum}

theorem heightAt_cons (h : AssemblerHeight) :
    heightAt (h :: heights) party = if h.party = party then some h.decisionNum else heightAt heights party := by
  unfold heightAt
  by_cases heq : h.party = party <;> simp [heq]

theorem heightAt_eq_none : heightAt heights party = none ↔ ∀ h ∈ heights, h.party ≠ party := by
  simp [heightAt]

theorem heightAt_append :
    heightAt (heights ++ heights') party = (heightAt heights party).or (heightAt heights' party) := by
  induction heights with
  | nil => simp [heightAt]
  | cons h rest ih =>
    rw [cons_append, heightAt_cons, heightAt_cons, ih]
    by_cases heq : h.party = party <;> simp [heq]

theorem HeightsSorted.nodup (hs : HeightsSorted heights) : (heights.map (·.party)).Nodup := by
  unfold Nodup
  rw [pairwise_map]
  exact Pairwise.imp (fun hlt => UInt16.ne_of_lt hlt) hs

theorem mem_iff_heightAt (hnodup : (heights.map (·.party)).Nodup) {h} :
    h ∈ heights ↔ heightAt heights h.party = some h.decisionNum := by
  induction heights with
  | nil => simp [heightAt]
  | cons x rest ih =>
    obtain ⟨hnot, hrest⟩ := nodup_cons.mp hnodup
    rw [heightAt_cons, mem_cons, ih hrest]
    by_cases heq : x.party = h.party
    · have hnone : heightAt rest h.party = none := by
        refine heightAt_eq_none.mpr fun y hy hparty => hnot ?_
        exact mem_map.mpr ⟨y, hy, hparty.trans heq.symm⟩
      rw [if_pos heq, hnone]
      obtain ⟨p, n⟩ := h
      obtain ⟨p', n'⟩ := x
      obtain rfl : p' = p := heq
      simp [eq_comm]
    · rw [if_neg heq]
      have hne : h ≠ x := fun e => heq (e ▸ rfl)
      simp [hne]

/-- Lists without repeated parties that have the same entries are the same map. -/
theorem heightAt_of_perm (hnodup : (heights.map (·.party)).Nodup) (hperm : heights'.Perm heights) :
    heightAt heights' party = heightAt heights party := by
  have hnodup' : (heights'.map (·.party)).Nodup := (hperm.map _).nodup_iff.mpr hnodup
  refine Option.ext fun n => ?_
  have hmem := (mem_iff_heightAt hnodup' (h := ⟨party, n⟩)).symm.trans (hperm.mem_iff.trans (mem_iff_heightAt hnodup))
  simpa using hmem

/-- **A sorted list is determined by its map.** -/
theorem HeightsSorted.eq_of_heightAt (hs : HeightsSorted heights) (hs' : HeightsSorted heights')
    (h : ∀ party, heightAt heights party = heightAt heights' party) : heights = heights' := by
  have hperm : heights.Perm heights' := by
    refine (perm_ext_iff_of_nodup (.of_map _ hs.nodup) (.of_map _ hs'.nodup)).mpr fun x => ?_
    rw [mem_iff_heightAt hs.nodup, mem_iff_heightAt hs'.nodup, h]
  exact hperm.eq_of_pairwise (fun a b _ _ hab hba => absurd hba (UInt16.lt_asymm hab)) hs hs'

theorem heightsSorted_insertionSort (hnodup : (heights.map (·.party)).Nodup) :
    HeightsSorted (heights.insertionSort fun a b => a.party ≤ b.party) := by
  have htotal : Std.Total fun a b : AssemblerHeight => a.party ≤ b.party := ⟨fun a b => UInt16.le_total _ _⟩
  have htrans : IsTrans AssemblerHeight fun a b => a.party ≤ b.party := ⟨fun _ _ _ => UInt16.le_trans⟩
  have hperm := perm_insertionSort (fun a b : AssemblerHeight => a.party ≤ b.party) heights
  have hnodup' := (hperm.map (·.party)).nodup_iff.mpr hnodup
  have hle := pairwise_insertionSort (fun a b : AssemblerHeight => a.party ≤ b.party) heights
  exact (hle.and (pairwise_map.mp hnodup')).imp fun h => UInt16.lt_of_le_of_ne h.1 h.2

end Map

/-! ## Reports -/

section Reports

variable {heights : List AssemblerHeight} {party : PartyID}

/-- A height, if there is one, raised to a reported decision. -/
def raised (height : Option DecisionNum) (num : DecisionNum) : Option DecisionNum := some (max (height.getD 0) num)

def reportsOf (party : PartyID) (ces : List ControlEvent) : List DecisionNum :=
  ces.filterMap fun ce =>
    match ce with
    | .assemblerReport r => if r.party = party then some r.decisionNum else none
    | _ => none

instance : RightCommutative raised where
  right_comm height a b := by simp [raised, max_right_comm]

theorem le_foldl_raised (nums : List DecisionNum) (num : DecisionNum) :
    ∃ num', num ≤ num' ∧ nums.foldl raised (some num) = some num' := by
  induction nums generalizing num with
  | nil => exact ⟨num, le_rfl, rfl⟩
  | cons n nums ih =>
    obtain ⟨num', hle, hfold⟩ := ih (max num n)
    exact ⟨num', (le_max_left num n).trans hle, hfold⟩

theorem mem_of_foldl_raised {nums : List DecisionNum} {height num}
    (h : nums.foldl raised height = some num) : height = some num ∨ num ∈ nums := by
  induction nums generalizing height with
  | nil => exact .inl h
  | cons n nums ih =>
    rcases ih h with hmax | hmem
    · have hmax : max (height.getD 0) n = num := Option.some.inj hmax
      rcases max_choice (height.getD 0) n with hold | hnew
      · cases height with
        | none => exact .inr (mem_cons.mpr (.inl (by rw [← hmax]; simp)))
        | some old => exact .inl (by rw [← hmax, hold]; rfl)
      · exact .inr (mem_cons.mpr (.inl (hmax.symm.trans hnew)))
    · exact .inr (mem_cons_of_mem n hmem)

theorem mem_reportsOf {ces num} (h : num ∈ reportsOf party ces) :
    ∃ r, ControlEvent.assemblerReport r ∈ ces ∧ r.party = party ∧ r.decisionNum = num := by
  obtain ⟨ce, hce, hnum⟩ := mem_filterMap.mp h
  cases ce with
  | assemblerReport r =>
    by_cases hparty : r.party = party
    · exact ⟨r, hce, hparty, by simpa [hparty] using hnum⟩
    · simp [hparty] at hnum
  | baf | complaint | configRequest => cases hnum

namespace State

theorem map_party_raiseHeight (p : PartyID) (num : DecisionNum) :
    (raiseHeight p num heights).map (·.party) = heights.map (·.party) := by
  induction heights with
  | nil => rfl
  | cons h rest ih =>
    rw [raiseHeight]
    split
    · split <;> rfl
    · rw [map_cons, ih, map_cons]

theorem heightAt_raiseHeight (p : PartyID) (num : DecisionNum) : heightAt (raiseHeight p num heights) party =
      if party = p then (heightAt heights party).map (max · num) else heightAt heights party := by
  induction heights with
  | nil => simp [raiseHeight, heightAt]
  | cons h rest ih =>
    by_cases hp : h.party = p
    · have hraise : raiseHeight p num (h :: rest) = { h with decisionNum := max h.decisionNum num } :: rest := by
        rw [raiseHeight, if_pos hp]
        by_cases hlt : h.decisionNum < num
        · rw [if_pos hlt, max_eq_right hlt.le]
        · rw [if_neg hlt, max_eq_left (not_lt.mp hlt)]
      rw [hraise, heightAt_cons, heightAt_cons]
      by_cases heq : party = p
      · simp [hp, heq]
      · have hne : h.party ≠ party := fun e => heq (e ▸ hp)
        simp [hne, heq]
    · rw [raiseHeight, if_neg hp, heightAt_cons, heightAt_cons, ih]
      by_cases heq : h.party = party
      · have hne : party ≠ p := fun e => hp (heq.trans e)
        simp [heq, hne]
      · simp [heq]

variable (acc : List AssemblerHeight × Bool)

/-- One round of the loop of `CollectAssemblerReports`: the height of a party that has one is raised, another
party is added. -/
theorem collectReport_report (r) : ((∃ h ∈ acc.1, h.party = r.party) ∧
      collectReport acc (.assemblerReport r) = (raiseHeight r.party r.decisionNum acc.1, acc.2)) ∨
    ((∀ h ∈ acc.1, h.party ≠ r.party) ∧
      collectReport acc (.assemblerReport r) = (acc.1 ++ [⟨r.party, r.decisionNum⟩], true)) := by
  by_cases hany : acc.1.any (·.party = r.party) = true
  · exact .inl ⟨by simpa using hany, if_pos hany⟩
  · exact .inr ⟨by simpa using hany, if_neg hany⟩

theorem heightAt_collectReport (r) : heightAt (collectReport acc (.assemblerReport r)).1 party =
      if party = r.party then raised (heightAt acc.1 party) r.decisionNum else heightAt acc.1 party := by
  obtain ⟨⟨h, hh, hparty⟩, hstep⟩ | ⟨hnew, hstep⟩ := collectReport_report acc r
  · rw [hstep, heightAt_raiseHeight]
    by_cases heq : party = r.party
    · cases hheight : heightAt acc.1 party with
      | none => exact absurd (hparty.trans heq.symm) (heightAt_eq_none.mp hheight h hh)
      | some n => simp [heq, raised]
    · simp [heq]
  · rw [hstep, heightAt_append, heightAt_cons]
    by_cases heq : party = r.party
    · have hnone : heightAt acc.1 party = none := heightAt_eq_none.mpr (heq ▸ hnew)
      rw [hnone, if_pos heq.symm, if_pos heq]
      simp [raised]
    · have hne : r.party ≠ party := fun e => heq e.symm
      simp [heq, hne, heightAt]

/-- What the loop keeps of the parties: none is listed twice, and without an addition they stay as they are. -/
theorem collectReport_parties (ce : ControlEvent)
    (hnodup : (acc.1.map (·.party)).Nodup) : ((collectReport acc ce).1.map (·.party)).Nodup ∧
      ((collectReport acc ce).2 = false → acc.2 = false ∧
        (collectReport acc ce).1.map (·.party) = acc.1.map (·.party)) := by
  cases ce with
  | assemblerReport r =>
    obtain ⟨-, hstep⟩ | ⟨hnew, hstep⟩ := collectReport_report acc r
    · rw [hstep, map_party_raiseHeight]
      exact ⟨hnodup, fun h => ⟨h, rfl⟩⟩
    · rw [hstep, map_append, nodup_append]
      refine ⟨⟨hnodup, by simp, ?_⟩, fun h => by cases h⟩
      rintro p hp q hq rfl
      obtain ⟨h, hh, rfl⟩ := mem_map.mp hp
      exact hnew h hh (by simpa using hq)
  | baf | complaint | configRequest => exact ⟨hnodup, fun h => ⟨h, rfl⟩⟩

/-- The loop of `CollectAssemblerReports` raises the height of each party to its highest report. -/
theorem foldl_collectReport (ces) (acc)
    (hnodup : (acc.1.map (·.party)).Nodup) : ((ces.foldl collectReport acc).1.map (·.party)).Nodup ∧
      ((ces.foldl collectReport acc).2 = false → acc.2 = false ∧
        (ces.foldl collectReport acc).1.map (·.party) = acc.1.map (·.party)) ∧
      ∀ party, heightAt (ces.foldl collectReport acc).1 party =
        (reportsOf party ces).foldl raised (heightAt acc.1 party) := by
  induction ces generalizing acc with
  | nil => exact ⟨hnodup, fun h => ⟨h, rfl⟩, fun _ => rfl⟩
  | cons ce ces ih =>
    rw [foldl_cons]
    obtain ⟨hstep, hflag⟩ := collectReport_parties acc ce hnodup
    obtain ⟨hrest, hrestFlag, hheights⟩ := ih _ hstep
    refine ⟨hrest, fun h => ?_, fun party => ?_⟩
    · obtain ⟨hflag', hparties⟩ := hrestFlag h
      obtain ⟨hacc, hparties'⟩ := hflag hflag'
      exact ⟨hacc, hparties.trans hparties'⟩
    · rw [hheights]
      cases ce with
      | assemblerReport r =>
        rw [heightAt_collectReport]
        by_cases heq : r.party = party
        · simp [reportsOf, heq]
        · have hne : party ≠ r.party := fun e => heq e.symm
          simp [reportsOf, heq, hne]
      | baf | complaint | configRequest => rfl

/-- **`CollectAssemblerReports`** keeps the heights sorted and raises the height of each party to its highest
report. -/
theorem collectAssemblerReports_heights {s : State} (ces) (hs : HeightsSorted s.assemblerHeights) :
    HeightsSorted (s.collectAssemblerReports ces).assemblerHeights ∧
      ∀ party, heightAt (s.collectAssemblerReports ces).assemblerHeights party =
        (reportsOf party ces).foldl raised (heightAt s.assemblerHeights party) := by
  obtain ⟨hnodup, hflag, hheights⟩ := foldl_collectReport ces (s.assemblerHeights, false) hs.nodup
  unfold collectAssemblerReports
  dsimp only
  by_cases hadded : (ces.foldl collectReport (s.assemblerHeights, false)).2 = true
  · rw [if_pos hadded]
    set heights := (ces.foldl collectReport (s.assemblerHeights, false)).1
    have hperm := perm_insertionSort (fun a b : AssemblerHeight => a.party ≤ b.party) heights
    refine ⟨heightsSorted_insertionSort hnodup, fun party => ?_⟩
    rw [heightAt_of_perm hnodup hperm, hheights]
  · rw [if_neg hadded]
    obtain ⟨-, hparties⟩ := hflag (by simpa using hadded)
    refine ⟨?_, hheights⟩
    have hsorted : (s.assemblerHeights.map (·.party)).Pairwise (· < ·) := pairwise_map.mpr hs
    rw [← hparties] at hsorted
    exact pairwise_map.mp hsorted

end State

end Reports

/-! ## The watermark -/

section Watermark

variable {heights : List AssemblerHeight}

/-- The parties whose height is at least `num`. -/
def partiesAt (heights : List AssemblerHeight) (num : DecisionNum) : Finset PartyID :=
  ((heights.filter (num ≤ ·.decisionNum)).map (·.party)).toFinset

theorem HeightsSorted.card_partiesAt (hs : HeightsSorted heights) (num : DecisionNum) :
    (partiesAt heights num).card = heights.countP (num ≤ ·.decisionNum) := by
  have hnodup : ((heights.filter (num ≤ ·.decisionNum)).map (·.party)).Nodup :=
    (filter_sublist.map _).nodup hs.nodup
  rw [partiesAt, toFinset_card_of_nodup hnodup, length_map, countP_eq_length_filter]

theorem toNat_quorum {n} (h : n ≠ 0) : (2 * (computeFTQ n).1 + 1).toNat = 2 * ((n.toNat - 1) / 3) + 1 := by
  have hlt := n.toNat_lt
  have h1 : (1 : UInt16).toNat = 1 := rfl
  have h2 : (2 : UInt16).toNat = 2 := rfl
  rw [UInt16.toNat_add, UInt16.toNat_mul, faults_toNat h, h1, h2, Nat.mod_eq_of_lt (by omega),
    Nat.mod_eq_of_lt (by omega)]

namespace State

theorem updateDurableWatermark_cases {s : State} (hn : s.n ≠ 0) (hs : HeightsSorted s.assemblerHeights) :
    s.updateDurableWatermark.durableWatermark = s.durableWatermark ∨
      (s.durableWatermark < s.updateDurableWatermark.durableWatermark ∧
        IsGreatest {num | 2 * ((s.n.toNat - 1) / 3) + 1 ≤ (partiesAt s.assemblerHeights num).card}
          s.updateDurableWatermark.durableWatermark) := by
  unfold updateDurableWatermark
  rw [if_neg hn, toNat_quorum hn]
  dsimp only
  split
  · exact .inl rfl
  · rename_i hlen
    split
    · rename_i watermark hwatermark
      split
      · rename_i hlt
        refine .inr ⟨hlt, ?_⟩
        have hgreatest := isGreatest_insertionSort (by simpa using hlen) hwatermark
        simpa only [hs.card_partiesAt, countP_map, Function.comp_def] using hgreatest
      · exact .inl rfl
    · exact .inl rfl

/-- The watermark depends on the number of parties, the heights and the watermark before. -/
theorem updateDurableWatermark_congr {s t : State} (hn : s.n = t.n) (hheights : s.assemblerHeights = t.assemblerHeights)
    (hwatermark : s.durableWatermark = t.durableWatermark) :
    s.updateDurableWatermark.durableWatermark = t.updateDurableWatermark.durableWatermark := by
  unfold updateDurableWatermark
  rw [hn, hheights, hwatermark]
  split
  · exact hwatermark
  · dsimp only
    split
    · exact hwatermark
    · split
      · split
        · rfl
        · exact hwatermark
      · exact hwatermark

end State

end Watermark

/-! ## The round -/

section Round

variable {W : Wire} {configSeq : ConfigSequence} {ces : List ControlEvent} {s s' : State}
  {extracted : List BAF} {configRequests : List ConfigRequest}

namespace State

theorem collected_assemblerHeights : (s.collected W configSeq ces).assemblerHeights =
      (s.collectAssemblerReports (filterCEsWithDiffConfigSeq W configSeq ces).1).assemblerHeights := by
  unfold collected collectAndDeduplicateEvents collectAssemblerReports
  dsimp only
  rw [foldl_collectEvent_frame]
  rfl

theorem process_heights_eq (h : s.process W configSeq ces = .ok (s', extracted, configRequests)) :
    s'.assemblerHeights = (s.collected W configSeq ces).assemblerHeights ∧
      s'.durableWatermark = (s.collected W configSeq ces).updateDurableWatermark.durableWatermark := by
  simp only [process, primaryRotateDueToComplaints, cleanupOldComplaints, Outcome.bind_eq_ok] at h
  obtain ⟨rotated, ⟨⟨shards, cs⟩, -, hrotated⟩, cleaned, ⟨cs', -, hcleaned⟩, hret⟩ := h
  cases hrotated
  cases hcleaned
  cases hret
  constructor
  · rw [updateDurableWatermark_frame]
    rfl
  · exact updateDurableWatermark_congr rfl rfl rfl

/-- **What a round does to the heights and the watermark.** -/
theorem process_heights (hn : s.n ≠ 0) (hs : HeightsSorted s.assemblerHeights)
    (h : s.process W configSeq ces = .ok (s', extracted, configRequests)) : HeightsSorted s'.assemblerHeights ∧
      (∀ party, heightAt s'.assemblerHeights party =
        (reportsOf party (filterCEsWithDiffConfigSeq W configSeq ces).1).foldl raised
          (heightAt s.assemblerHeights party)) ∧
      (s'.durableWatermark = s.durableWatermark ∨ (s.durableWatermark < s'.durableWatermark ∧
        IsGreatest {num | 2 * ((s.n.toNat - 1) / 3) + 1 ≤ (partiesAt s'.assemblerHeights num).card}
          s'.durableWatermark)) := by
  obtain ⟨hheights, hwatermark⟩ := process_heights_eq h
  obtain ⟨hsorted, hmap⟩ := collectAssemblerReports_heights (filterCEsWithDiffConfigSeq W configSeq ces).1 hs
  rw [← collected_assemblerHeights] at hsorted
  simp only [← collected_assemblerHeights] at hmap
  have hn' : (s.collected W configSeq ces).n = s.n := collected_n W configSeq ces s
  have hwm : (s.collected W configSeq ces).durableWatermark = s.durableWatermark := by rw [collected_frame]
  have hcases := updateDurableWatermark_cases (hn' ▸ hn) hsorted
  rw [← hwatermark, hwm, hn', ← hheights] at hcases
  rw [hheights]
  exact ⟨hsorted, hmap, hheights ▸ hcases⟩

end State

end Round

end Arma
