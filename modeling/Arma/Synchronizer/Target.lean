import Arma.Lib.Keyed
import Arma.Lib.Outcome
import Arma.Lib.Ranked

/-!
# The height to synchronize to

Model of `detectTargetHeight` and `computeTargetHeight` (`node/consensus/synchronizer/synchronizer_bft.go`). A node
that has fallen behind asks the others for the heights of their ledgers, drops its own answer, sorts the rest in
descending order and takes the entry at `f`, the last one if no more than `f` have answered.

* What the height detector returns is a parameter: that it could not be made, that the heights could not be had, or
  the height of each endpoint that answered, with the node's own endpoint. Heights are only compared.
* `clusterSize` is the number of consenters in the shared config, which is not 0.

Results:
* `le_correct_iff`: with at most `f` faulty nodes the target is at most the height of a correct one exactly when a
  correct one has answered; more than `f` answers are enough for that.
* `faulty_alone`: a faulty node that answers alone sets the target, here to the last number there is.
-/

namespace Arma

open Arma.Lib Outcome List

def computeTargetHeight (clusterSize : Nat) (heights : List Nat) : Outcome Nat :=
  let heights := heights.insertionSort (· ≥ ·)
  let f := (clusterSize - 1) / 3
  let lenH := heights.length
  if lenH < f + 1 then index heights (lenH - 1) else index heights f

/-- What the others have answered. -/
def answers (heightByEndpoint : AList fun _ : String => Nat) (myEndpoint : String) : List (String × Nat) :=
  pairs (heightByEndpoint.erase myEndpoint)

def detectTargetHeight (order : RangeOrder String Nat) (clusterSize : Nat)
    (createHeightDetector : Except String (Except String ((AList fun _ : String => Nat) × String))) :
    Outcome (Except String (Nat × String)) :=
  match createHeightDetector with
  | .error err => return .error s!"cannot create HeightDetector: {err}"
  | .ok (.error err) => return .error s!"cannot get HeightsByEndpoints: {err}"
  | .ok (.ok (heightByEndpoint, myEndpoint)) => do
    let heights := (order.order (answers heightByEndpoint myEndpoint)).map Prod.snd
    if heights.isEmpty then return .error "no cluster members to synchronize with"
    let targetHeight ← computeTargetHeight clusterSize heights
    return .ok (targetHeight, myEndpoint)

/-- **The target is reached by one more answer than there may be faulty ones**, and by all if there are fewer. -/
theorem computeTargetHeight_reached (clusterSize : Nat) {heights : List Nat} (hsome : heights ≠ []) :
    ∃ target ∈ heights, computeTargetHeight clusterSize heights = .ok target ∧
      min ((clusterSize - 1) / 3 + 1) heights.length ≤ heights.countP (target ≤ ·) := by
  have hperm := perm_insertionSort (· ≥ ·) heights
  have hpos := length_pos_iff.mpr hsome
  obtain ⟨i, hi, hmin⟩ : ∃ i, i < heights.length ∧ i + 1 = min ((clusterSize - 1) / 3 + 1) heights.length :=
    ⟨min ((clusterSize - 1) / 3 + 1) heights.length - 1, by omega, by omega⟩
  have hlen := hperm.length_eq
  obtain ⟨target, hat⟩ : ∃ target, (heights.insertionSort (· ≥ ·))[i]? = some target :=
    ⟨_, getElem?_eq_getElem (hlen ▸ hi)⟩
  refine ⟨target, hperm.mem_iff.mp (mem_of_getElem? hat), ?_, ?_⟩
  · simp only [computeTargetHeight, hlen]
    split
    · rwa [index_eq_ok, show heights.length - 1 = i by omega]
    · rwa [index_eq_ok, show (clusterSize - 1) / 3 = i by omega]
  · rw [← hmin, ← hperm.countP_eq]
    exact succ_le_countP_of_sorted (pairwise_insertionSort _ heights) hat

/-- **Faulty nodes cannot raise the target, if a correct one answers.** Of the nodes that answered at most `f` are
faulty. The target is at most the height that a correct one reported exactly when there is a correct one among them,
which is so whenever more than `f` answered. -/
theorem le_correct_iff (order : RangeOrder String Nat) (clusterSize : Nat) {heightByEndpoint myEndpoint}
    (faulty : String → Bool) (hsome : answers heightByEndpoint myEndpoint ≠ [])
    (hfaulty : (answers heightByEndpoint myEndpoint).countP (faulty ·.1) ≤ (clusterSize - 1) / 3) :
    ∃ target, detectTargetHeight order clusterSize (.ok (.ok (heightByEndpoint, myEndpoint))) =
        .ok (.ok (target, myEndpoint)) ∧
      ((∃ r ∈ answers heightByEndpoint myEndpoint, faulty r.1 = false ∧ target ≤ r.2) ↔
        ∃ r ∈ answers heightByEndpoint myEndpoint, faulty r.1 = false) ∧
      ((clusterSize - 1) / 3 < (answers heightByEndpoint myEndpoint).length →
        ∃ r ∈ answers heightByEndpoint myEndpoint, faulty r.1 = false) := by
  have hperm := order.perm (answers heightByEndpoint myEndpoint)
  have hheights : (order.order (answers heightByEndpoint myEndpoint)).map Prod.snd ≠ [] := by
    simpa [← length_eq_zero_iff, hperm.length_eq] using hsome
  obtain ⟨target, -, htarget, hreached⟩ := computeTargetHeight_reached clusterSize hheights
  rw [(hperm.map Prod.snd).countP_eq, length_map, hperm.length_eq, countP_map] at hreached
  refine ⟨target, ?_, ⟨?_, ?_⟩, ?_⟩
  · simp only [detectTargetHeight, List.isEmpty_iff, hheights, if_false, htarget]
    rfl
  · rintro ⟨r, hr, hcorrect, -⟩
    exact ⟨r, hr, hcorrect⟩
  · rintro ⟨r, hr, hcorrect⟩
    -- with a correct one among them the faulty ones are fewer than those that reach the target
    have hfew : (answers heightByEndpoint myEndpoint).countP (faulty ·.1) <
        (answers heightByEndpoint myEndpoint).length :=
      countP_le_length.lt_of_ne fun hall => by simpa [hcorrect] using countP_eq_length.mp hall r hr
    obtain ⟨r, hr, hreach, hcorrect⟩ := exists_of_countP_lt (lt_of_lt_of_le (lt_min (by omega) hfew) hreached)
    exact ⟨r, hr, by simpa using hcorrect, by simpa using hreach⟩
  · intro hmany
    have hfew : (answers heightByEndpoint myEndpoint).countP (faulty ·.1) <
        (answers heightByEndpoint myEndpoint).countP fun _ => true := by rw [countP_true]; omega
    obtain ⟨r, hr, -, hcorrect⟩ := exists_of_countP_lt hfew
    exact ⟨r, hr, by simpa using hcorrect⟩

theorem le_correct_one_of_four : ∃ target, detectTargetHeight .same 4
      (.ok (.ok ((AList.singleton "c2" 18446744073709551615).insert "c3" 9, "c1"))) = .ok (.ok (target, "c1")) ∧
    ∃ r ∈ answers ((AList.singleton "c2" 18446744073709551615).insert "c3" 9) "c1", r.1 ≠ "c2" ∧ target ≤ r.2 := by
  obtain ⟨target, htarget, hiff, -⟩ := le_correct_iff .same 4 (· == "c2")
    (show answers ((AList.singleton "c2" 18446744073709551615).insert "c3" 9) "c1" ≠ [] by decide) (by decide)
  obtain ⟨r, hr, hcorrect, hle⟩ := hiff.mpr (by decide)
  exact ⟨target, htarget, r, hr, by simpa using hcorrect, hle⟩

/-- The one node of four that is faulty answers alone. -/
theorem faulty_alone : detectTargetHeight .same 4 (.ok (.ok (AList.singleton "c2" 18446744073709551615, "c1"))) =
      .ok (.ok (18446744073709551615, "c1")) ∧
    (answers (AList.singleton "c2" 18446744073709551615) "c1").countP (·.1 == "c2") ≤ (4 - 1) / 3 ∧
    ¬ ∃ r ∈ answers (AList.singleton "c2" 18446744073709551615) "c1", (r.1 == "c2") = false ∧
      18446744073709551615 ≤ r.2 := by
  decide

end Arma
