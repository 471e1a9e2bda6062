import Mathlib.Data.List.Sort
import Mathlib.Order.Bounds.Basic

/-!
# The value that `k` entries of a list reach

In a sorted list the entry at `length - k` has `k - 1` entries after it, and these are the ones at or above it that
come later. So it is the largest value that at least `k` entries reach (`isGreatest_sorted`). Counting does not
depend on the order of the list, so this also says what is read off a sorted copy (`isGreatest_insertionSort`).
-/

namespace Arma.Lib

open List

section Ranked

variable {α β : Type*} [LinearOrder α] {l : List α} {k : Nat} {w : α}

/-- An entry of a sorted list splits it into entries up to it and entries from it on. -/
theorem sorted_split (hs : l.Pairwise (· ≤ ·)) {i} (h : l[i]? = some w) :
    (∀ x ∈ l.take (i + 1), x ≤ w) ∧ ∀ x ∈ l.drop i, w ≤ x := by
  obtain ⟨hi, rfl⟩ := List.getElem?_eq_some_iff.mp h
  have hsplit : l.take i ++ l[i] :: l.drop (i + 1) = l := by
    rw [← drop_eq_getElem_cons hi, take_append_drop]
  rw [← hsplit, pairwise_append, pairwise_cons] at hs
  obtain ⟨-, ⟨hafter, -⟩, hbefore⟩ := hs
  constructor
  · intro x hx
    rw [take_succ_eq_append_getElem hi, mem_append, mem_singleton] at hx
    rcases hx with hx | rfl
    · exact hbefore x hx _ mem_cons_self
    · exact le_rfl
  · intro x hx
    rw [drop_eq_getElem_cons hi] at hx
    rcases mem_cons.mp hx with rfl | hx
    · exact le_rfl
    · exact hafter x hx

/-- **The value that `k` entries of a sorted list reach.** -/
theorem isGreatest_sorted (hs : l.Pairwise (· ≤ ·)) (hk : k ≤ l.length) (h : l[l.length - k]? = some w) :
    IsGreatest {x | k ≤ l.countP (x ≤ ·)} w := by
  obtain ⟨hi, -⟩ := List.getElem?_eq_some_iff.mp h
  obtain ⟨hbefore, hafter⟩ := sorted_split hs h
  constructor
  · have hall : (l.drop (l.length - k)).countP (w ≤ ·) = (l.drop (l.length - k)).length :=
      countP_eq_length.mpr fun x hx => by simpa using hafter x hx
    have hle : (l.drop (l.length - k)).countP (w ≤ ·) ≤ l.countP (w ≤ ·) := (drop_sublist _ l).countP_le
    rw [hall, length_drop] at hle
    exact le_trans (by omega) hle
  · intro x hx
    by_contra hlt
    push Not at hlt
    -- what is above `w` comes after it
    have hnone : (l.take (l.length - k + 1)).countP (x ≤ ·) = 0 :=
      countP_eq_zero.mpr fun y hy => by simpa using (hbefore y hy).trans_lt hlt
    have hsplit : l.countP (x ≤ ·) = (l.take (l.length - k + 1)).countP (x ≤ ·) +
        (l.drop (l.length - k + 1)).countP (x ≤ ·) := by
      rw [← countP_append, take_append_drop]
    have hrest : (l.drop (l.length - k + 1)).countP (x ≤ ·) ≤ (l.drop (l.length - k + 1)).length :=
      countP_le_length
    rw [length_drop] at hrest
    have hreach : k ≤ l.countP (x ≤ ·) := hx
    omega

/-- **The value that `k` entries of a list reach**, read off a sorted copy. -/
theorem isGreatest_insertionSort (hk : k ≤ l.length)
    (h : (l.insertionSort (· ≤ ·))[(l.insertionSort (· ≤ ·)).length - k]? = some w) :
    IsGreatest {x | k ≤ l.countP (x ≤ ·)} w := by
  have hperm := perm_insertionSort (· ≤ ·) l
  have hgreatest := isGreatest_sorted (pairwise_insertionSort (· ≤ ·) l) (by rwa [hperm.length_eq]) h
  have hcount : ∀ x, (l.insertionSort (· ≤ ·)).countP (x ≤ ·) = l.countP (x ≤ ·) := fun x => hperm.countP_eq _
  simpa only [hcount] using hgreatest

/-- In a list sorted in descending order an entry is reached by those before it. -/
theorem succ_le_countP_of_sorted (hs : l.Pairwise (· ≥ ·)) {i} (h : l[i]? = some w) : i + 1 ≤ l.countP (w ≤ ·) := by
  obtain ⟨hi, -⟩ := List.getElem?_eq_some_iff.mp h
  have hall : (l.take (i + 1)).countP (w ≤ ·) = (l.take (i + 1)).length :=
    countP_eq_length.mpr fun x hx => decide_eq_true ((sorted_split (α := αᵒᵈ) hs h).1 x hx)
  calc i + 1 = (l.take (i + 1)).countP (w ≤ ·) := by rw [hall, length_take]; omega
    _ ≤ l.countP (w ≤ ·) := (take_sublist _ l).countP_le

/-- Where fewer entries have `p` than `q`, one has `q` alone. -/
theorem exists_of_countP_lt {p q : β → Bool} {l : List β} (h : l.countP p < l.countP q) : ∃ x ∈ l, q x ∧ ¬ p x := by
  by_contra hnone
  push Not at hnone
  exact h.not_ge (countP_mono_left hnone)

end Ranked

end Arma.Lib
