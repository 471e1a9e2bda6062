import Mathlib.Algebra.Order.BigOperators.Group.Finset
import Mathlib.Data.Fintype.Fin

/-!
# A loop that is split among workers

`n` workers go over the indices below `len`. Worker `w` does the work of the indices that are `w` modulo `n`, and skips
the others. When a work fails its worker returns, and the others return when they see that. The first error counts.

What a work gives may depend on the time at which it is done: `may` says what is possible at a step.

* `Inv.result_of_finished`: when all workers have returned without an error, the work of every index is done.
* `Step.left_lt` and `exists_finished`: the workers come to their end.
-/

namespace Arma.Lib

open Function

inductive Worker where
  | going (next : Nat)
  | returned
  deriving DecidableEq, Repr

/-- The workers, the results of the works that are done, and the first error. -/
structure Strided (ε ρ : Type) (n : Nat) where
  worker : Fin n → Worker
  result : Nat → Option ρ
  err : Option ε

namespace Strided

variable {ε ρ : Type} {n len : Nat} {may : Nat → Except ε ρ → Prop} {s s' : Strided ε ρ n}

/-- All workers are at the beginning. -/
def start (ε ρ : Type) (n : Nat) : Strided ε ρ n := ⟨fun _ => .going 0, fun _ => none, none⟩

/-- Every worker has returned. -/
def Finished (s : Strided ε ρ n) : Prop := ∀ w, s.worker w = .returned

/-- One step of a worker. -/
inductive Step (len : Nat) (may : Nat → Except ε ρ → Prop) (s : Strided ε ρ n) : Strided ε ρ n → Prop
  /-- The index is another worker's. -/
  | skip {w j} (hat : s.worker w = .going j) (hj : j < len) (hw : j % n ≠ w) :
      Step len may s { s with worker := update s.worker w (.going (j + 1)) }
  | work {w j r} (hat : s.worker w = .going j) (hj : j < len) (hw : j % n = w) (hmay : may j (.ok r)) :
      Step len may s { s with
        worker := update s.worker w (.going (j + 1))
        result := update s.result j (some r) }
  | fail {w j e} (hat : s.worker w = .going j) (hj : j < len) (hw : j % n = w) (hmay : may j (.error e)) :
      Step len may s { s with
        worker := update s.worker w .returned
        err := some (s.err.getD e) }
  | cancelled {w j} (hat : s.worker w = .going j) (hj : j < len)
      (herr : s.err ≠ none) : Step len may s { s with worker := update s.worker w .returned }
  | finish {w j} (hat : s.worker w = .going j) (hj : len ≤ j) :
      Step len may s { s with worker := update s.worker w .returned }

/-- Whether a worker has passed an index. -/
def Worker.Passed (err : Option ε) (i : Nat) : Worker → Prop
  | .going j => i < j
  | .returned => err = none

/-- The works of the indices that their workers have passed are done. -/
def Inv (len : Nat) (s : Strided ε ρ n) : Prop :=
  ∀ w, ∀ i < len, i % n = w.val → Worker.Passed s.err i (s.worker w) → s.result i ≠ none

theorem inv_start : (start ε ρ n).Inv len := fun _ _ _ _ hpassed => absurd hpassed (Nat.not_lt_zero _)

theorem Inv.move (hs : s.Inv len) {w x} (hworker : s'.worker = update s.worker w x)
    (hkeep : ∀ i, s.result i ≠ none → s'.result i ≠ none) (herr : s'.err = none → s.err = none)
    (hx : ∀ i < len, i % n = w.val → Worker.Passed s'.err i x → s'.result i ≠ none) : s'.Inv len := by
  intro w' i hi hw' hpassed
  rw [hworker] at hpassed
  by_cases hww : w' = w
  · subst hww
    rw [update_self] at hpassed
    exact hx i hi hw' hpassed
  · rw [update_of_ne hww] at hpassed
    refine hkeep i (hs w' i hi hw' ?_)
    cases hat : s.worker w' with
    | going =>
      rw [hat] at hpassed
      exact hpassed
    | returned =>
      rw [hat] at hpassed
      exact herr hpassed

theorem Step.inv (h : Step len may s s') (hs : s.Inv len) : s'.Inv len := by
  cases h with
  | @skip w j hat _ hw =>
    refine hs.move rfl (fun _ => id) id fun i hi hiw hpassed => hs w i hi hiw ?_
    rw [hat]
    -- the index that is passed over is not this worker's
    have hne : i ≠ j := fun heq => hw (heq ▸ hiw)
    exact Nat.lt_of_le_of_ne (Nat.lt_succ_iff.mp hpassed) hne
  | @work w j r hat =>
    have hkeep : ∀ i, s.result i ≠ none → update s.result j (some r) i ≠ none := fun i hi => by
      by_cases hij : i = j
      · simp [hij]
      · rw [update_of_ne hij]
        exact hi
    refine hs.move rfl hkeep id fun i hi hiw hpassed => ?_
    rcases Nat.lt_succ_iff_lt_or_eq.mp hpassed with hlt | rfl
    · refine hkeep i (hs w i hi hiw ?_)
      rw [hat]
      exact hlt
    · simp
  | fail => exact hs.move rfl (fun _ => id) nofun nofun
  | cancelled _ _ herr => exact hs.move rfl (fun _ => id) id fun _ _ _ hpassed => absurd hpassed herr
  | @finish w _ hat hj =>
    refine hs.move rfl (fun _ => id) id fun i hi hiw _ => hs w i hi hiw ?_
    rw [hat]
    exact Nat.lt_of_lt_of_le hi hj

theorem Inv.result_of_finished (hs : s.Inv len) (hn : 0 < n) (hfinished : s.Finished) (herr : s.err = none) {i}
    (hi : i < len) : ∃ r, s.result i = some r := by
  refine Option.ne_none_iff_exists'.mp (hs ⟨i % n, Nat.mod_lt i hn⟩ i hi rfl ?_)
  rw [hfinished]
  exact herr

/-- What holds of all works that are possible holds of those that are done. -/
theorem Step.result {P : Nat → ρ → Prop} (h : Step len may s s') (hP : ∀ j < len, ∀ r, may j (.ok r) → P j r)
    (hs : ∀ j r, s.result j = some r → P j r) : ∀ j r, s'.result j = some r → P j r := by
  cases h with
  | @work _ j r _ hj _ hmay =>
    intro j' r' hr'
    by_cases hjj : j' = j
    · subst hjj
      obtain rfl : r = r' := by simpa using hr'
      exact hP j' hj r hmay
    · exact hs j' r' (by simpa [hjj] using hr')
  | skip | fail | cancelled | finish => exact hs

theorem Step.err_eq_none (h : Step len may s s') (hmay : ∀ j < len, ∀ e, ¬ may j (.error e)) (hs : s.err = none) :
    s'.err = none := by
  cases h with
  | fail _ hj _ hfails => exact absurd hfails (hmay _ hj _)
  | skip | work | cancelled | finish => exact hs

/-! ## The end -/

/-- How far a worker is from its return. -/
def Worker.left (len : Nat) : Worker → Nat
  | .going j => len - j + 1
  | .returned => 0

/-- How far all workers are from their return. -/
def left (len : Nat) (s : Strided ε ρ n) : Nat := ∑ w, Worker.left len (s.worker w)

theorem left_lt {w x} (hworker : s'.worker = update s.worker w x)
    (hx : Worker.left len x < Worker.left len (s.worker w)) : s'.left len < s.left len := by
  refine Finset.sum_lt_sum (fun w' _ => ?_) ⟨w, Finset.mem_univ w, ?_⟩
  · rw [hworker]
    by_cases hw : w' = w
    · subst hw
      rw [update_self]
      exact Nat.le_of_lt hx
    · rw [update_of_ne hw]
  · rw [hworker, update_self]
    exact hx

theorem Step.left_lt (h : Step len may s s') : s'.left len < s.left len := by
  cases h with
  | skip hat | work hat | fail hat | cancelled hat | finish hat =>
    refine Strided.left_lt rfl ?_
    rw [hat]
    simp only [Worker.left]
    omega

theorem exists_step (hmay : ∀ j < len, ∃ x, may j x) (hs : ¬ s.Finished) : ∃ s', Step len may s s' := by
  simp only [Finished, not_forall] at hs
  obtain ⟨w, hw⟩ := hs
  cases hat : s.worker w with
  | returned => exact absurd hat hw
  | going j =>
    by_cases hj : j < len
    · by_cases hjw : j % n = w
      · obtain ⟨x, hx⟩ := hmay j hj
        cases x with
        | ok r => exact ⟨_, .work hat hj hjw hx⟩
        | error e => exact ⟨_, .fail hat hj hjw hx⟩
      · exact ⟨_, .skip hat hj hjw⟩
    · exact ⟨_, .finish hat (Nat.not_lt.mp hj)⟩

/-- **The workers come to their end**, whatever they have done so far. -/
theorem exists_finished (hmay : ∀ j < len, ∃ x, may j x) (s : Strided ε ρ n) :
    ∃ s', Relation.ReflTransGen (Step len may) s s' ∧ s'.Finished := by
  induction hleft : s.left len using Nat.strong_induction_on generalizing s with
  | _ _ ih =>
    by_cases hs : s.Finished
    · exact ⟨s, .refl, hs⟩
    · obtain ⟨s₁, hstep⟩ := exists_step hmay hs
      obtain ⟨s₂, hrun, hfinished⟩ := ih _ (hleft ▸ hstep.left_lt) s₁ rfl
      exact ⟨s₂, .head hstep hrun, hfinished⟩

end Strided

end Arma.Lib
