import Mathlib.Data.Finset.Basic

/-!
# Rosters whose identities are never reused

A roster is a finite set of identities with the greatest identity that was ever given out. A step gives out a greater
one, takes one away, or leaves the roster as it is.

* `Step.top_le`: the bound never decreases.
* **`Step.absent`** and `absent_of_reaches`: an identity that was given out and is not on the roster never comes back.
-/

namespace Arma.Lib

/-- The order of the unsigned integers, which is total. -/
instance uint32LinearOrder : LinearOrder UInt32 where
  le_refl := UInt32.le_refl
  le_trans _ _ _ := UInt32.le_trans
  le_antisymm _ _ := UInt32.le_antisymm
  le_total := UInt32.le_total
  lt_iff_le_not_ge a b := by
    rw [UInt32.not_le]
    exact ⟨fun h => ⟨UInt32.le_of_lt h, h⟩, And.right⟩
  toDecidableLE := inferInstance

/-- The members, and a bound on every identity that was given out. -/
structure Roster (α : Type) [LinearOrder α] where
  members : Finset α
  top : α
  le_top : ∀ a ∈ members, a ≤ top

namespace Roster

variable {α : Type} [LinearOrder α] {r r' r'' : Roster α} {a : α}

/-- One change of a roster. -/
inductive Step (r r' : Roster α) : Prop where
  | keep (hmembers : r'.members = r.members) (htop : r'.top = r.top)
  | enrol (htop : r.top < r'.top) (hmembers : r'.members = insert r'.top r.members)
  | retire (a : α) (ha : a ∈ r.members) (hmembers : r'.members = r.members.erase a) (htop : r'.top = r.top)

theorem Step.top_le (h : Step r r') : r.top ≤ r'.top := by
  cases h with
  | keep _ htop | retire _ _ _ htop => exact htop.ge
  | enrol htop => exact htop.le

/-- **What was given out and is gone stays gone**: the one identity that a step can add is above the bound. -/
theorem Step.absent (h : Step r r') (hle : a ≤ r.top) (ha : a ∉ r.members) : a ∉ r'.members := by
  cases h with
  | keep hmembers => rwa [hmembers]
  | enrol htop hmembers =>
    rw [hmembers, Finset.mem_insert, not_or]
    exact ⟨(hle.trans_lt htop).ne, ha⟩
  | retire _ _ hmembers =>
    rw [hmembers]
    exact fun hmem => ha (Finset.mem_of_mem_erase hmem)

theorem Step.members_cases (h : Step r r') :
    r'.members = r.members ∨ (∃ a, a ∉ r.members ∧ r'.members = insert a r.members) ∨
      ∃ a ∈ r.members, r'.members = r.members.erase a := by
  cases h with
  | keep hmembers => exact .inl hmembers
  | enrol htop hmembers => exact .inr (.inl ⟨_, fun hmem => (r.le_top _ hmem).not_gt htop, hmembers⟩)
  | retire a ha hmembers => exact .inr (.inr ⟨a, ha, hmembers⟩)

/-- Any number of steps. -/
abbrev Reaches : Roster α → Roster α → Prop := Relation.ReflTransGen Step

theorem top_le_of_reaches (h : Reaches r r') : r.top ≤ r'.top := by
  induction h with
  | refl => exact le_rfl
  | tail _ hstep ih => exact ih.trans hstep.top_le

theorem absent_of_reaches (h : Reaches r r') (hle : a ≤ r.top) (ha : a ∉ r.members) : a ∉ r'.members := by
  induction h with
  | refl => exact ha
  | tail hrun hstep ih => exact hstep.absent (hle.trans (top_le_of_reaches hrun)) ih

theorem never_reused (h : Reaches r r') (h' : Reaches r' r'') (ha : a ∈ r.members) (hleft : a ∉ r'.members) :
    a ∉ r''.members :=
  absent_of_reaches h' ((r.le_top a ha).trans (top_le_of_reaches h)) hleft

end Roster

end Arma.Lib
