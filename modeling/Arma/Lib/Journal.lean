import Mathlib.Data.Set.Insert

/-!
# Statements about an append-only log

A party keeps a log under each key and only ever appends to it, and it makes statements to others of the form
"under this key, at this position, stands this entry". A statement is owed from the moment its entry is
recorded; it may be dropped, by a crash for example, and what was dropped is never owed again.

`Journal` is that party and `Journal.Step` what it does. In every run every statement made is true of the log
(`Backed.of_run`), and because a log never changes below its end, two statements about one position agree
(`Backed.entry_eq`). A program that writes before it speaks is verified by mapping each of its steps to one
of these.
-/

namespace Arma.Lib

open Function

/-- Under `key`, at `position`, stands `entry`. -/
structure Statement (K E : Type) where
  key : K
  position : Nat
  entry : E

/-- The logs, the statements that may still be made, and those that were made. -/
structure Journal (K E : Type) where
  log : K → List E
  owed : Set (Statement K E)
  said : Set (Statement K E)

namespace Journal

variable {K E : Type} [DecidableEq K] {j j' : Journal K E} {s t : Statement K E}

/-- The statement is true of the log. -/
def Holds (j : Journal K E) (s : Statement K E) : Prop := (j.log s.key)[s.position]? = some s.entry

/-- One step. Only a recorded entry makes a new statement owed, and every step may drop some. -/
inductive Step (j : Journal K E) : Journal K E → Prop
  | record (k : K) (e : E) {owed} (howed : owed ⊆ insert ⟨k, (j.log k).length, e⟩ j.owed) :
      Step j ⟨update j.log k (j.log k ++ [e]), owed, j.said⟩
  | drop {owed} (howed : owed ⊆ j.owed) : Step j ⟨j.log, owed, j.said⟩
  | say {s : Statement K E} (hs : s ∈ j.owed) {owed} (howed : owed ⊆ j.owed) : Step j ⟨j.log, owed, insert s j.said⟩

/-- Every statement owed or made is true. -/
structure Backed (j : Journal K E) : Prop where
  owed : ∀ s ∈ j.owed, j.Holds s
  said : ∀ s ∈ j.said, j.Holds s

theorem holds_update {k e owed said} (h : j.Holds s) :
    (⟨update j.log k (j.log k ++ [e]), owed, said⟩ : Journal K E).Holds s := by
  by_cases hk : s.key = k
  · obtain ⟨hlt, -⟩ := List.getElem?_eq_some_iff.mp h
    subst hk
    simpa [Holds, List.getElem?_append_left hlt] using h
  · simpa [Holds, update_of_ne hk] using h

theorem Backed.step (h : Step j j') (hj : j.Backed) : j'.Backed := by
  cases h with
  | record _ _ howed =>
    refine ⟨fun s hs => ?_, fun s hs => holds_update (hj.said s hs)⟩
    rcases howed hs with rfl | hs
    · simp [Holds]
    · exact holds_update (hj.owed s hs)
  | drop howed => exact ⟨fun s hs => hj.owed s (howed hs), hj.said⟩
  | say hs howed =>
    refine ⟨fun t ht => hj.owed t (howed ht), fun t ht => ?_⟩
    rcases ht with rfl | ht
    · exact hj.owed _ hs
    · exact hj.said t ht

/-- **Nothing but the log is spoken of**, in every run. -/
theorem Backed.of_run (h : Relation.ReflTransGen Step j j') (hj : j.Backed) : j'.Backed := by
  induction h with
  | refl => exact hj
  | tail _ hstep ih => exact ih.step hstep

omit [DecidableEq K] in
/-- **Two statements about one position agree.** -/
theorem Backed.entry_eq (hj : j.Backed) (hs : s ∈ j.said) (ht : t ∈ j.said) (hkey : s.key = t.key)
    (hpos : s.position = t.position) : s.entry = t.entry := by
  have hs' := hj.said s hs
  have ht' := hj.said t ht
  rw [Holds, hkey, hpos] at hs'
  exact Option.some.inj (hs'.symm.trans ht')

end Journal

end Arma.Lib
