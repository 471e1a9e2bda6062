import Arma.Lib.Keyed

/-!
# Shelves that are filled in two steps

An item is entered in the index first and put on its shelf afterwards, and many items can be on their way at a time.
`Loading` is `Shelves` with the items on their way. Such an item counts as held from the moment that the index knows
it.

`Books` are what a store has accepted, handed out and cleared so far. They tally with what it holds under a key
(`Books.Tallies`) when what was accepted under the key is what was handed out under it, in the same order, and perhaps
the item that is held.
-/

namespace Arma.Lib

open List Function

variable {κ ν : Type}

/-! ## Items on their way -/

/-- Shelves, and the items on their way: to which shelf, under which key. -/
structure Loading (κ ν : Type) where
  shelves : Shelves κ ν
  moving : List (Nat × κ × ν)

namespace Loading

/-- The key of an item on its way. -/
def key (e : Nat × κ × ν) : κ := e.2.1

variable [DecidableEq κ]

/-- The item on its way under a key. -/
def onTheWay (l : Loading κ ν) (k : κ) : Option ν := (l.moving.find? fun e => key e = k).map fun e => e.2.2

/-- What is on the shelves in use, or on its way to them. -/
def held (l : Loading κ ν) (k : κ) : Option ν :=
  (l.shelves.index k).bind fun b =>
    if b ∈ l.shelves.live then ((l.shelves.shelf b).lookup k).or (l.onTheWay k) else none

/-- What is held and refused. -/
def holdings (l : Loading κ ν) : Holdings κ ν where
  held := l.held
  blocked := { k | ∃ b, l.shelves.index k = some b ∧ b ∉ l.shelves.live }

end Loading

/-! ## Books -/

/-- What a store has accepted and handed out under each key, the newest first, and how often the key was cleared. -/
structure Books (κ ν : Type) where
  accepted : κ → List ν
  returned : κ → List ν
  removed : κ → Nat

namespace Books

/-- Nothing has happened. -/
def empty : Books κ ν := ⟨fun _ => [], fun _ => [], fun _ => 0⟩

section Entries

variable [DecidableEq κ] (books : Books κ ν)

/-- An item is accepted. -/
def accept (k : κ) (v : ν) : Books κ ν :=
  { books with accepted := update books.accepted k (v :: books.accepted k) }

/-- Items are handed out. -/
def handOut (out : List (κ × ν)) : Books κ ν :=
  { books with returned := fun k => (out.filter fun e => e.1 = k).map Prod.snd ++ books.returned k }

/-- A key is cleared. -/
def remove (k : κ) : Books κ ν := { books with removed := update books.removed k (books.removed k + 1) }

end Entries

/-- The key was handed out more often than it was cleared. -/
def Owed (books : Books κ ν) (k : κ) : Prop := books.removed k < (books.returned k).length

/-- What was accepted under a key was handed out in the same order, but for the item that is held. The last item was
handed out and the key not cleared, or it was cleared as often as it was handed out. -/
structure Tallies (books : Books κ ν) (k : κ) (held : Option ν) (gone : Bool) : Prop where
  accepted : books.accepted k = held.toList ++ books.returned k
  returned : (books.returned k).length = books.removed k + gone.toNat

variable {books : Books κ ν} {k : κ} {held : Option ν} {gone : Bool}

theorem Tallies.gone_of_owed (h : books.Tallies k held gone) (howed : books.Owed k) : gone = true := by
  have hreturned := h.returned
  unfold Owed at howed
  cases gone with
  | true => rfl
  | false =>
    rw [Bool.toNat_false] at hreturned
    omega

theorem Tallies.handOut [DecidableEq κ] {out} (h : books.Tallies k held gone)
    (hnodup : (out.map Prod.fst).Nodup) (hout : ∀ e ∈ out, e.1 = k → held = some e.2)
    (hheld : held ≠ none → gone = false) : (books.handOut out).Tallies k (if k ∈ out.map Prod.fst then none else held)
      (gone || decide (k ∈ out.map Prod.fst)) := by
  obtain ⟨haccepted, hreturned⟩ := h
  by_cases hmem : k ∈ out.map Prod.fst
  · obtain ⟨e, he, rfl⟩ := mem_map.mp hmem
    obtain rfl := hout e he rfl
    obtain rfl := hheld (Option.some_ne_none e.2)
    -- The k is in `out` once.
    have honly : (out.filter fun e' => e'.1 = e.1) = [e] := by
      refine perm_singleton.mp ((perm_ext_iff_of_nodup ?_ (nodup_singleton e)).mpr fun e' => ?_)
      · exact (Nodup.of_map _ hnodup).filter _
      · rw [mem_filter, mem_singleton, decide_eq_true_iff]
        exact ⟨fun h' => inj_on_of_nodup_map hnodup h'.1 he h'.2, fun h' => by rw [h']; exact ⟨he, rfl⟩⟩
    rw [if_pos hmem, decide_eq_true hmem]
    refine ⟨?_, ?_⟩
    · simp only [Books.handOut, honly]
      exact haccepted
    · simp only [Books.handOut, honly]
      simpa [Nat.add_comm] using hreturned
  · have hnone : (out.filter fun e => e.1 = k) = [] := filter_eq_nil_iff.mpr fun e he hk =>
      hmem (mem_map.mpr ⟨e, he, of_decide_eq_true hk⟩)
    rw [if_neg hmem, decide_eq_false hmem, Bool.or_false]
    refine ⟨?_, ?_⟩
    · simp only [Books.handOut, hnone]
      exact haccepted
    · simp only [Books.handOut, hnone]
      exact hreturned

end Books

end Arma.Lib
