import Mathlib.Data.UInt

/-!
# Two counters in one word

A 64-bit word with a number of items in its upper half and their size in its lower half, so that one atomic addition
counts both. `Packs.add`: an item adds to both, as long as neither half overflows. `Tally` is about parties that add
first and check afterwards.
-/

namespace Arma.Lib.Packed

/-- The upper half. -/
def count (x : UInt64) : UInt32 := (x >>> 32).toUInt32

/-- The lower half. -/
def bytes (x : UInt64) : UInt32 := x.toUInt32

/-- What one item adds. -/
def item (size : UInt32) : UInt64 := size.toUInt64 + ((1 : UInt64) <<< (32 : UInt64))

/-- A word that stands for `n` items of `b` bytes together. -/
structure Packs (x : UInt64) (n b : Nat) : Prop where
  toNat_eq : x.toNat = n * 2 ^ 32 + b
  count_lt : n < 2 ^ 32
  bytes_lt : b < 2 ^ 32

variable {x : UInt64} {n b : Nat}

theorem packs_zero : Packs 0 0 0 := ⟨rfl, by decide, by decide⟩

theorem toNat_count (x : UInt64) : (count x).toNat = x.toNat / 2 ^ 32 := by
  have hx := x.toNat_lt
  simp only [count, UInt64.toNat_toUInt32, UInt64.toNat_shiftRight, UInt64.reduceToNat, Nat.shiftRight_eq_div_pow,
    Nat.reduceMod, Nat.reducePow]
  omega

theorem Packs.count_eq (h : Packs x n b) : (count x).toNat = n := by
  have hb := h.bytes_lt
  rw [toNat_count, h.toNat_eq]
  omega

theorem Packs.bytes_eq (h : Packs x n b) : (bytes x).toNat = b := by
  have hb := h.bytes_lt
  have hx := h.toNat_eq
  simp only [bytes, UInt64.toNat_toUInt32]
  omega

theorem toNat_item (size : UInt32) : (item size).toNat = size.toNat + 2 ^ 32 := by
  have hsize := size.toNat_lt
  have hone : ((1 : UInt64) <<< (32 : UInt64)).toNat = 2 ^ 32 := rfl
  rw [item, UInt64.toNat_add, hone, UInt32.toNat_toUInt64]
  omega

theorem Packs.add (h : Packs x n b) {size} (hn : n + 1 < 2 ^ 32) (hb : b + size.toNat < 2 ^ 32) :
    Packs (x + item size) (n + 1) (b + size.toNat) where
  toNat_eq := by
    have hx := h.toNat_eq
    rw [UInt64.toNat_add, toNat_item, hx]
    omega
  count_lt := hn
  bytes_lt := hb

/-! ## Adding before checking

Several parties add items to one word and check it afterwards. An item that is over a limit then stays counted, so from
there on every item is over, and those that were within before are within the limits together. -/

/-- The items that were within the limits and those that were over. -/
structure Tally where
  count : Nat
  bytes : Nat
  overCount : Nat
  overBytes : Nat

/-- A word stands for all of them. -/
structure Tally.Ok (maxCount maxBytes : Nat) (x : UInt64) (t : Tally) : Prop where
  packs : Packs x (t.count + t.overCount) (t.bytes + t.overBytes)
  count_le : t.count ≤ maxCount
  bytes_le : t.bytes ≤ maxBytes
  exceeds : t.overCount ≠ 0 → maxCount < t.count + t.overCount ∨ maxBytes < t.bytes + t.overBytes
  over_zero : t.overCount = 0 → t.overBytes = 0

variable {maxCount maxBytes : Nat} {t : Tally} {size : UInt32}

theorem Tally.ok_zero : Tally.Ok maxCount maxBytes 0 ⟨0, 0, 0, 0⟩ :=
  ⟨packs_zero, Nat.zero_le _, Nat.zero_le _, fun h => absurd rfl h, fun _ => rfl⟩

section

variable (h : t.Ok maxCount maxBytes x) (hn : t.count + t.overCount + 1 < 2 ^ 32)
  (hb : t.bytes + t.overBytes + size.toNat < 2 ^ 32)
include h hn hb

theorem Tally.Ok.add_within (hcount : (Packed.count (x + item size)).toNat ≤ maxCount)
    (hbytes : (Packed.bytes (x + item size)).toNat ≤ maxBytes) :
    t.overCount = 0 ∧ Tally.Ok maxCount maxBytes (x + item size)
      { t with count := t.count + 1, bytes := t.bytes + size.toNat } := by
  have hpacks := h.packs.add hn hb
  rw [hpacks.count_eq] at hcount
  rw [hpacks.bytes_eq] at hbytes
  have hnone : t.overCount = 0 := by
    by_contra hsome
    rcases h.exceeds hsome with hover | hover <;> omega
  have hnoBytes := h.over_zero hnone
  refine ⟨hnone, ?_, ?_, ?_, fun hsome => absurd hnone hsome, h.over_zero⟩
  · simp only [hnone, hnoBytes] at hpacks ⊢
    exact hpacks
  · simp only
    omega
  · simp only
    omega

theorem Tally.Ok.add_over (hover : ¬ ((Packed.count (x + item size)).toNat ≤ maxCount
    ∧ (Packed.bytes (x + item size)).toNat ≤ maxBytes)) :
    Tally.Ok maxCount maxBytes (x + item size)
      { t with overCount := t.overCount + 1, overBytes := t.overBytes + size.toNat } := by
  have hpacks := h.packs.add hn hb
  rw [hpacks.count_eq, hpacks.bytes_eq] at hover
  refine ⟨?_, h.count_le, h.bytes_le, fun _ => ?_, fun hzero => absurd hzero (Nat.succ_ne_zero _)⟩
  · simp only [← Nat.add_assoc]
    exact hpacks
  · simp only
    omega

end

end Arma.Lib.Packed
