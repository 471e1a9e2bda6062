import Mathlib.Data.List.Forall2

/-!
# Tables that are filled column by column

A table is a list of rows of one length. `put` writes one entry, `putColumn` the entries of a column from the top.
Writing the columns of a list one after the other transposes the list (`Shaped.putColumns_row`): the row at an index
has the entries that the columns have there.
-/

namespace Arma.Lib

open List

section Grid

variable {α : Type}

/-- A table of `rows` rows with `cols` entries each. -/
structure Shaped (rows cols : Nat) (m : List (List α)) : Prop where
  rows : m.length = rows
  cols : ∀ row ∈ m, row.length = cols

/-- The entry in a row and a column. -/
def entry (m : List (List α)) (r c : Nat) : Option α := m[r]?.bind (·[c]?)

/-- `m[r][c] = a`. -/
def put (m : List (List α)) (r c : Nat) (a : α) : List (List α) := m.modify r (·.set c a)

/-- The entries of the column `c` from the row `r` on. -/
def putColumn (c : Nat) : Nat → List α → List (List α) → List (List α)
  | _, [], m => m
  | r, a :: l, m => putColumn c (r + 1) l (put m r c a)

/-- The columns from `c` on, each from the top. -/
def putColumns : Nat → List (List α) → List (List α) → List (List α)
  | _, [], m => m
  | c, column :: columns, m => putColumns (c + 1) columns (putColumn c 0 column m)

variable {rows cols : Nat} {m : List (List α)}

theorem shaped_replicate (rows cols : Nat) (a : α) : Shaped rows cols (replicate rows (replicate cols a)) where
  rows := length_replicate
  cols := by
    intro row hrow
    rw [eq_of_mem_replicate hrow, length_replicate]

section

variable (h : Shaped rows cols m)
include h

theorem Shaped.put (r c : Nat) (a : α) : Shaped rows cols (put m r c a) where
  rows := (length_modify _ _ _).trans h.rows
  cols := by
    intro row hrow
    obtain ⟨i, hi⟩ := getElem?_of_mem hrow
    rw [Lib.put, getElem?_modify] at hi
    cases hget : m[i]? with
    | none => simp [hget] at hi
    | some old =>
      have hold := h.cols old (mem_of_getElem? hget)
      rw [hget, Option.map_eq_map, Option.map_some, Option.some.injEq] at hi
      subst hi
      split
      · rw [length_set, hold]
      · exact hold

theorem Shaped.entry_put {r c} (hr : r < rows) (hc : c < cols) (a : α) (r' c' : Nat) :
    entry (Lib.put m r c a) r' c' = if r' = r ∧ c' = c then some a else entry m r' c' := by
  unfold entry Lib.put
  rw [getElem?_modify]
  by_cases hrow : r = r'
  · subst hrow
    have hlt : r < m.length := h.rows.symm ▸ hr
    have hlen : m[r].length = cols := h.cols _ (getElem_mem hlt)
    rw [getElem?_eq_getElem hlt, Option.map_eq_map, Option.map_some, if_pos rfl, Option.bind_some, Option.bind_some]
    by_cases hcol : c = c'
    · subst hcol
      rw [if_pos ⟨rfl, rfl⟩, getElem?_set_self (hlen ▸ hc)]
    · rw [getElem?_set_ne hcol, if_neg (fun hand => hcol hand.2.symm)]
  · rw [if_neg (fun hand => hrow hand.1.symm)]
    cases m[r']? with
    | none => rfl
    | some row => simp [hrow]

theorem Shaped.putColumn (c r : Nat) (l : List α) : Shaped rows cols (putColumn c r l m) := by
  induction l generalizing r m with
  | nil => exact h
  | cons a l ih => exact ih (h.put r c a) (r + 1)

theorem Shaped.entry_putColumn {c r l} (hc : c < cols) (hr : r + l.length = rows) (r' c' : Nat) :
    entry (Lib.putColumn c r l m) r' c' = if c' = c ∧ r ≤ r' ∧ r' < rows then l[r' - r]? else entry m r' c' := by
  induction l generalizing r m with
  | nil =>
    rw [Lib.putColumn, if_neg]
    simp only [length_nil] at hr
    omega
  | cons a l ih =>
    simp only [length_cons] at hr
    rw [Lib.putColumn, ih (h.put r c a) (by omega), h.entry_put (by omega) hc]
    by_cases hcol : c' = c
    · by_cases hrow : r' = r
      · subst hrow
        rw [if_neg (by omega), if_pos ⟨rfl, hcol⟩, if_pos ⟨hcol, Nat.le_refl _, by omega⟩, Nat.sub_self]
        rfl
      · by_cases hlt : r < r' ∧ r' < rows
        · obtain ⟨k, rfl⟩ : ∃ k, r' = r + 1 + k := ⟨r' - (r + 1), by omega⟩
          rw [if_pos ⟨hcol, by omega, hlt.2⟩, if_pos ⟨hcol, by omega, hlt.2⟩, Nat.add_sub_cancel_left,
            show r + 1 + k - r = k + 1 by omega, getElem?_cons_succ]
        · rw [if_neg (by omega), if_neg (by omega), if_neg (by omega)]
    · rw [if_neg (by omega), if_neg (by omega), if_neg (by omega)]

theorem Shaped.putColumns (c : Nat) (columns : List (List α)) : Shaped rows cols (putColumns c columns m) := by
  induction columns generalizing c m with
  | nil => exact h
  | cons column columns ih => exact ih (h.putColumn c 0 column) (c + 1)

theorem Shaped.entry_putColumns {c columns}
    (hc : c + columns.length ≤ cols) (hlen : ∀ column ∈ columns, column.length = rows) (r' c' : Nat) :
    entry (Lib.putColumns c columns m) r' c' =
      if c ≤ c' ∧ c' < c + columns.length ∧ r' < rows then columns[c' - c]?.bind (·[r']?) else entry m r' c' := by
  induction columns generalizing c m with
  | nil =>
    rw [Lib.putColumns, if_neg]
    simp only [length_nil]
    omega
  | cons column columns ih =>
    simp only [length_cons] at hc
    have hcolumn : column.length = rows := hlen column mem_cons_self
    rw [Lib.putColumns, ih (h.putColumn c 0 column) (by omega) (fun l hl => hlen l (mem_cons_of_mem _ hl)),
      h.entry_putColumn (by omega) (by omega)]
    simp only [length_cons, Nat.zero_le, true_and, Nat.sub_zero]
    by_cases hcol : c' = c
    · subst hcol
      rw [if_neg (by omega), Nat.sub_self]
      by_cases hrow : r' < rows
      · rw [if_pos ⟨rfl, hrow⟩, if_pos ⟨Nat.le_refl _, by omega, hrow⟩]
        rfl
      · rw [if_neg (by omega), if_neg (by omega)]
    · by_cases hlt : c < c' ∧ c' < c + 1 + columns.length ∧ r' < rows
      · obtain ⟨k, rfl⟩ : ∃ k, c' = c + 1 + k := ⟨c' - (c + 1), by omega⟩
        rw [if_pos (by omega), if_pos (by omega), Nat.add_sub_cancel_left, show c + 1 + k - c = k + 1 by omega,
          getElem?_cons_succ]
      · rw [if_neg (by omega), if_neg (by omega), if_neg (by omega)]

/-- **Columns that fill a table are transposed**: the row at an index has their entries there. -/
theorem Shaped.putColumns_row {columns} (hc : columns.length = cols)
    (hlen : ∀ column ∈ columns, column.length = rows) {r} (hr : r < rows) :
    ∃ row, (Lib.putColumns 0 columns m)[r]? = some row ∧
      Forall₂ (fun column a => column[r]? = some a) columns row := by
  have hshape := h.putColumns 0 columns
  have hlt : r < (Lib.putColumns 0 columns m).length := hshape.rows.symm ▸ hr
  refine ⟨_, getElem?_eq_getElem hlt, ?_⟩
  have hwidth := hshape.cols _ (getElem_mem hlt)
  refine forall₂_iff_get.mpr ⟨hc.trans hwidth.symm, fun i hi hi' => ?_⟩
  have hentry := h.entry_putColumns (show 0 + columns.length ≤ cols by omega) hlen r i
  rw [if_pos ⟨Nat.zero_le _, by omega, hr⟩, entry, getElem?_eq_getElem hlt, Option.bind_some,
    getElem?_eq_getElem hi', Nat.sub_zero, getElem?_eq_getElem hi, Option.bind_some] at hentry
  exact hentry.symm

end

end Grid

end Arma.Lib
