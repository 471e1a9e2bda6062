import Mathlib.Logic.Equiv.Basic
import Mathlib.Order.Lattice

/-!
# Binary heaps that are only swapped

The two loops of Go's `container/heap`, which reach the elements through `Less` and `Swap` alone and may fail where
these do. What the elements are is left open: a state has a key at each position, and a swap exchanges two of them
(`Sifts`), whatever else it keeps up to date. The loops then restore the order of the first `n` positions, and keep
what every swap keeps (`up_spec`, `down_spec`). Their first argument bounds the number of turns; it is never used up.

Between two swaps the order holds except at one position (`OrderedBut`).
-/

namespace Arma.Lib

section Order

variable {κ : Type} [LinearOrder κ] {f g : Nat → κ} {n m i j : Nat}

/-- No key is below that of its parent. -/
def HeapOrdered (f : Nat → κ) (n : Nat) : Prop := ∀ k, 0 < k → k < n → f ((k - 1) / 2) ≤ f k

/-- The order holds away from `i`, and across it. -/
structure OrderedBut (f : Nat → κ) (n i : Nat) : Prop where
  away : ∀ k, 0 < k → k < n → k ≠ i → (k - 1) / 2 ≠ i → f ((k - 1) / 2) ≤ f k
  across : ∀ k, 0 < k → k < n → (k - 1) / 2 = i → 0 < i → f ((i - 1) / 2) ≤ f k

/-- No child of `i` has a key below its own. -/
def OrderedBelow (f : Nat → κ) (n i : Nat) : Prop := ∀ k, 0 < k → k < n → (k - 1) / 2 = i → f i ≤ f k

/-- **The root has the least key.** -/
theorem HeapOrdered.root_le (h : HeapOrdered f n) : ∀ k < n, f 0 ≤ f k := by
  intro k
  induction k using Nat.strongRecOn with
  | ind k ih =>
    intro hk
    rcases Nat.eq_zero_or_pos k with rfl | hpos
    · exact le_rfl
    · exact (ih ((k - 1) / 2) (by omega) (by omega)).trans (h k hpos hk)

theorem HeapOrdered.mono (h : HeapOrdered f n) (hm : m ≤ n) (hg : ∀ k < m, g k = f k) : HeapOrdered g m := by
  intro k hpos hk
  rw [hg _ (by omega), hg k hk]
  exact h k hpos (by omega)

theorem HeapOrdered.but (h : HeapOrdered f n) (hm : m ≤ n) (hg : ∀ k < m, k ≠ i → g k = f k) : OrderedBut g m i where
  away k hpos hk hne hparent := by
    rw [hg _ (by omega) hparent, hg k hk hne]
    exact h k hpos (by omega)
  across k hpos hk hparent hi := by
    rw [hg _ (by omega) (by omega), hg k hk (by omega)]
    exact (h i hi (by omega)).trans (hparent ▸ h k hpos (by omega))

theorem HeapOrdered.push (h : HeapOrdered f n) (hg : ∀ k < n, g k = f k) :
    OrderedBut g (n + 1) n ∧ OrderedBelow g (n + 1) n := by
  refine ⟨⟨fun k hpos hk hne _ => h.mono (Nat.le_refl n) hg k hpos (by omega), fun k _ _ _ _ => ?_⟩, fun k _ _ _ => ?_⟩
  · omega
  · omega

theorem OrderedBut.ordered (h : OrderedBut f n i) (hbelow : OrderedBelow f n i)
    (habove : 0 < i → f ((i - 1) / 2) ≤ f i) : HeapOrdered f n := by
  intro k hpos hk
  by_cases hki : k = i
  · subst hki
    exact habove hpos
  by_cases hparent : (k - 1) / 2 = i
  · exact hparent ▸ hbelow k hpos hk hparent
  · exact h.away k hpos hk hki hparent

omit [LinearOrder κ] in
theorem comp_swap_apply (f : Nat → κ) (i j k : Nat) :
    (f ∘ Equiv.swap i j) k = if k = i then f j else if k = j then f i else f k := by
  rw [Function.comp_apply, Equiv.swap_apply_def]
  grind

/-- A key that is below that of its parent moves up. -/
theorem OrderedBut.move_up (h : OrderedBut f n j) (hpos : 0 < j) (hlt : f j < f ((j - 1) / 2)) :
    OrderedBut (f ∘ Equiv.swap ((j - 1) / 2) j) n ((j - 1) / 2) ∧
      OrderedBelow (f ∘ Equiv.swap ((j - 1) / 2) j) n ((j - 1) / 2) := by
  obtain ⟨p, hp⟩ : ∃ p, p = (j - 1) / 2 := ⟨_, rfl⟩
  rw [← hp] at hlt ⊢
  have hup := h.away p
  refine ⟨⟨fun k hk hkn hkp hparent => ?_, fun k hk hkn hparent hp0 => ?_⟩, fun k hk hkn hparent => ?_⟩
  -- a child of `j` gets the parent's key above it, a child of the parent the smaller one
  all_goals
    have haway := h.away k hk hkn
    have hacross := h.across k hk hkn
    simp only [comp_swap_apply]
    grind

/-- A key that is above that of its least child moves down. -/
theorem OrderedBut.move_down {c} (h : OrderedBut f n i) (hc : c < n) (hpos : 0 < c) (hparent : (c - 1) / 2 = i)
    (hleast : ∀ k, 0 < k → k < n → (k - 1) / 2 = i → f c ≤ f k) (hlt : f c < f i) :
    OrderedBut (f ∘ Equiv.swap i c) n c ∧ (f ∘ Equiv.swap i c) ((c - 1) / 2) ≤ (f ∘ Equiv.swap i c) c := by
  have hup := h.across c hpos hc hparent
  refine ⟨⟨fun k hk hkn hkc hkp => ?_, fun k hk hkn hkp _ => ?_⟩, ?_⟩
  · have haway := h.away k hk hkn
    have hleast := hleast k hk hkn
    simp only [comp_swap_apply]
    grind
  · have haway := h.away k hk hkn
    simp only [comp_swap_apply]
    grind
  · simp only [comp_swap_apply]
    grind

end Order

section Sift

variable {S ε : Type} (less : S → Nat → Nat → Except ε Bool) (swap : S → Nat → Nat → Except ε S)

def upFrom : Nat → S → Nat → Except ε S
  | 0, s, _ => .ok s
  | fuel + 1, s, j =>
    if (j - 1) / 2 = j then .ok s
    else do
      if ← less s j ((j - 1) / 2) then
        let s ← swap s ((j - 1) / 2) j
        upFrom fuel s ((j - 1) / 2)
      else return s

/-- `up` of `container/heap`. -/
def up (s : S) (j : Nat) : Except ε S := upFrom less swap (j + 1) s j

/-- Whether `down` looks at the right child. -/
def rightLess (s : S) (i n : Nat) : Except ε Bool :=
  if 2 * i + 2 < n then less s (2 * i + 2) (2 * i + 1) else .ok false

def downFrom : Nat → S → Nat → Nat → Except ε (S × Nat)
  | 0, s, i, _ => .ok (s, i)
  | fuel + 1, s, i, n =>
    if n ≤ 2 * i + 1 then .ok (s, i)
    else do
      let right ← rightLess less s i n
      let j := if right then 2 * i + 2 else 2 * i + 1
      if ← less s j i then
        let s ← swap s i j
        downFrom fuel s j n
      else return (s, i)

/-- `down` of `container/heap`: whether the element has moved. -/
def down (s : S) (i n : Nat) : Except ε (S × Bool) := do
  let (s, j) ← downFrom less swap n s i n
  return (s, decide (i < j))

/-- **What sifting rests on**: `less` compares the keys of two of the first `n` positions, and `swap` exchanges them
and keeps `Ok`. -/
structure Sifts {κ : Type} [LinearOrder κ] (n : Nat) (Ok : S → Prop) (key : S → Nat → κ) : Prop where
  less_eq : ∀ {s i j}, Ok s → i < n → j < n → less s i j = .ok (decide (key s i < key s j))
  swap_eq : ∀ {s i j}, Ok s → i < n → j < n → ∃ s', swap s i j = .ok s' ∧ Ok s' ∧ key s' = key s ∘ Equiv.swap i j

variable {less swap} {κ : Type} [LinearOrder κ] {n : Nat} {Ok : S → Prop} {key : S → Nat → κ} {s : S} {i j fuel : Nat}

section

variable (h : Sifts less swap n Ok key) (hok : Ok s)
include h hok

theorem Sifts.upFrom_spec (hj : j < n) (hfuel : j < fuel)
    (hbut : OrderedBut (key s) n j) (hbelow : OrderedBelow (key s) n j) :
    ∃ s', upFrom less swap fuel s j = .ok s' ∧ Ok s' ∧ HeapOrdered (key s') n := by
  induction fuel generalizing s j with
  | zero => omega
  | succ fuel ih =>
    rw [upFrom]
    by_cases hroot : (j - 1) / 2 = j
    · rw [if_pos hroot]
      exact ⟨s, rfl, hok, hbut.ordered hbelow (by omega)⟩
    rw [if_neg hroot, h.less_eq hok hj (by omega)]
    by_cases hlt : key s j < key s ((j - 1) / 2)
    · obtain ⟨s', hswap, hok', hkey⟩ := h.swap_eq hok (show (j - 1) / 2 < n by omega) hj
      have hmove := hbut.move_up (by omega) hlt
      rw [← hkey] at hmove
      obtain ⟨s'', hup, hspec⟩ := ih hok' (by omega) (by omega) hmove.1 hmove.2
      refine ⟨s'', ?_, hspec⟩
      simp only [hlt, decide_true, hswap, bind, Except.bind, if_true, hup]
    · refine ⟨s, ?_, hok, hbut.ordered hbelow fun _ => not_lt.mp hlt⟩
      simp only [hlt, decide_false, bind, Except.bind, Bool.false_eq_true, if_false]
      rfl

/-- **Sifting up** restores the order. -/
theorem Sifts.up_spec (hj : j < n) (hbut : OrderedBut (key s) n j)
    (hbelow : OrderedBelow (key s) n j) : ∃ s', up less swap s j = .ok s' ∧ Ok s' ∧ HeapOrdered (key s') n :=
  h.upFrom_spec hok hj (Nat.lt_succ_self j) hbut hbelow

/-- The child that `downFrom` looks at has the least key among the children. -/
theorem Sifts.least_child (hi : 2 * i + 1 < n) :
    ∃ right, rightLess less s i n = .ok right ∧ (if right then 2 * i + 2 else 2 * i + 1) < n ∧
      ∀ k, 0 < k → k < n → (k - 1) / 2 = i → key s (if right then 2 * i + 2 else 2 * i + 1) ≤ key s k := by
  by_cases hright : 2 * i + 2 < n
  · refine ⟨_, by rw [rightLess, if_pos hright, h.less_eq hok hright hi], by split <;> omega,
      fun k hk hkn hparent => ?_⟩
    have hchild : k = 2 * i + 1 ∨ k = 2 * i + 2 := by omega
    simp only [decide_eq_true_eq]
    split
    · next hlt => rcases hchild with rfl | rfl; exacts [hlt.le, le_rfl]
    · next hle => rcases hchild with rfl | rfl; exacts [le_rfl, not_lt.mp hle]
  · refine ⟨false, by rw [rightLess, if_neg hright], hi, fun k hk hkn hparent => ?_⟩
    exact (show 2 * i + 1 = k by omega) ▸ le_rfl

theorem Sifts.downFrom_spec (hfuel : n ≤ i + fuel)
    (hbut : OrderedBut (key s) n i) : ∃ s' j, downFrom less swap fuel s i n = .ok (s', j) ∧ Ok s' ∧
      (j = i ∧ s' = s ∧ OrderedBelow (key s) n i ∨ i < j ∧ HeapOrdered (key s') n) := by
  induction fuel generalizing s i with
  | zero => exact ⟨s, i, rfl, hok, .inl ⟨rfl, rfl, fun k _ _ _ => by omega⟩⟩
  | succ fuel ih =>
    rw [downFrom]
    by_cases hleaf : n ≤ 2 * i + 1
    · rw [if_pos hleaf]
      exact ⟨s, i, rfl, hok, .inl ⟨rfl, rfl, fun k _ _ _ => by omega⟩⟩
    obtain ⟨right, hright, hc, hleast⟩ := h.least_child hok (Nat.lt_of_not_le hleaf)
    rw [if_neg hleaf, hright]
    generalize hcdef : (if right then 2 * i + 2 else 2 * i + 1) = c at hc hleast
    have hparent : (c - 1) / 2 = i ∧ 0 < c := by split at hcdef <;> omega
    have hless := h.less_eq hok hc (show i < n by omega)
    simp only [bind, Except.bind, hcdef, hless]
    by_cases hlt : key s c < key s i
    · obtain ⟨s', hswap, hok', hkey⟩ := h.swap_eq hok (show i < n by omega) hc
      have hmove := hbut.move_down hc hparent.2 hparent.1 hleast hlt
      rw [← hkey] at hmove
      obtain ⟨s'', j, hdown, hok'', hend⟩ := ih hok' (by omega) hmove.1
      refine ⟨s'', j, by simpa [hlt, hswap] using hdown, hok'', .inr ?_⟩
      rcases hend with ⟨rfl, rfl, hbelow⟩ | ⟨hj, hordered⟩
      · exact ⟨by omega, hmove.1.ordered hbelow fun _ => hmove.2⟩
      · exact ⟨by omega, hordered⟩
    · refine ⟨s, i, by simp [hlt, pure, Except.pure], hok, .inl ⟨rfl, rfl, fun k hk hkn hk' => ?_⟩⟩
      exact (not_lt.mp hlt).trans (hleast k hk hkn hk')

/-- **Sifting down** either leaves an element that is not above its children, or restores the order. -/
theorem Sifts.down_spec (hbut : OrderedBut (key s) n i) : ∃ s' moved, down less swap s i n = .ok (s', moved) ∧ Ok s' ∧
      (moved = false ∧ s' = s ∧ OrderedBelow (key s) n i ∨ moved = true ∧ HeapOrdered (key s') n) := by
  obtain ⟨s', j, hdown, hok', hend⟩ := h.downFrom_spec hok (Nat.le_add_left n i) hbut
  refine ⟨s', decide (i < j), by rw [down, hdown]; rfl, hok', ?_⟩
  rcases hend with ⟨rfl, hend⟩ | ⟨hj, hend⟩
  · exact .inl ⟨by simp, hend⟩
  · exact .inr ⟨by simpa using hj, hend⟩

end

end Sift

end Arma.Lib
