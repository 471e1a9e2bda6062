import Mathlib.Data.Finset.Card
import Mathlib.Data.List.AList

/-!
# Keyed items

`Enumerates l held`: the list `l` of keys and items lists what `held` holds, each key once. `Numbers p n`: there are `n`
keys that meet `p`. A map that can be changed while it is ranged over gives its entries in any order, so an order is a
parameter, `RangeOrder`.

`Holdings` is what a store of items looks like from outside: the items it holds by their keys, and the keys that it
refuses although it holds nothing under them. Storing, taking, discarding and burying are its operations, and
`storeAll_eq` says that a store that is filled with what another one holds holds the same.

`Shelves` is how such a store can be built: an index from the keys to shelves, and the shelves that are in use. Each of
its operations keeps `Shelves.Ok`, the agreement of the index with those shelves, and its effect on
`Shelves.holdings` is one equation.
-/

namespace Arma.Lib

open List Function

variable {κ ν : Type}

/-! ## Maps and their entries -/

/-- The entries of a map as pairs. -/
def pairs (m : AList fun _ : κ => ν) : List (κ × ν) := m.entries.map fun e => (e.1, e.2)

@[simp] theorem pairs_empty : pairs (∅ : AList fun _ : κ => ν) = [] := rfl

theorem perm_cons_eraseP {p : ν → Bool} {l : List ν} {a} (h : l.find? p = some a) : l.Perm (a :: l.eraseP p) := by
  induction l with
  | nil => cases h
  | cons b l ih =>
    by_cases hb : p b
    · rw [find?_cons_of_pos hb] at h
      cases h
      rw [eraseP_cons_of_pos hb]
    · rw [find?_cons_of_neg hb] at h
      rw [eraseP_cons_of_neg hb]
      exact ((ih h).cons b).trans (.swap ..)

/-- The list has each key once, and lists what is held. -/
structure Enumerates (l : List (κ × ν)) (held : κ → Option ν) : Prop where
  nodup : (l.map Prod.fst).Nodup
  mem_iff : ∀ {k v}, (k, v) ∈ l ↔ held k = some v

variable {l : List (κ × ν)}

theorem Enumerates.perm {l' held} (h : Enumerates l held) (hl : l'.Perm l) : Enumerates l' held where
  nodup := (hl.map Prod.fst).nodup_iff.mpr h.nodup
  mem_iff := hl.mem_iff.trans h.mem_iff

theorem Enumerates.append [DecidableEq κ] {l' held} (hnodup : (l.map Prod.fst).Nodup)
    (hl : ∀ e ∈ l, held e.1 = some e.2)
    (hl' : Enumerates l' fun k => if k ∈ l.map Prod.fst then none else held k) : Enumerates (l ++ l') held where
  nodup := by
    rw [map_append, nodup_append]
    refine ⟨hnodup, hl'.nodup, ?_⟩
    rintro k hk _ hk' rfl
    obtain ⟨⟨_, v⟩, hmem, rfl⟩ := mem_map.mp hk'
    have hv := hl'.mem_iff.mp hmem
    rw [if_pos hk] at hv
    cases hv
  mem_iff {k v} := by
    rw [mem_append, hl'.mem_iff, Option.ite_none_left_eq_some]
    constructor
    · rintro (hmem | ⟨-, hv⟩)
      · exact hl _ hmem
      · exact hv
    · intro hv
      by_cases hk : k ∈ l.map Prod.fst
      · obtain ⟨⟨_, v'⟩, hmem, rfl⟩ := mem_map.mp hk
        obtain rfl : v' = v := Option.some.inj ((hl _ hmem).symm.trans hv)
        exact .inl hmem
      · exact .inr ⟨hk, hv⟩

/-- There are so many keys that meet a condition. -/
def Numbers (p : κ → Prop) (n : Nat) : Prop := ∃ ks : Finset κ, (∀ k, k ∈ ks ↔ p k) ∧ ks.card = n

section Numbers

variable {p q : κ → Prop} {n : Nat} {k : κ}

theorem Numbers.congr (h : Numbers p n) (hpq : ∀ k, q k ↔ p k) : Numbers q n := by
  obtain ⟨ks, hks, hcard⟩ := h
  exact ⟨ks, fun k => (hks k).trans (hpq k).symm, hcard⟩

theorem Numbers.unique {m} (h : Numbers p n) (h' : Numbers p m) : n = m := by
  obtain ⟨ks, hks, rfl⟩ := h
  obtain ⟨ks', hks', rfl⟩ := h'
  have heq : ks = ks' := Finset.ext fun k => (hks k).trans (hks' k).symm
  rw [heq]

theorem Numbers.le {m} (h : Numbers p n) (h' : Numbers q m) (hpq : ∀ k, p k → q k) : n ≤ m := by
  obtain ⟨ks, hks, rfl⟩ := h
  obtain ⟨ks', hks', rfl⟩ := h'
  exact Finset.card_le_card fun k hk => (hks' k).mpr (hpq k ((hks k).mp hk))

theorem numbers_none (h : ∀ k, ¬ p k) : Numbers p 0 :=
  ⟨∅, fun k => ⟨fun hk => absurd hk (Finset.notMem_empty k), fun hk => absurd hk (h k)⟩, rfl⟩

theorem Enumerates.numbers [DecidableEq κ] {held} (h : Enumerates l held) :
    Numbers (fun k => held k ≠ none) l.length := by
  refine ⟨(l.map Prod.fst).toFinset, fun k => ?_, ?_⟩
  · simp only [mem_toFinset, mem_map, Option.ne_none_iff_exists']
    constructor
    · rintro ⟨⟨_, v⟩, hmem, rfl⟩
      exact ⟨v, h.mem_iff.mp hmem⟩
    · rintro ⟨v, hv⟩
      exact ⟨(k, v), h.mem_iff.mpr hv, rfl⟩
  · rw [toFinset_card_of_nodup h.nodup, length_map]

theorem Numbers.insert [DecidableEq κ] (h : Numbers p n) (hk : ¬ p k) : Numbers (fun k' => k' = k ∨ p k') (n + 1) := by
  obtain ⟨ks, hks, rfl⟩ := h
  refine ⟨Insert.insert k ks, fun k' => ?_, Finset.card_insert_of_notMem fun hmem => hk ((hks k).mp hmem)⟩
  rw [Finset.mem_insert, hks]

theorem Numbers.erase [DecidableEq κ] (h : Numbers p n) (hk : p k) :
    ∃ m, n = m + 1 ∧ Numbers (fun k' => k' ≠ k ∧ p k') m := by
  obtain ⟨ks, hks, rfl⟩ := h
  refine ⟨_, (Finset.card_erase_add_one ((hks k).mpr hk)).symm, ks.erase k, fun k' => ?_, rfl⟩
  rw [Finset.mem_erase, hks]

theorem Numbers.drop [DecidableEq κ] {b} (h : Numbers p n) (hb : b = true → p k)
    (hq : ∀ k', q k' ↔ (b = true → k' ≠ k) ∧ p k') : ∃ m, n = m + b.toNat ∧ Numbers q m := by
  cases b with
  | false => exact ⟨n, rfl, h.congr fun k' => (hq k').trans (and_iff_right nofun)⟩
  | true =>
    obtain ⟨m, rfl, hm⟩ := h.erase (hb rfl)
    exact ⟨m, rfl, hm.congr fun k' => (hq k').trans (and_congr_left fun _ => forall_prop_of_true rfl)⟩

end Numbers

/-- An order in which a map is ranged over. -/
structure RangeOrder (κ ν : Type) where
  order : List (κ × ν) → List (κ × ν)
  perm : ∀ l, (order l).Perm l

/-- As the entries stand. -/
def RangeOrder.same : RangeOrder κ ν := ⟨id, fun _ => .refl _⟩

section Map

variable [DecidableEq κ] {m : AList fun _ : κ => ν} {k k' : κ} {v : ν}

section

variable (m : AList fun _ : κ => ν)

theorem enumerates_pairs : Enumerates (pairs m) fun k => m.lookup k where
  nodup := by
    have hkeys : (pairs m).map Prod.fst = m.keys := by simp [pairs, AList.keys, List.keys, comp_def]
    rw [hkeys]
    exact m.keys_nodup
  mem_iff {k v} := by
    rw [← Option.mem_def, AList.mem_lookup_iff]
    simp only [pairs, mem_map]
    constructor
    · rintro ⟨⟨k', v'⟩, hmem, heq⟩
      cases heq
      exact hmem
    · exact fun hmem => ⟨_, hmem, rfl⟩

theorem lookup_insert_eq_update (k : κ) (v : ν) :
    (fun k' => (m.insert k v).lookup k') = update (fun k' => m.lookup k') k (some v) := by
  funext k'
  by_cases hk : k' = k
  · subst hk
    simp
  · simp [hk, AList.lookup_insert_ne hk]

theorem lookup_erase_eq_update (k : κ) :
    (fun k' => (m.erase k).lookup k') = update (fun k' => m.lookup k') k none := by
  funext k'
  by_cases hk : k' = k
  · subst hk
    simp
  · simp [hk, AList.lookup_erase_ne hk]

theorem lookup_foldl_erase (ks : List κ) (k : κ) :
    (ks.foldl (fun m k => m.erase k) m).lookup k = if k ∈ ks then none else m.lookup k := by
  induction ks generalizing m with
  | nil => simp
  | cons k' ks ih =>
    rw [foldl_cons, ih]
    by_cases hk : k = k'
    · subst hk
      simp
    · simp [hk, AList.lookup_erase_ne hk]

end

theorem length_entries_insert (h : k ∉ m) : (m.insert k v).entries.length = m.entries.length + 1 := by
  rw [AList.entries_insert_of_notMem h, length_cons]

theorem length_entries_erase (h : k ∈ m) : (m.erase k).entries.length = m.entries.length - 1 := by
  have hlength : ∀ m : AList fun _ : κ => ν, m.entries.length = m.keys.length := fun m => by
    simp [AList.keys, List.keys]
  rw [hlength, hlength, AList.keys_erase, length_erase_of_mem (AList.mem_keys.mp h)]

theorem pairs_insert : pairs (m.insert k v) = (k, v) :: pairs (m.erase k) := by
  rw [pairs, AList.entries_insert]
  rfl

theorem pairs_erase_sublist : (pairs (m.erase k)).Sublist (pairs m) :=
  (kerase_sublist k m.entries).map _

end Map

/-! ## What a store holds -/

/-- The items that a store holds, and the keys that it refuses although it holds nothing under them. -/
@[ext] structure Holdings (κ ν : Type) where
  held : κ → Option ν
  blocked : Set κ

variable {ks : List κ}

namespace Holdings

/-- A store that holds and refuses nothing. -/
def empty : Holdings κ ν := ⟨fun _ => none, ∅⟩

/-- The keys that are refused. -/
def Known (h : Holdings κ ν) (k : κ) : Prop := h.held k ≠ none ∨ k ∈ h.blocked

theorem not_known_empty {k} : ¬ (empty : Holdings κ ν).Known k := by
  simp [Known, empty]

/-- The items that meet a condition are kept. -/
def keep (h : Holdings κ ν) (p : κ → ν → Bool) : Holdings κ ν :=
  { h with held := fun k => (h.held k).filter (p k) }

/-- Of some keys, the items that meet a condition are kept. -/
def keepAt [DecidableEq κ] (h : Holdings κ ν) (ks : List κ) (p : κ → ν → Bool) : Holdings κ ν :=
  { h with held := fun k => if k ∈ ks then (h.held k).filter (p k) else h.held k }

variable [DecidableEq κ] {h : Holdings κ ν} {k k' : κ} {v : ν}

section

variable (h : Holdings κ ν)

/-- An item is stored. -/
def store (k : κ) (v : ν) : Holdings κ ν :=
  { h with held := update h.held k (some v) }

/-- Items are handed out: their keys stay refused. -/
def take (ks : List κ) : Holdings κ ν where
  held k := if k ∈ ks then none else h.held k
  blocked := h.blocked ∪ { k | k ∈ ks }

/-- A key and its item are forgotten. -/
def discard (k : κ) : Holdings κ ν where
  held := update h.held k none
  blocked := h.blocked \ {k}

/-- Keys and their items are forgotten. -/
def discardAll (ks : List κ) : Holdings κ ν where
  held k := if k ∈ ks then none else h.held k
  blocked := h.blocked \ { k | k ∈ ks }

/-- An item is forgotten; if there is none, its key is refused from now on. -/
def bury (k : κ) : Holdings κ ν where
  held := update h.held k none
  blocked := { k' | k' ∈ h.blocked ∨ k' = k ∧ h.held k = none }

/-- Keys are buried one after the other. -/
def buryAll (ks : List κ) : Holdings κ ν := ks.foldl bury h

/-- Items are stored one after the other. -/
def storeAll (l : List (κ × ν)) : Holdings κ ν := l.foldl (fun h e => h.store e.1 e.2) h

end

@[simp] theorem take_nil : h.take [] = h := by
  simp [take]

theorem discard_of_not_known (hk : ¬ h.Known k) : h.discard k = h := by
  simp only [Known, ne_eq, not_or, not_not] at hk
  refine Holdings.ext ?_ (Set.sdiff_singleton_eq_self hk.2)
  rw [discard, ← hk.1, update_eq_self]

@[simp] theorem discardAll_nil : h.discardAll [] = h :=
  Holdings.ext (by simp [discardAll]) (by ext; simp [discardAll])

theorem discardAll_discard (ks : List κ) : (h.discard k).discardAll ks = h.discardAll (k :: ks) := by
  refine Holdings.ext (funext fun k' => ?_) (Set.ext fun k' => ?_)
  · by_cases hk : k' = k
    · subst hk
      simp [discard, discardAll]
    · simp [discard, discardAll, hk]
  · simp [discard, discardAll, and_assoc]

theorem discardAll_eq_keep {p}
    (hks : ∀ k, k ∈ ks ↔ ∃ v, h.held k = some v ∧ p k v = false) (hfree : ∀ k ∈ h.blocked, h.held k = none) :
    h.discardAll ks = h.keep p := by
  refine Holdings.ext (funext fun k => ?_) (Set.ext fun k => ?_)
  · cases hk : h.held k with
    | none => simp [discardAll, keep, hk]
    | some v =>
      have hmem : k ∈ ks ↔ p k v = false := by simp [hks, hk]
      by_cases hp : p k v <;> simp [discardAll, keep, hk, hmem, hp, Option.filter]
  · simp only [discardAll, keep, Set.mem_sdiff, Set.mem_ofPred_eq]
    refine and_iff_left_of_imp fun hblocked hmem => ?_
    obtain ⟨v, hv, -⟩ := (hks k).mp hmem
    rw [hfree k hblocked] at hv
    cases hv

theorem known_store : (h.store k v).Known k' ↔ k' = k ∨ h.Known k' := by
  by_cases hk : k' = k
  · subst hk
    simp [Known, store]
  · simp [Known, store, hk]

theorem known_discard : (h.discard k).Known k' ↔ k' ≠ k ∧ h.Known k' := by
  by_cases hk : k' = k
  · subst hk
    simp [Known, discard]
  · simp [Known, discard, hk]

theorem known_take (hks : ∀ k ∈ ks, h.held k ≠ none) : (h.take ks).Known k' ↔ h.Known k' := by
  by_cases hk : k' ∈ ks
  · simp [Known, take, hk, hks k' hk]
  · simp [Known, take, hk]

theorem held_buryAll (ks : List κ) : (h.buryAll ks).held k = if k ∈ ks then none else h.held k := by
  induction ks generalizing h with
  | nil => simp [buryAll]
  | cons k' ks ih =>
    rw [buryAll, foldl_cons, ← buryAll, ih]
    by_cases hk : k = k'
    · subst hk
      simp [bury]
    · simp [bury, hk]

theorem keepAt_cons (ks : List κ) (p) : (h.keepAt [k] p).keepAt ks p = h.keepAt (k :: ks) p := by
  refine Holdings.ext (funext fun k' => ?_) rfl
  by_cases hk : k' = k
  · subst hk
    cases hv : h.held k' with
    | none => simp [keepAt, hv]
    | some v => by_cases hp : p k' v <;> simp [keepAt, hv, hp, Option.filter]
  · simp [keepAt, hk]

theorem keepAt_eq_keep (hks : ∀ k, h.held k ≠ none → k ∈ ks) (p) : h.keepAt ks p = h.keep p := by
  refine Holdings.ext (funext fun k => ?_) rfl
  by_cases hk : k ∈ ks
  · simp [keepAt, keep, hk]
  · have hnone : h.held k = none := by
      by_contra hheld
      exact hk (hks k hheld)
    simp [keepAt, keep, hk, hnone]

theorem blocked_storeAll (l : List (κ × ν)) : (h.storeAll l).blocked = h.blocked := by
  induction l generalizing h with
  | nil => rfl
  | cons e l ih => exact ih

theorem held_storeAll (hnodup : (l.map Prod.fst).Nodup) :
    (h.storeAll l).held k = some v ↔ (k, v) ∈ l ∨ k ∉ l.map Prod.fst ∧ h.held k = some v := by
  induction l generalizing h with
  | nil => simp [storeAll]
  | cons e l ih =>
    obtain ⟨hnotMem, hnodup⟩ := nodup_cons.mp hnodup
    rw [storeAll, foldl_cons, ← storeAll, ih hnodup]
    by_cases hk : k = e.1
    · subst hk
      have hnone : ∀ v, (e.1, v) ∉ l := fun v hmem => hnotMem (mem_map.mpr ⟨_, hmem, rfl⟩)
      simp [hnone, hnotMem, store, Prod.ext_iff, eq_comm]
    · simp [store, Prod.ext_iff, hk]

/-- **A store that is filled with what another one holds** holds that, and refuses nothing else. -/
theorem storeAll_eq {held} (hl : Enumerates l held) : empty.storeAll l = ⟨held, ∅⟩ := by
  refine Holdings.ext (funext fun k => Option.ext fun v => ?_) (blocked_storeAll l)
  rw [held_storeAll hl.nodup, hl.mem_iff]
  simp [empty]

end Holdings

/-! ## Shelves -/

/-- Items on shelves: an index that says on which shelf the item of a key is, the shelves, and those of them that are
in use. -/
@[ext] structure Shelves (κ ν : Type) where
  index : κ → Option Nat
  shelf : Nat → AList fun _ : κ => ν
  live : List Nat

namespace Shelves

/-- The index and the shelves in use agree. -/
structure Ok (s : Shelves κ ν) : Prop where
  nodup : s.live.Nodup
  mem_iff : ∀ {b k}, b ∈ s.live → (k ∈ s.shelf b ↔ s.index k = some b)

variable {s : Shelves κ ν} {k k' : κ} {v : ν} {b : Nat}

theorem Ok.stored (h : s.Ok) (hk : s.index k = some b) (hlive : b ∈ s.live) : k ∈ s.shelf b := (h.mem_iff hlive).mpr hk

theorem Ok.indexed (h : s.Ok) (hlive : b ∈ s.live) (hk : k ∈ s.shelf b) : s.index k = some b := (h.mem_iff hlive).mp hk

/-- An empty shelf is put into use. -/
def add (s : Shelves κ ν) (b : Nat) : Shelves κ ν where
  index := s.index
  shelf := update s.shelf b ∅
  live := s.live ++ [b]

theorem Ok.add (h : s.Ok) (hb : b ∉ s.live) (hindex : ∀ k, s.index k ≠ some b) : (s.add b).Ok where
  nodup := by
    rw [Shelves.add, nodup_append_comm]
    exact nodup_cons.mpr ⟨hb, h.nodup⟩
  mem_iff {b' k} hlive := by
    by_cases hbb : b' = b
    · subst hbb
      simp [Shelves.add, hindex]
    · simp only [Shelves.add, update_of_ne hbb]
      exact h.mem_iff (by simpa [Shelves.add, hbb] using hlive)

variable {live : List Nat}

theorem Ok.close (h : s.Ok) (hlive : s.live.Perm (b :: live)) : Ok { s with live } := by
  have hsubset : ∀ b' ∈ live, b' ∈ s.live := fun b' hb' => hlive.mem_iff.mpr (mem_cons_of_mem b hb')
  exact ⟨(nodup_cons.mp (hlive.nodup_iff.mp h.nodup)).2, fun hb => h.mem_iff (hsubset _ hb)⟩

variable [DecidableEq κ]

/-- What is on the shelves in use. -/
def held (s : Shelves κ ν) (k : κ) : Option ν :=
  (s.index k).bind fun b => if b ∈ s.live then (s.shelf b).lookup k else none

/-- What the shelves hold and refuse: the keys that the index knows are refused. -/
def holdings (s : Shelves κ ν) : Holdings κ ν where
  held := s.held
  blocked := { k | ∃ b, s.index k = some b ∧ b ∉ s.live }

theorem held_eq_some : s.held k = some v ↔ ∃ b ∈ s.live, s.index k = some b ∧ (s.shelf b).lookup k = some v := by
  simp only [held, Option.bind_eq_some_iff, Option.ite_none_right_eq_some]
  constructor
  · rintro ⟨b, hb, hlive, hv⟩
    exact ⟨b, hlive, hb, hv⟩
  · rintro ⟨b, hlive, hb, hv⟩
    exact ⟨b, hb, hlive, hv⟩

theorem Ok.held_eq_none (h : s.Ok) : s.held k = none ↔ ∀ b ∈ s.live, s.index k ≠ some b := by
  rw [Option.eq_none_iff_forall_ne_some]
  constructor
  · intro hnone b hlive hb
    obtain ⟨v, hv⟩ := Option.isSome_iff_exists.mp (AList.lookup_isSome.mpr (h.stored hb hlive))
    exact hnone v (held_eq_some.mpr ⟨b, hlive, hb, hv⟩)
  · intro hnone v hv
    obtain ⟨b, hlive, hb, -⟩ := held_eq_some.mp hv
    exact hnone b hlive hb

theorem Ok.held_of_mem (h : s.Ok) (hlive : b ∈ s.live) (hk : k ∈ s.shelf b) : s.held k = (s.shelf b).lookup k := by
  rw [held, h.indexed hlive hk, Option.bind_some, if_pos hlive]

theorem Ok.known_iff (h : s.Ok) : s.holdings.Known k ↔ s.index k ≠ none := by
  simp only [Holdings.Known, holdings, ne_eq, h.held_eq_none]
  constructor
  · rintro (hheld | ⟨b, hb, -⟩) hnone
    · exact hheld fun b _ hb => by simp [hnone] at hb
    · rw [hnone] at hb
      cases hb
  · intro hkey
    obtain ⟨b, hb⟩ := Option.ne_none_iff_exists'.mp hkey
    by_cases hlive : b ∈ s.live
    · exact .inl fun hnone => hnone b hlive hb
    · exact .inr ⟨b, hb, hlive⟩

theorem held_eq_none_of_mem_blocked (hk : k ∈ s.holdings.blocked) : s.holdings.held k = none := by
  obtain ⟨b, hb, hnot⟩ := hk
  simp [holdings, held, hb, hnot]

theorem holdings_add (hindex : ∀ k, s.index k ≠ some b) : (s.add b).holdings = s.holdings := by
  refine Holdings.ext (funext fun k => ?_) (Set.ext fun k => ?_)
  · cases hk : s.index k with
    | none => simp [holdings, held, Shelves.add, hk]
    | some b' =>
      have hne : b' ≠ b := fun heq => hindex k (heq ▸ hk)
      simp [holdings, held, Shelves.add, hk, hne]
  · simp only [holdings, Shelves.add, Set.mem_ofPred_eq, mem_append, mem_singleton, not_or]
    refine exists_congr fun b' => and_congr_right fun hb => and_iff_left ?_
    exact fun heq => hindex k (heq ▸ hb)

theorem Ok.holdings_close (h : s.Ok) (hlive : s.live.Perm (b :: live))
    (hks : ∀ k, k ∈ ks ↔ k ∈ s.shelf b) : holdings { s with live } = s.holdings.take ks := by
  have hmem : ∀ b', b' ∈ s.live ↔ b' = b ∨ b' ∈ live := fun b' => by rw [hlive.mem_iff, mem_cons]
  have hnotMem := (nodup_cons.mp (hlive.nodup_iff.mp h.nodup)).1
  have hindexed : ∀ k ∈ s.shelf b, s.index k = some b := fun k => h.indexed ((hmem b).mpr (.inl rfl))
  refine Holdings.ext (funext fun k => ?_) (Set.ext fun k => ?_)
  · simp only [holdings, Holdings.take, hks]
    by_cases hk : k ∈ s.shelf b
    · simp [held, hindexed k hk, hk, hnotMem]
    · rw [if_neg hk]
      cases hindex : s.index k with
      | none => simp [held, hindex]
      | some b' =>
        have hne : b' ≠ b := by
          rintro rfl
          exact hk (h.stored hindex ((hmem b').mpr (.inl rfl)))
        simp [held, hindex, hmem, hne]
  · simp only [holdings, Holdings.take, hks, Set.mem_union, Set.mem_ofPred_eq]
    constructor
    · rintro ⟨b', hb', hnot⟩
      by_cases hbb : b' = b
      · subst hbb
        exact .inr (h.stored hb' ((hmem b').mpr (.inl rfl)))
      · exact .inl ⟨b', hb', fun hlive' => hnot (((hmem b').mp hlive').resolve_left hbb)⟩
    · rintro (⟨b', hb', hnot⟩ | hk)
      · exact ⟨b', hb', fun hlive' => hnot ((hmem b').mpr (.inr hlive'))⟩
      · exact ⟨b, hindexed k hk, hnotMem⟩

theorem Ok.closeEmpty (h : s.Ok) (hsub : live.Sublist s.live)
    (hempty : ∀ b ∈ s.live, b ∉ live → s.shelf b = ∅) : Ok { s with live } ∧ holdings { s with live } = s.holdings := by
  have hindexed : ∀ {k b}, s.index k = some b → (b ∈ live ↔ b ∈ s.live) := fun {k b} hk => by
    refine ⟨fun hb => hsub.subset hb, fun hb => ?_⟩
    by_contra hnot
    have hstored := h.stored hk hb
    rw [hempty b hb hnot] at hstored
    exact AList.notMem_empty k hstored
  refine ⟨⟨hsub.nodup h.nodup, fun hb => h.mem_iff (hsub.subset hb)⟩,
    Holdings.ext (funext fun k => ?_) (Set.ext fun k => ?_)⟩
  · cases hk : s.index k with
    | none => simp [holdings, held, hk]
    | some b => simp [holdings, held, hk, hindexed hk]
  · simp only [holdings, Set.mem_ofPred_eq]
    exact exists_congr fun b => and_congr_right fun hk => not_congr (hindexed hk)

/-- An item is put on a shelf. -/
def put (s : Shelves κ ν) (b : Nat) (k : κ) (v : ν) : Shelves κ ν where
  index := update s.index k (some b)
  shelf := update s.shelf b ((s.shelf b).insert k v)
  live := s.live

theorem Ok.put (h : s.Ok) (hk : s.index k = none) (hb : b ∈ s.live) (v : ν) : (s.put b k v).Ok where
  nodup := h.nodup
  mem_iff {b' k'} hlive := by
    have hmem := h.mem_iff (k := k') hlive
    by_cases hkk : k' = k
    · subst hkk
      by_cases hbb : b' = b
      · simp [Shelves.put, hbb]
      · simp [Shelves.put, hbb, Ne.symm hbb, hmem, hk]
    · by_cases hbb : b' = b
      · subst hbb
        simp [Shelves.put, hkk, hmem]
      · simp [Shelves.put, hkk, hbb, hmem]

theorem holdings_put (hk : s.index k = none) (hb : b ∈ s.live) (v : ν) :
    (s.put b k v).holdings = s.holdings.store k v := by
  refine Holdings.ext (funext fun k' => ?_) (Set.ext fun k' => ?_)
  · by_cases hkk : k' = k
    · subst hkk
      simp [holdings, Holdings.store, held, Shelves.put, hb]
    · simp only [holdings, Holdings.store, held, Shelves.put, update_of_ne hkk]
      congr 1
      funext b'
      by_cases hbb : b' = b
      · subst hbb
        simp [AList.lookup_insert_ne hkk]
      · simp [hbb]
  · by_cases hkk : k' = k
    · subst hkk
      simp [holdings, Holdings.store, Shelves.put, hk, hb]
    · simp [holdings, Holdings.store, Shelves.put, hkk]

/-- A key and its item are removed. -/
def erase (s : Shelves κ ν) (b : Nat) (k : κ) : Shelves κ ν where
  index := update s.index k none
  shelf := update s.shelf b ((s.shelf b).erase k)
  live := s.live

theorem Ok.erase (h : s.Ok) (hk : s.index k = some b) : (s.erase b k).Ok where
  nodup := h.nodup
  mem_iff {b' k'} hlive := by
    have hmem := h.mem_iff (k := k') hlive
    by_cases hbb : b' = b
    · subst hbb
      by_cases hkk : k' = k <;> simp [Shelves.erase, hkk, hmem]
    · have hne : k' = k → s.index k' ≠ some b' := by
        rintro rfl heq
        exact hbb (Option.some.inj (heq.symm.trans hk))
      by_cases hkk : k' = k <;> simp_all [Shelves.erase]

theorem holdings_erase : (s.erase b k).holdings = s.holdings.discard k := by
  refine Holdings.ext (funext fun k' => ?_) (Set.ext fun k' => ?_)
  · by_cases hkk : k' = k
    · subst hkk
      simp [holdings, Holdings.discard, held, Shelves.erase]
    · simp only [holdings, Holdings.discard, held, Shelves.erase, update_of_ne hkk]
      congr 1
      funext b'
      by_cases hbb : b' = b
      · subst hbb
        simp [AList.lookup_erase_ne hkk]
      · simp [hbb]
  · by_cases hkk : k' = k <;> simp [holdings, Holdings.discard, Shelves.erase, hkk]

/-- A key without an item is refused from now on. -/
def bury (s : Shelves κ ν) (b : Nat) (k : κ) : Shelves κ ν := { s with index := update s.index k (some b) }

theorem Ok.bury (h : s.Ok) (hk : s.held k = none) (hb : b ∉ s.live) : (s.bury b k).Ok where
  nodup := h.nodup
  mem_iff {b' k'} hlive := by
    have hmem := h.mem_iff (k := k') hlive
    by_cases hkk : k' = k
    · subst hkk
      have hne : b ≠ b' := fun heq => hb (heq ▸ hlive)
      simp [Shelves.bury, hne, hmem, h.held_eq_none.mp hk b' hlive]
    · simp [Shelves.bury, hkk, hmem]

theorem holdings_bury (hk : s.held k = none) (hb : b ∉ s.live) : (s.bury b k).holdings = s.holdings.bury k := by
  refine Holdings.ext (funext fun k' => ?_) (Set.ext fun k' => ?_)
  · by_cases hkk : k' = k
    · subst hkk
      simp [holdings, Holdings.bury, held, Shelves.bury, hb]
    · simp [holdings, Holdings.bury, held, Shelves.bury, hkk]
  · by_cases hkk : k' = k
    · subst hkk
      simp [holdings, Holdings.bury, Shelves.bury, hb, hk]
    · simp [holdings, Holdings.bury, Shelves.bury, hkk]

theorem discard_eq_bury (hk : s.held k ≠ none) : s.holdings.discard k = s.holdings.bury k := by
  refine Holdings.ext rfl (Set.ext fun k' => ?_)
  simp only [Holdings.discard, Holdings.bury, Set.mem_sdiff, Set.mem_singleton_iff, Set.mem_ofPred_eq]
  constructor
  · exact fun hk' => .inl hk'.1
  · rintro (hk' | ⟨rfl, hnone⟩)
    · refine ⟨hk', ?_⟩
      rintro rfl
      exact hk (held_eq_none_of_mem_blocked hk')
    · exact absurd hnone hk

/-- The index knows the shelves in use, and one more number for the keys that are buried. -/
def Points (s : Shelves κ ν) (t : Nat) : Prop := ∀ k b, s.index k = some b → b = t ∨ b ∈ s.live

theorem Points.update {s' : Shelves κ ν} {t x} (h : s.Points t)
    (hindex : s'.index = update s.index k x) (hlive : s'.live = s.live)
    (hx : ∀ b, x = some b → b = t ∨ b ∈ s.live) : s'.Points t := by
  intro k' b hb
  rw [hindex] at hb
  rw [hlive]
  by_cases hk : k' = k
  · subst hk
    rw [update_self] at hb
    exact hx b hb
  · rw [update_of_ne hk] at hb
    exact h k' b hb

/-- The shelves in use, one after the other. -/
def all (s : Shelves κ ν) (o : RangeOrder κ ν) : List (κ × ν) := s.live.flatMap fun b => o.order (pairs (s.shelf b))

/-- **Going over the shelves in use** gives each item once. -/
theorem Ok.enumerates_all (h : s.Ok) (o : RangeOrder κ ν) : Enumerates (s.all o) s.held where
  nodup := by
    rw [all, map_flatMap, nodup_flatMap]
    refine ⟨fun b _ => ((enumerates_pairs _).perm (o.perm _)).nodup, ?_⟩
    refine Nodup.pairwise_of_forall_ne h.nodup fun b hb b' hb' hne => ?_
    intro k hk hk'
    obtain ⟨⟨_, v⟩, hmem, rfl⟩ := mem_map.mp hk
    obtain ⟨⟨_, v'⟩, hmem', heq⟩ := mem_map.mp hk'
    obtain rfl : _ = _ := heq
    have hv := ((enumerates_pairs _).perm (o.perm _)).mem_iff.mp hmem
    have hv' := ((enumerates_pairs _).perm (o.perm _)).mem_iff.mp hmem'
    have hindex := h.indexed hb (AList.lookup_isSome.mp (Option.isSome_of_mem hv))
    have hindex' := h.indexed hb' (AList.lookup_isSome.mp (Option.isSome_of_mem hv'))
    exact hne (Option.some.inj (hindex.symm.trans hindex'))
  mem_iff {k v} := by
    rw [all, mem_flatMap, held_eq_some]
    refine exists_congr fun b => and_congr_right fun hb => ?_
    rw [((enumerates_pairs _).perm (o.perm _)).mem_iff]
    refine ⟨fun hv => ⟨h.indexed hb (AList.lookup_isSome.mp (Option.isSome_of_mem hv)), hv⟩, And.right⟩

end Shelves

end Arma.Lib
