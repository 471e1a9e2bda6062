import Arma.Assembler.BatchMapper
import Arma.Lib.Heap

/-!
# The heap of prefetched batches

Model of `BatchHeap` (`node/assembler/batch_heap.go`): an array of items, a mapper from a batch to its position, and the
comparator, under the loops of `container/heap` (`Lib/Heap`).

* `Less`, `Swap`, `Push` and `Pop` of the inner `batchHeap` are `lessAt`, `swap`, `pushLast` and `popLast`, and
  `heap.Push`, `heap.Pop` and `heap.Remove` are `heapPush`, `heapPop` and `heapRemove`.
* An index out of range panics, and so does the mapper for a batch of another partition.

**`positions_exact`**: after any calls that `container/heap` may make, the mapper holds exactly the batches of the
array, each with its position (`Indexed`), whatever the comparator is. **`indexed_priority_queue`**: with the
comparator of the prefetch index the order holds after any operations, and each does what it should.
-/

namespace Arma

open Arma.Lib Outcome List BatchMapper

structure BatchHeapItem (T : Type) where
  batch : FabricBatch
  value : T

/-- `batchHeap`. -/
structure BatchHeap (T : Type) where
  data : Array (BatchHeapItem T)
  batchToIndex : BatchMapper Nat
  less : BatchHeapItem T → BatchHeapItem T → Bool

/-- The comparator that `NewPartitionPrefetchIndex` gives to its heap. -/
def seqLess {T : Type} (item1 item2 : BatchHeapItem T) : Bool := item1.batch.seq < item2.batch.seq

namespace BatchHeap

variable {T : Type}

/-- `NewBatchHeap`. -/
def new (partition : ShardPrimary) (less : BatchHeapItem T → BatchHeapItem T → Bool) : BatchHeap T :=
  ⟨#[], .new Nat partition, less⟩

def itemAt (data : Array (BatchHeapItem T)) (i : Nat) : Outcome (BatchHeapItem T) := index data.toList i

section Operations

variable (h : BatchHeap T)

def lessAt (i j : Nat) : Outcome Bool := do
  let item1 ← itemAt h.data i
  let item2 ← itemAt h.data j
  return h.less item1 item2

def swap (i j : Nat) : Outcome (BatchHeap T) := do
  let _ ← itemAt h.data i
  let _ ← itemAt h.data j
  let data := h.data.swapIfInBounds i j
  let item ← itemAt data i
  let batchToIndex ← h.batchToIndex.put item.batch.batchID i
  let item ← itemAt data j
  let batchToIndex ← batchToIndex.put item.batch.batchID j
  return { h with data, batchToIndex }

def pushLast (item : BatchHeapItem T) : Outcome (BatchHeap T) := do
  let batchToIndex ← h.batchToIndex.put item.batch.batchID h.data.size
  return { h with data := h.data.push item, batchToIndex }

def popLast : Outcome (BatchHeap T × BatchHeapItem T) := do
  let lastItem ← itemAt h.data (h.data.size - 1)
  let (batchToIndex, _) ← h.batchToIndex.remove lastItem.batch.batchID
  return ({ h with data := h.data.pop, batchToIndex }, lastItem)

def heapPush (item : BatchHeapItem T) : Outcome (BatchHeap T) := do
  let h ← h.pushLast item
  up lessAt swap h (h.data.size - 1)

def heapPop : Outcome (BatchHeap T × BatchHeapItem T) := do
  let n := h.data.size - 1
  let h ← h.swap 0 n
  let (h, _) ← down lessAt swap h 0 n
  h.popLast

def heapRemove (i : Nat) : Outcome (BatchHeap T × BatchHeapItem T) := do
  let n := h.data.size - 1
  if n = i then h.popLast
  else
    let h ← h.swap i n
    let (h, moved) ← down lessAt swap h i n
    let h ← if moved then pure h else up lessAt swap h i
    h.popLast

def has (batchId : BatchIDKey) : Outcome Bool := h.batchToIndex.has batchId

def push (item : BatchHeapItem T) : Outcome (BatchHeap T × Except IndexErr Unit) := do
  if ← h.has item.batch.batchID then return (h, .error .batchAlreadyExists)
  let h ← h.heapPush item
  return (h, .ok ())

def pop : Outcome (BatchHeap T × Option (BatchHeapItem T)) :=
  if h.data.isEmpty then return (h, none)
  else do
    let (h, item) ← h.heapPop
    return (h, some item)

def remove (batchId : BatchIDKey) : Outcome (BatchHeap T × Except IndexErr (BatchHeapItem T)) := do
  match ← h.batchToIndex.get batchId with
  | .error _ => return (h, .error .batchDoesNotExist)
  | .ok idx =>
    if h.data.size ≤ idx then
      let (batchToIndex, _) ← h.batchToIndex.remove batchId
      return ({ h with batchToIndex }, .error .batchDoesNotExist)
    else
      let (h, item) ← h.heapRemove idx
      return (h, .ok item)

end Operations

/-! ## The mapper and the array -/

/-- **The mapper holds the batches of the array, each with its position.** -/
structure Indexed (p : ShardPrimary) (h : BatchHeap T) : Prop where
  partition_eq : h.batchToIndex.partition = p
  distinct : h.batchToIndex.Distinct
  of_partition : ∀ {i : Nat} {x : BatchHeapItem T}, h.data[i]? = some x → x.batch.batchID.partition = p
  lookup_iff : ∀ {id} {i : Nat}, id.partition = p →
    (h.batchToIndex.lookup id = some i ↔ ∃ x, h.data[i]? = some x ∧ x.batch.batchID = id)

variable {p : ShardPrimary} {h : BatchHeap T} {i j : Nat} {x : BatchHeapItem T}

theorem Indexed.new (less : BatchHeapItem T → BatchHeapItem T → Bool) : (BatchHeap.new p less).Indexed p := by
  refine ⟨rfl, fun seq => nodup_nil, fun {i x} hi => ?_, fun {id i} _ => ?_⟩
  · simp [BatchHeap.new] at hi
  · simp [BatchHeap.new, BatchMapper.new, BatchMapper.lookup, BatchMapper.valueAt]

theorem Indexed.lookup_eq (hx : h.Indexed p) (hi : h.data[i]? = some x) :
    h.batchToIndex.lookup x.batch.batchID = some i :=
  (hx.lookup_iff (hx.of_partition hi)).mpr ⟨x, hi, rfl⟩

theorem Indexed.eq_of_batchID (hx : h.Indexed p) {y : BatchHeapItem T} (hmem : x ∈ h.data) (hmem' : y ∈ h.data)
    (heq : x.batch.batchID = y.batch.batchID) : x = y := by
  obtain ⟨i, hi⟩ := Array.mem_iff_getElem?.mp hmem
  obtain ⟨j, hj⟩ := Array.mem_iff_getElem?.mp hmem'
  have hpos := hx.lookup_eq hi
  rw [heq, hx.lookup_eq hj] at hpos
  cases hpos
  exact Option.some.inj (hi.symm.trans hj)

theorem itemAt_eq {data} (hi : data[i]? = some x) : itemAt data i = .ok x := by
  simpa [itemAt] using hi

theorem getElem?_swap {l : Array α} (hi : i < l.size) (hj : j < l.size) (k : Nat) :
    (l.swapIfInBounds i j)[k]? = l[Equiv.swap i j k]? := by
  rw [Array.swapIfInBounds_def, dif_pos hi, dif_pos hj, Array.getElem?_swap, Equiv.swap_apply_def]
  grind

section

variable (hx : h.Indexed p)
include hx

/-- **A swap exchanges two items**, and their positions in the mapper. -/
theorem Indexed.swap (hi : i < h.data.size) (hj : j < h.data.size) :
    ∃ h', h.swap i j = .ok h' ∧ h'.data = h.data.swapIfInBounds i j ∧ h'.less = h.less ∧ h'.Indexed p := by
  obtain ⟨x, hxi⟩ : ∃ x, h.data[i]? = some x := ⟨_, Array.getElem?_eq_getElem hi⟩
  obtain ⟨y, hyj⟩ : ∃ y, h.data[j]? = some y := ⟨_, Array.getElem?_eq_getElem hj⟩
  have hyi : (h.data.swapIfInBounds i j)[i]? = some y := by rw [getElem?_swap hi hj, Equiv.swap_apply_left, hyj]
  have hxj : (h.data.swapIfInBounds i j)[j]? = some x := by rw [getElem?_swap hi hj, Equiv.swap_apply_right, hxi]
  obtain ⟨m, hm, hput⟩ := put_spec hx.distinct ((hx.of_partition hyj).trans hx.partition_eq.symm) i
  have hpx : x.batch.batchID.partition = m.partition := by rw [hput.partition_eq, hx.partition_eq, hx.of_partition hxi]
  obtain ⟨m', hm', hput'⟩ := put_spec hput.distinct hpx j
  refine ⟨⟨h.data.swapIfInBounds i j, m', h.less⟩, ?_, rfl, rfl, ?_⟩
  · simp only [BatchHeap.swap, itemAt_eq hxi, itemAt_eq hyj, itemAt_eq hyi, itemAt_eq hxj, hm, hm', ok_bind]
    rfl
  · have hpartition : m'.partition = p := by rw [hput'.partition_eq, hput.partition_eq, hx.partition_eq]
    refine ⟨hpartition, hput'.distinct, fun {k z} hz => ?_, fun {id k} hid => ?_⟩
    · rw [getElem?_swap hi hj] at hz
      exact hx.of_partition hz
    -- a position moves as the items do
    rw [hput'.lookup_eq (by rw [hput.partition_eq, hx.partition_eq, hid]),
      hput.lookup_eq (by rw [hx.partition_eq, hid]), getElem?_swap hi hj, ← hx.lookup_iff hid, Equiv.swap_apply_def]
    have hati := hx.lookup_iff (i := i) hid
    have hatj := hx.lookup_iff (i := j) hid
    grind

theorem Indexed.pushLast (hp : x.batch.batchID.partition = p)
    (hfresh : h.batchToIndex.lookup x.batch.batchID = none) :
    ∃ h', h.pushLast x = .ok h' ∧ h'.data = h.data.push x ∧ h'.less = h.less ∧ h'.Indexed p := by
  obtain ⟨m, hm, hput⟩ := put_spec hx.distinct (hp.trans hx.partition_eq.symm) h.data.size
  refine ⟨⟨h.data.push x, m, h.less⟩, by rw [BatchHeap.pushLast, hm]; rfl, rfl, rfl,
    hput.partition_eq.trans hx.partition_eq, hput.distinct, fun {k z} hz => ?_, fun {id k} hid => ?_⟩
  · rw [Array.getElem?_push] at hz
    split at hz
    · exact Option.some.inj hz ▸ hp
    · exact hx.of_partition hz
  · rw [hput.lookup_eq (hid.trans hx.partition_eq.symm), Array.getElem?_push]
    have hold := hx.lookup_iff (i := k) hid
    grind

theorem Indexed.popLast (hlast : h.data[h.data.size - 1]? = some x) :
    ∃ h', h.popLast = .ok (h', x) ∧ h.data = h'.data.push x ∧ h'.less = h.less ∧ h'.Indexed p := by
  obtain ⟨m, r, hm, hrem⟩ := remove_spec hx.distinct ((hx.of_partition hlast).trans hx.partition_eq.symm)
  refine ⟨⟨h.data.pop, m, h.less⟩, ?_, by grind, rfl, hrem.partition_eq.trans hx.partition_eq, hrem.distinct,
    fun {k z} hz => ?_, fun {id k} hid => ?_⟩
  · simp only [BatchHeap.popLast, itemAt_eq hlast, hm, ok_bind]
    rfl
  · rw [Array.getElem?_pop] at hz
    split at hz
    · exact hx.of_partition hz
    · cases hz
  · rw [hrem.lookup_eq (hid.trans hx.partition_eq.symm), Array.getElem?_pop]
    have hold := hx.lookup_iff (i := k) hid
    have hat := hx.lookup_eq hlast
    grind

theorem Indexed.popLast_of_ne (hne : h.data.size ≠ 0) :
    ∃ h' x, h.popLast = .ok (h', x) ∧ h.data = h'.data.push x ∧ h'.less = h.less ∧ h'.Indexed p := by
  obtain ⟨x, hlast⟩ : ∃ x, h.data[h.data.size - 1]? = some x := ⟨_, Array.getElem?_eq_getElem (by omega)⟩
  obtain ⟨h', hpop⟩ := hx.popLast hlast
  exact ⟨h', x, hpop⟩

theorem Indexed.has {id} (hid : id.partition = p) : ∃ b, h.has id = .ok b ∧
      (b = true ↔ ∃ (i : Nat) (x : BatchHeapItem T), h.data[i]? = some x ∧ x.batch.batchID = id) := by
  refine ⟨_, has_eq (hid.trans hx.partition_eq.symm), ?_⟩
  rw [Option.isSome_iff_exists]
  exact exists_congr fun i => hx.lookup_iff hid

theorem Indexed.lookup_eq_none {id} (hid : id.partition = p) (hhas : h.has id = .ok false) :
    h.batchToIndex.lookup id = none := by
  have heq := (has_eq (hid.trans hx.partition_eq.symm)).symm.trans hhas
  simpa using heq

end

/-- **The heaps that calls make** from a new one: a swap of two positions, a batch of the partition that is not in the
heap added at the end, the last item taken off. -/
inductive Called (p : ShardPrimary) : BatchHeap T → Prop
  | new {less} : Called p (.new p less)
  | swap {h i j h'} : Called p h → i < h.data.size → j < h.data.size → h.swap i j = .ok h' → Called p h'
  | push {h x h'} : Called p h → x.batch.batchID.partition = p → h.has x.batch.batchID = .ok false →
      h.pushLast x = .ok h' → Called p h'
  | pop {h h' x} : Called p h → h.data.size ≠ 0 → h.popLast = .ok (h', x) → Called p h'

theorem Called.indexed (hc : Called p h) : h.Indexed p := by
  induction hc with
  | new => exact .new _
  | swap _ hi hj hswap ih =>
    obtain ⟨h', hswap', -, -, hx'⟩ := ih.swap hi hj
    cases hswap'.symm.trans hswap
    exact hx'
  | push _ hp hhas hpush ih =>
    obtain ⟨h', hpush', -, -, hx'⟩ := ih.pushLast hp (ih.lookup_eq_none hp hhas)
    cases hpush'.symm.trans hpush
    exact hx'
  | pop _ hne hpop ih =>
    obtain ⟨h', x, hpop', -, -, hx'⟩ := ih.popLast_of_ne hne
    cases hpop'.symm.trans hpop
    exact hx'

/-- **Positions are exact between any two calls**, and no call fails: a swap exchanges two items, a new batch comes to
the end, and the last item is taken off, each with its entry in the mapper. -/
theorem positions_exact (hc : Called p h) : h.Indexed p ∧
    (∀ i j, i < h.data.size → j < h.data.size → ∃ h', h.swap i j = .ok h' ∧ h'.data = h.data.swapIfInBounds i j) ∧
    (∀ x, x.batch.batchID.partition = p → h.has x.batch.batchID = .ok false →
      ∃ h', h.pushLast x = .ok h' ∧ h'.data = h.data.push x) ∧
    (h.data.size ≠ 0 → ∃ h' x, h.popLast = .ok (h', x) ∧ h.data = h'.data.push x) ∧
    ∀ id, id.partition = p → ∃ b, h.has id = .ok b ∧
      (b = true ↔ ∃ (i : Nat) (x : BatchHeapItem T), h.data[i]? = some x ∧ x.batch.batchID = id) := by
  have hx := hc.indexed
  refine ⟨hx, fun i j hi hj => ?_, fun x hp hhas => ?_, fun hne => ?_, fun id hid => hx.has hid⟩
  · obtain ⟨h', hswap, hdata, -⟩ := hx.swap hi hj
    exact ⟨h', hswap, hdata⟩
  · obtain ⟨h', hpush, hdata, -⟩ := hx.pushLast hp (hx.lookup_eq_none hp hhas)
    exact ⟨h', hpush, hdata⟩
  · obtain ⟨h', x, hpop, hdata, -⟩ := hx.popLast_of_ne hne
    exact ⟨h', x, hpop, hdata⟩

def heldItem (seq : BatchSequence) : BatchHeapItem Unit := ⟨newFabricBatchFromRequests 1 1 seq [[7]] [7] 0 [] [], ()⟩

theorem partition_heldItem (seq : BatchSequence) : (heldItem seq).batch.batchID.partition = ⟨1, 1⟩ := rfl

/-- Two batches are added and exchanged, and the last is taken off. -/
theorem positions_exact_pushed : ∃ h₁ h₂ h₃ h, (new ⟨1, 1⟩ seqLess).pushLast (heldItem 2) = .ok h₁ ∧
    h₁.pushLast (heldItem 1) = .ok h₂ ∧ h₂.swap 0 1 = .ok h₃ ∧ h₃.popLast = .ok (h, heldItem 2) ∧ h.Indexed ⟨1, 1⟩ ∧
    h.has (heldItem 1).batch.batchID = .ok true ∧ h.has (heldItem 2).batch.batchID = .ok false := by
  have h₁ := Called.push (@Called.new _ _ seqLess) (partition_heldItem 2) rfl rfl
  have h₂ := h₁.push (partition_heldItem 1) rfl rfl
  have h₃ := h₂.swap Nat.zero_lt_two Nat.one_lt_two rfl
  have h₄ := h₃.pop (Nat.succ_ne_zero 1) rfl
  exact ⟨_, _, _, _, rfl, rfl, rfl, rfl, (positions_exact h₄).1, rfl, rfl⟩

/-! ## The order -/

/-- The sequence at a position. -/
def key (h : BatchHeap T) (k : Nat) : Nat := (h.data[k]?.map (·.batch.seq)).getD 0

theorem key_eq (hi : h.data[i]? = some x) : h.key i = x.batch.seq := by rw [key, hi]; rfl

/-- **The heap between two operations.** -/
structure Queue (p : ShardPrimary) (h : BatchHeap T) : Prop where
  indexed : h.Indexed p
  less_eq : h.less = seqLess
  ordered : HeapOrdered h.key h.data.size

/-- The items of `h₀` are in another order, but from position `n` on as they were. -/
structure Rearranged (p : ShardPrimary) (h₀ : BatchHeap T) (n : Nat) (h : BatchHeap T) : Prop where
  indexed : h.Indexed p
  less_eq : h.less = seqLess
  perm : h.data.toList.Perm h₀.data.toList
  above : ∀ k, n ≤ k → h.data[k]? = h₀.data[k]?

variable {h₀ : BatchHeap T} {n : Nat}

theorem Rearranged.size_eq (hr : Rearranged p h₀ n h) : h.data.size = h₀.data.size := by
  simpa using hr.perm.length_eq

theorem Rearranged.swap (hr : Rearranged p h₀ n h) (hi : i < h₀.data.size) (hj : j < h₀.data.size) :
    ∃ h', h.swap i j = .ok h' ∧ h'.Indexed p ∧ h'.less = seqLess ∧ h'.data.toList.Perm h₀.data.toList ∧
      ∀ k, h'.data[k]? = h.data[Equiv.swap i j k]? := by
  rw [← hr.size_eq] at hi hj
  obtain ⟨h', hswap, hdata, hless, hx'⟩ := hr.indexed.swap hi hj
  refine ⟨h', hswap, hx', hless.trans hr.less_eq, ?_, fun k => by rw [hdata, getElem?_swap hi hj]⟩
  rw [hdata, Array.swapIfInBounds_def, dif_pos hi, dif_pos hj]
  exact (Array.perm_iff_toList_perm.mp (Array.swap_perm hi hj)).trans hr.perm

/-- The loops of `container/heap` may be run on the heap. -/
theorem sifts (p : ShardPrimary) (h₀ : BatchHeap T) (hn : n ≤ h₀.data.size) :
    Sifts lessAt swap n (Rearranged p h₀ n) (key (T := T)) where
  less_eq {h i j} hr hi hj := by
    obtain ⟨x, hxi⟩ : ∃ x, h.data[i]? = some x := ⟨_, Array.getElem?_eq_getElem (by rw [hr.size_eq]; omega)⟩
    obtain ⟨y, hyj⟩ : ∃ y, h.data[j]? = some y := ⟨_, Array.getElem?_eq_getElem (by rw [hr.size_eq]; omega)⟩
    rw [lessAt, itemAt_eq hxi, ok_bind, itemAt_eq hyj, key_eq hxi, key_eq hyj, hr.less_eq]
    rfl
  swap_eq {h i j} hr hi hj := by
    obtain ⟨h', hswap, hx', hless, hperm, hat⟩ := hr.swap (i := i) (j := j) (by omega) (by omega)
    refine ⟨h', hswap, ⟨hx', hless, hperm, fun k hk => ?_⟩, funext fun k => by simp [key, hat]⟩
    rw [hat, Equiv.swap_apply_of_ne_of_ne (by omega) (by omega), hr.above k hk]

theorem Queue.rearranged (hq : h.Queue p) : Rearranged p h n h := ⟨hq.indexed, hq.less_eq, .refl _, fun _ _ => rfl⟩

theorem Queue.heapPush (hq : h.Queue p) (hp : x.batch.batchID.partition = p)
    (hfresh : h.batchToIndex.lookup x.batch.batchID = none) :
    ∃ h', h.heapPush x = .ok h' ∧ h'.Queue p ∧ h'.data.toList.Perm (x :: h.data.toList) := by
  obtain ⟨h₁, hpush, hdata, hless, hx⟩ := hq.indexed.pushLast hp hfresh
  have hsize : h₁.data.size = h.data.size + 1 := by rw [hdata, Array.size_push]
  have hkey : ∀ k < h.data.size, h₁.key k = h.key k := fun k hk => by
    rw [key, hdata, Array.getElem?_push, if_neg hk.ne, key]
  obtain ⟨hbut, hbelow⟩ := hq.ordered.push hkey
  rw [← hsize] at hbut hbelow
  obtain ⟨h', hup, hr, hordered⟩ := (sifts p h₁ (Nat.le_refl _)).up_spec
    ⟨hx, hless.trans hq.less_eq, .refl _, fun _ _ => rfl⟩ (by omega) hbut hbelow
  refine ⟨h', ?_, ⟨hr.indexed, hr.less_eq, hr.size_eq ▸ hordered⟩, ?_⟩
  · rw [BatchHeap.heapPush, hpush, ok_bind, hsize, Nat.add_sub_cancel, hup]
  · have hperm := hr.perm
    rw [hdata, Array.toList_push] at hperm
    exact hperm.trans (perm_append_singleton ..)

/-- The last item is taken off a heap that was sifted before it. -/
theorem Rearranged.popLast (hr : Rearranged p h₀ n h) (hn : n + 1 = h₀.data.size) (hlast : h₀.data[n]? = some x)
    (hordered : HeapOrdered h.key n) :
    ∃ h', h.popLast = .ok (h', x) ∧ h'.Queue p ∧ h₀.data.toList.Perm (x :: h'.data.toList) := by
  have hsize : h.data.size - 1 = n := by rw [hr.size_eq]; omega
  obtain ⟨h', hpop, hdata, hless, hx'⟩ := hr.indexed.popLast (by rw [hsize, hr.above n (Nat.le_refl n), hlast])
  refine ⟨h', hpop, ⟨hx', hless.trans hr.less_eq, ?_⟩, hr.perm.symm.trans ?_⟩
  · rw [hdata, Array.size_push, Nat.add_sub_cancel] at hsize
    rw [hsize]
    refine hordered.mono (Nat.le_refl n) fun k hk => ?_
    rw [key, key, hdata, Array.getElem?_push, if_neg (by omega)]
  · rw [hdata, Array.toList_push]
    exact perm_append_singleton ..

/-- `heap.Pop` and `heap.Remove` exchange the item with the last one, and move what has come to its place. -/
theorem Queue.swap_last (hq : h.Queue p) (hn : n + 1 = h.data.size) (hxi : h.data[i]? = some x) :
    ∃ h₁ h₂ moved, h.swap i n = .ok h₁ ∧ down lessAt BatchHeap.swap h₁ i n = .ok (h₂, moved) ∧
      Rearranged p h₁ n h₂ ∧ h₁.data.toList.Perm h.data.toList ∧ h₁.data[n]? = some x ∧
      (moved = false ∧ OrderedBut h₂.key n i ∧ OrderedBelow h₂.key n i ∨ moved = true ∧ HeapOrdered h₂.key n) := by
  have hi : i < h.data.size := (Array.getElem?_eq_some_iff.mp hxi).1
  obtain ⟨h₁, hswap, hx₁, hless, hperm, hat⟩ := (hq.rearranged (n := n)).swap hi (show n < h.data.size by omega)
  have hbut : OrderedBut h₁.key n i := hq.ordered.but (by omega) fun k hk hne => by
    rw [key, hat, Equiv.swap_apply_of_ne_of_ne hne (by omega), key]
  have hsize := hperm.length_eq
  obtain ⟨h₂, moved, hdown, hr, hend⟩ := (sifts p h₁ (by simp at hsize; omega)).down_spec
    ⟨hx₁, hless, .refl _, fun _ _ => rfl⟩ hbut
  refine ⟨h₁, h₂, moved, hswap, hdown, hr, hperm, by rw [hat, Equiv.swap_apply_right, hxi], hend.imp_left ?_⟩
  rintro ⟨hmoved, rfl, hbelow⟩
  exact ⟨hmoved, hbut, hbelow⟩

theorem Queue.heapPop (hq : h.Queue p) (hx : h.data[0]? = some x) :
    ∃ h', h.heapPop = .ok (h', x) ∧ h'.Queue p ∧ h.data.toList.Perm (x :: h'.data.toList) := by
  obtain ⟨n, hn⟩ : ∃ n, n + 1 = h.data.size :=
    ⟨h.data.size - 1, by have := (Array.getElem?_eq_some_iff.mp hx).1; omega⟩
  obtain ⟨h₁, h₂, moved, hswap, hdown, hr, hperm, hlast, hend⟩ := hq.swap_last hn hx
  have hordered : HeapOrdered h₂.key n := by
    rcases hend with ⟨-, hbut, hbelow⟩ | ⟨-, hordered⟩
    · exact hbut.ordered hbelow (by omega)
    · exact hordered
  obtain ⟨h₃, hpop, hq₃, hperm₃⟩ := hr.popLast (hn.trans (by simpa using hperm.length_eq.symm)) hlast hordered
  refine ⟨h₃, ?_, hq₃, hperm.symm.trans hperm₃⟩
  simp only [BatchHeap.heapPop, ← hn, Nat.add_sub_cancel, hswap, hdown, hpop, ok_bind]

theorem Queue.heapRemove (hq : h.Queue p) (hxi : h.data[i]? = some x) :
    ∃ h', h.heapRemove i = .ok (h', x) ∧ h'.Queue p ∧ h.data.toList.Perm (x :: h'.data.toList) := by
  have hi := (Array.getElem?_eq_some_iff.mp hxi).1
  obtain ⟨n, hn⟩ : ∃ n, n + 1 = h.data.size := ⟨h.data.size - 1, by omega⟩
  by_cases hni : n = i
  · subst hni
    have hpop := hq.rearranged.popLast hn hxi (hq.ordered.mono (by omega) fun _ _ => rfl)
    simpa only [BatchHeap.heapRemove, ← hn, Nat.add_sub_cancel, if_true] using hpop
  obtain ⟨h₁, h₂, moved, hswap, hdown, hr, hperm, hlast, hend⟩ := hq.swap_last hn hxi
  have hsize : n + 1 = h₁.data.size := hn.trans (by simpa using hperm.length_eq.symm)
  -- an item that has not moved down may have to move up
  obtain ⟨h₃, hup, hr₃, hordered⟩ : ∃ h₃, (if moved then pure h₂ else up lessAt BatchHeap.swap h₂ i) = .ok h₃ ∧
      Rearranged p h₁ n h₃ ∧ HeapOrdered h₃.key n := by
    rcases hend with ⟨rfl, hbut, hbelow⟩ | ⟨rfl, hordered⟩
    · exact (sifts p h₁ (by omega)).up_spec hr (by omega) hbut hbelow
    · exact ⟨h₂, rfl, hr, hordered⟩
  obtain ⟨h₄, hpop, hq₄, hperm₄⟩ := hr₃.popLast hsize hlast hordered
  refine ⟨h₄, ?_, hq₄, hperm.symm.trans hperm₄⟩
  simp only [BatchHeap.heapRemove, ← hn, Nat.add_sub_cancel, if_neg hni, hswap, hdown, ok_bind]
  cases moved with
  | false =>
    rw [if_neg Bool.false_ne_true] at hup ⊢
    rw [hup, ok_bind, hpop]
  | true =>
    obtain rfl : h₂ = h₃ := Except.ok.inj hup
    exact hpop

/-! ## The operations -/

theorem Queue.new (p : ShardPrimary) : (BatchHeap.new (T := T) p seqLess).Queue p := ⟨.new _, rfl, nofun⟩

/-- `Has` says whether the batch is in the heap. -/
def Finds (h : BatchHeap T) (id : BatchIDKey) : Prop :=
  ∃ b, h.has id = .ok b ∧ (b = true ↔ ∃ x ∈ h.data, x.batch.batchID = id)

section

variable (p : ShardPrimary) (h : BatchHeap T)
include h

/-- `Push` refuses a batch that is in the heap, and adds any other. -/
def Adds (x : BatchHeapItem T) : Prop :=
  (∃ y ∈ h.data, y.batch.batchID = x.batch.batchID) ∧ h.push x = .ok (h, .error .batchAlreadyExists) ∨
  (∀ y ∈ h.data, y.batch.batchID ≠ x.batch.batchID) ∧ ∃ h', h.push x = .ok (h', .ok ()) ∧ h'.Queue p ∧
    h'.data.toList.Perm (x :: h.data.toList)

/-- `Pop` takes out an item of the least sequence, unless the heap is empty. -/
def TakesLeast : Prop :=
  h.data = #[] ∧ h.pop = .ok (h, none) ∨
  ∃ h' x, h.pop = .ok (h', some x) ∧ h'.Queue p ∧ h.data.toList.Perm (x :: h'.data.toList) ∧
    ∀ y ∈ h.data, x.batch.seq ≤ y.batch.seq

/-- `Remove` takes out the item of the batch that is asked for, unless it is not in the heap. -/
def TakesOut (id : BatchIDKey) : Prop :=
  (∀ x ∈ h.data, x.batch.batchID ≠ id) ∧ h.remove id = .ok (h, .error .batchDoesNotExist) ∨
  ∃ h' x, h.remove id = .ok (h', .ok x) ∧ h'.Queue p ∧ h.data.toList.Perm (x :: h'.data.toList) ∧ x.batch.batchID = id

end

theorem Queue.finds (hq : h.Queue p) {id} (hid : id.partition = p) : h.Finds id := by
  obtain ⟨b, hhas, hb⟩ := hq.indexed.has hid
  refine ⟨b, hhas, hb.trans ?_⟩
  simp only [Array.mem_iff_getElem?]
  grind

theorem Queue.adds (hq : h.Queue p) (hp : x.batch.batchID.partition = p) : h.Adds p x := by
  obtain ⟨b, hhas, hb⟩ := hq.finds hp
  cases b with
  | true => exact .inl ⟨hb.mp rfl, by rw [BatchHeap.push, hhas]; rfl⟩
  | false =>
    obtain ⟨h', hpush, hspec⟩ := hq.heapPush hp (hq.indexed.lookup_eq_none hp hhas)
    refine .inr ⟨fun y hy heq => Bool.false_ne_true (hb.mpr ⟨y, hy, heq⟩), h', ?_, hspec⟩
    rw [BatchHeap.push, hhas, ok_bind, if_neg Bool.false_ne_true, hpush]
    rfl

theorem Queue.takesLeast (hq : h.Queue p) : h.TakesLeast p := by
  by_cases hempty : h.data = #[]
  · exact .inl ⟨hempty, by simp [BatchHeap.pop, hempty]⟩
  obtain ⟨x, hx⟩ : ∃ x, h.data[0]? = some x := ⟨_, Array.getElem?_eq_getElem (Array.size_pos_iff.mpr hempty)⟩
  obtain ⟨h', hpop, hq', hperm⟩ := hq.heapPop hx
  refine .inr ⟨h', x, ?_, hq', hperm, fun y hy => ?_⟩
  · simp only [BatchHeap.pop, Array.isEmpty_iff, hempty, if_false, hpop, ok_bind]
    rfl
  · obtain ⟨i, hi⟩ := Array.mem_iff_getElem?.mp hy
    rw [← key_eq hx, ← key_eq hi]
    exact hq.ordered.root_le i (Array.getElem?_eq_some_iff.mp hi).1

theorem Queue.takesOut (hq : h.Queue p) {id} (hid : id.partition = p) : h.TakesOut p id := by
  have hget := get_eq (hid.trans hq.indexed.partition_eq.symm)
  cases hlookup : h.batchToIndex.lookup id with
  | none =>
    rw [hlookup] at hget
    refine .inl ⟨fun x hx heq => ?_, by rw [BatchHeap.remove, hget]; rfl⟩
    obtain ⟨i, hi⟩ := Array.mem_iff_getElem?.mp hx
    have hat := hq.indexed.lookup_eq hi
    rw [heq, hlookup] at hat
    cases hat
  | some i =>
    obtain ⟨x, hxi, heq⟩ := (hq.indexed.lookup_iff hid).mp hlookup
    obtain ⟨h', hrem, hq', hperm⟩ := hq.heapRemove hxi
    refine .inr ⟨h', x, ?_, hq', hperm, heq⟩
    have hi : ¬ h.data.size ≤ i := Nat.not_le.mpr (Array.getElem?_eq_some_iff.mp hxi).1
    rw [hlookup] at hget
    simp only [BatchHeap.remove, hget, Option.map_some, Option.getD_some, ok_bind, if_neg hi, hrem]
    rfl

/-- **The heaps that the operations make** from an empty one, with batches of the partition. `Has` changes nothing. -/
inductive Reached (p : ShardPrimary) : BatchHeap T → Prop
  | new : Reached p (.new p seqLess)
  | push {h x h' r} : Reached p h → x.batch.batchID.partition = p → h.push x = .ok (h', r) → Reached p h'
  | pop {h h' r} : Reached p h → h.pop = .ok (h', r) → Reached p h'
  | remove {h id h' r} : Reached p h → id.partition = p → h.remove id = .ok (h', r) → Reached p h'

theorem Reached.queue (hreached : Reached p h) : h.Queue p := by
  induction hreached with
  | new => exact .new p
  | push _ hp hpush ih =>
    rcases ih.adds hp with ⟨-, heq⟩ | ⟨-, h', heq, hq', -⟩
    all_goals cases heq.symm.trans hpush
    exacts [ih, hq']
  | pop _ hpop ih =>
    rcases ih.takesLeast with ⟨-, heq⟩ | ⟨h', x, heq, hq', -⟩
    all_goals cases heq.symm.trans hpop
    exacts [ih, hq']
  | remove _ hid hrem ih =>
    rcases ih.takesOut hid with ⟨-, heq⟩ | ⟨h', x, heq, hq', -⟩
    all_goals cases heq.symm.trans hrem
    exacts [ih, hq']

/-- **The heap is an indexed priority queue.** After any operations the mapper holds exactly the batches of the array,
each with its position, and no item is below its parent. A batch is refused exactly if it is in the heap, what is
popped has the least sequence, and what is removed is the batch that was asked for; everything else stays. -/
theorem indexed_priority_queue (hreached : Reached p h) :
    h.Indexed p ∧ HeapOrdered h.key h.data.size ∧ (∀ x, x.batch.batchID.partition = p → h.Adds p x) ∧ h.TakesLeast p ∧
      ∀ id, id.partition = p → h.TakesOut p id ∧ h.Finds id := by
  have hq := hreached.queue
  exact ⟨hq.indexed, hq.ordered, fun x hp => hq.adds hp, hq.takesLeast, fun id hid => ⟨hq.takesOut hid, hq.finds hid⟩⟩

/-- The oldest of three batches comes last, and the second is removed. -/
theorem oldest_of_three : ∃ h₁ h₂ h₃ h h', (new ⟨1, 1⟩ seqLess).push (heldItem 2) = .ok (h₁, .ok ()) ∧
    h₁.push (heldItem 3) = .ok (h₂, .ok ()) ∧ h₂.push (heldItem 1) = .ok (h₃, .ok ()) ∧
    h₃.remove (heldItem 3).batch.batchID = .ok (h, .ok (heldItem 3)) ∧ h.pop = .ok (h', some (heldItem 1)) ∧
    h.Indexed ⟨1, 1⟩ ∧ h.TakesLeast ⟨1, 1⟩ := by
  have h₁ := Reached.push .new (partition_heldItem 2) rfl
  have h₂ := h₁.push (partition_heldItem 3) rfl
  have h₃ := h₂.push (partition_heldItem 1) rfl
  have h₄ := h₃.remove (partition_heldItem 3) rfl
  obtain ⟨hindexed, -, -, hleast, -⟩ := indexed_priority_queue h₄
  exact ⟨_, _, _, _, _, rfl, rfl, rfl, rfl, rfl, hindexed, hleast⟩

end BatchHeap

end Arma
