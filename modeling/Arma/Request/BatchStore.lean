import Arma.Lib.Keyed
import Arma.Lib.Packed

/-!
# The batch store

Model of `BatchStore` (`request/batchstore.go`) and of its `batch` (`request/batch.go`), from which a primary takes its
batches.

* A batch is a pointer in the source. Here it is a number, and `batches` is the memory: the current batch is always the
  one that was made last.
* `Insert` adds to the counter of the current batch first. If that is over a limit, the batch is put into the queue and
  the request is tried on a new one. When not even an empty batch takes it, the call never returns.
* `Fetch` takes a batch out of the queue, or the current one. The index `keys2Batches` still names it: the keys of a
  fetched batch are refused until they are removed.
* The order in which a `sync.Map` is ranged over is a parameter.

`BatchStore.content` is what the store holds and refuses (`Lib/Keyed.lean`). There is one lemma for each operation,
which says what the operation does to it: `insert_spec`, `fetch_spec`, `remove_spec` and `prune_spec`.
-/

namespace Arma

open Arma.Lib List Function Shelves

variable {ν : Type}

/-- `batch`: the number of its requests and their size in one word, whether it was taken out of use, and its
requests. -/
structure Batch (ν : Type) where
  sizeBytes : UInt64
  enqueued : Bool
  m : AList fun _ : String => ν

def Batch.empty : Batch ν := ⟨0, false, ∅⟩

structure BatchStore (ν : Type) where
  batchMaxSize : UInt32
  batchMaxSizeBytes : UInt32
  batches : Nat → Batch ν
  currentBatch : Nat
  readyBatches : List Nat
  keys2Batches : String → Option Nat

def newBatchStore (batchMaxSize batchMaxSizeBytes : UInt32) : BatchStore ν where
  batchMaxSize
  batchMaxSizeBytes
  batches _ := .empty
  currentBatch := 0
  readyBatches := []
  keys2Batches _ := none

namespace BatchStore

variable (s : BatchStore ν)

/-! ## Insert -/

/-- `AddUint64` on the counter of the current batch. -/
def addSize (size : UInt32) : BatchStore ν :=
  { s with
    batches := update s.batches s.currentBatch { s.batches s.currentBatch with
      sizeBytes := (s.batches s.currentBatch).sizeBytes + Packed.item size } }

/-- Neither `full` nor `fullBytes`. -/
def fits (newSize : UInt64) : Bool :=
  decide (Packed.count newSize ≤ s.batchMaxSize ∧ Packed.bytes newSize ≤ s.batchMaxSizeBytes)

/-- `LoadOrStore` of a key that is not there. -/
def setKey (key : String) (b : Nat) : BatchStore ν :=
  { s with keys2Batches := update s.keys2Batches key (some b) }

/-- `currBatch.Store`. -/
def putRequest (b : Nat) (key : String) (value : ν) : BatchStore ν :=
  { s with
    batches := update s.batches b { s.batches b with m := (s.batches b).m.insert key value } }

/-- A full batch goes into the queue and a new one is made, unless somebody else has done so. -/
def enqueue (currBatch : Nat) : BatchStore ν :=
  if (s.batches currBatch).enqueued then s
  else
    { s with
      batches := update (update s.batches currBatch { s.batches currBatch with enqueued := true })
        (s.currentBatch + 1) .empty
      readyBatches := s.readyBatches ++ [currBatch]
      currentBatch := s.currentBatch + 1 }

/-- One turn of the loop of `Insert`: what it returns, if it does. -/
def insertOnce (key : String) (value : ν) (size : UInt32) : Option Bool × BatchStore ν :=
  let added := s.addSize size
  if added.fits (added.batches s.currentBatch).sizeBytes then
    match s.keys2Batches key with
    | some _ => (some false, added)
    | none => (some true, (added.setKey key s.currentBatch).putRequest s.currentBatch key value)
  else (none, added.enqueue s.currentBatch)

/-- `Insert`, when nobody interferes. The second turn has an empty batch: if that is over a limit too, so are all
later ones, and the call does not return. -/
def insert (key : String) (value : ν) (size : UInt32) : Option (Bool × BatchStore ν) :=
  match s.insertOnce key value size with
  | (some inserted, s') => some (inserted, s')
  | (none, s') =>
    match s'.insertOnce key value size with
    | (some inserted, s'') => some (inserted, s'')
    | (none, _) => none

/-! ## Fetch and Remove -/

variable (o : RangeOrder String ν)

def markEnqueued (b : Nat) : BatchStore ν :=
  { s with batches := update s.batches b { s.batches b with enqueued := true } }

def prepareBatch (b : Nat) : List (String × ν) := o.order (pairs (s.batches b).m)

/-- The loop of `Fetch` over the queue: the first batch that is not empty. -/
def fetchReady : List Nat → BatchStore ν → Option (List (String × ν)) × BatchStore ν
  | [], s => (none, s)
  | b :: rest, s =>
    match s.prepareBatch o b with
    | [] => fetchReady rest { s.markEnqueued b with readyBatches := rest }
    | e :: out => (some (e :: out), { s.markEnqueued b with readyBatches := rest })

/-- `Fetch`, once its wait is over. -/
def fetch : List (String × ν) × BatchStore ν :=
  match fetchReady o s.readyBatches s with
  | (some out, s') => (out, s')
  | (none, s') =>
    if (s'.batches s'.currentBatch).sizeBytes = 0 then ([], s')
    else
      (s'.prepareBatch o s'.currentBatch,
        { s'.markEnqueued s'.currentBatch with
          batches := update (s'.markEnqueued s'.currentBatch).batches (s'.currentBatch + 1) .empty
          currentBatch := s'.currentBatch + 1 })

/-- `Remove`, and whether `onDelete` was called. -/
def remove (key : String) : Bool × BatchStore ν :=
  match s.keys2Batches key with
  | none => (false, s)
  | some b =>
    (true, { s with
      keys2Batches := update s.keys2Batches key none
      batches := update s.batches b { s.batches b with m := (s.batches b).m.erase key } })

/-- `RemoveRequests`, and how often `onDelete` was called. -/
def removeRequests : List String → BatchStore ν → Nat × BatchStore ν
  | [], s => (0, s)
  | key :: keys, s =>
    let (removed, s') := s.remove key
    let (count, s'') := removeRequests keys s'
    (count + removed.toNat, s'')

/-- `ForEach`: the entries in the order in which they are gone over. -/
def forEach : List (String × ν) :=
  (s.readyBatches ++ [s.currentBatch]).flatMap fun b => o.order (pairs (s.batches b).m)

/-- `Prune`: every request for which `f` fails is removed, in whatever order. -/
def prune (f : String → ν → Except String Unit) : Nat × BatchStore ν :=
  removeRequests (((s.forEach .same).filter fun e => !(f e.1 e.2).isOk).map Prod.fst) s

/-! ## What the store holds -/

/-- The index, the batches and those of them that can still be fetched. -/
def shelves : Shelves String ν where
  index := s.keys2Batches
  shelf b := (s.batches b).m
  live := s.readyBatches ++ [s.currentBatch]

/-- **What the store holds and refuses**: the keys of batches that were fetched are refused. -/
def content : Holdings String ν := s.shelves.holdings

/-- The index agrees with the batches, and the current batch is the newest one. -/
structure Inv : Prop where
  ok : s.shelves.Ok
  ready_lt : ∀ b ∈ s.readyBatches, b < s.currentBatch
  index_le : ∀ key b, s.keys2Batches key = some b → b ≤ s.currentBatch
  open_current : (s.batches s.currentBatch).enqueued = false

variable {s o} {key : String} {value : ν} {size : UInt32} {b : Nat}

theorem mem_live : b ∈ s.shelves.live ↔ b ∈ s.readyBatches ∨ b = s.currentBatch := by
  simp [shelves]

theorem current_mem_live : s.currentBatch ∈ s.shelves.live := mem_live.mpr (.inr rfl)

theorem Inv.known_iff (h : s.Inv) : s.content.Known key ↔ s.keys2Batches key ≠ none := h.ok.known_iff

theorem inv_newBatchStore (n m : UInt32) : (newBatchStore n m : BatchStore ν).Inv where
  ok := ⟨by simp [shelves, newBatchStore], by simp [shelves, newBatchStore, Batch.empty]⟩
  ready_lt := by simp [newBatchStore]
  index_le := by simp [newBatchStore]
  open_current := rfl

theorem content_newBatchStore (n m : UInt32) : (newBatchStore n m : BatchStore ν).content = .empty :=
  Holdings.ext rfl (by simp [content, holdings, shelves, newBatchStore, Holdings.empty])

theorem shelf_update {batch} (hm : batch.m = (s.batches b).m) :
    (fun b' => (update s.batches b batch b').m) = s.shelves.shelf := by
  funext b'
  by_cases hb : b' = b
  · subst hb
    simp [shelves, hm]
  · simp [shelves, hb]

theorem shelves_addSize (s : BatchStore ν) (size : UInt32) : (s.addSize size).shelves = s.shelves :=
  Shelves.ext rfl (shelf_update rfl) rfl

theorem shelves_markEnqueued (s : BatchStore ν) (b : Nat) : (s.markEnqueued b).shelves = s.shelves :=
  Shelves.ext rfl (shelf_update rfl) rfl

theorem Inv.addSize (h : s.Inv) (size : UInt32) : (s.addSize size).Inv where
  ok := (shelves_addSize s size).symm ▸ h.ok
  ready_lt := h.ready_lt
  index_le := h.index_le
  open_current := by simpa [BatchStore.addSize] using h.open_current

theorem content_addSize (s : BatchStore ν) (size : UInt32) : (s.addSize size).content = s.content :=
  congrArg holdings (shelves_addSize s size)

variable {s' : BatchStore ν}

/-- A new current batch is made, and `live` are the others that can be fetched. -/
theorem Inv.newCurrent (h : s.Inv) {live} (hkeys : s'.keys2Batches = s.keys2Batches)
    (hshelf : s'.shelves.shelf = update s.shelves.shelf (s.currentBatch + 1) ∅)
    (hcurrent : s'.currentBatch = s.currentBatch + 1) (hready : s'.readyBatches = live)
    (hlive : ∀ b ∈ live, b ≤ s.currentBatch) (hok : Shelves.Ok { s.shelves with live })
    (hopen : (s'.batches s'.currentBatch).enqueued = false) :
    s'.Inv ∧ s'.content = holdings { s.shelves with live } := by
  have hunused : ∀ key, s.keys2Batches key ≠ some (s.currentBatch + 1) := fun key hkey =>
    absurd (h.index_le key _ hkey) (by omega)
  have hshelves : s'.shelves = add { s.shelves with live } (s.currentBatch + 1) :=
    Shelves.ext hkeys hshelf (by simp [shelves, add, hready, hcurrent])
  have hnotMem : s.currentBatch + 1 ∉ live := fun hmem => absurd (hlive _ hmem) (by omega)
  refine ⟨⟨?_, ?_, ?_, hopen⟩, ?_⟩
  · rw [hshelves]
    exact hok.add hnotMem hunused
  · intro b hb
    rw [hready] at hb
    rw [hcurrent]
    exact Nat.lt_succ_of_le (hlive b hb)
  · intro key b hb
    rw [hkeys] at hb
    rw [hcurrent]
    exact Nat.le_succ_of_le (h.index_le key b hb)
  · rw [content, hshelves]
    exact holdings_add hunused

theorem Inv.enqueue (h : s.Inv) : (s.enqueue s.currentBatch).Inv ∧ (s.enqueue s.currentBatch).content = s.content := by
  rw [BatchStore.enqueue, if_neg (by simp [h.open_current])]
  refine h.newCurrent rfl ?_ rfl rfl ?_ h.ok ?_
  · rw [← shelves_markEnqueued s s.currentBatch]
    funext b
    by_cases hb : b = s.currentBatch + 1
    · subst hb
      simp [shelves, Batch.empty]
    · simp [shelves, markEnqueued, hb]
  · intro b hb
    rcases mem_append.mp hb with hb | hb
    · exact Nat.le_of_lt (h.ready_lt b hb)
    · exact Nat.le_of_eq (mem_singleton.mp hb)
  · simp [Batch.empty]

/-! ## What the operations do -/

theorem shelves_put : ((s.setKey key b).putRequest b key value).shelves = s.shelves.put b key value := by
  refine Shelves.ext rfl (funext fun b' => ?_) rfl
  by_cases hb : b' = b
  · subst hb
    simp [shelves, Shelves.put, putRequest, setKey]
  · simp [shelves, Shelves.put, putRequest, setKey, hb]

theorem Inv.put (h : s.Inv) (hkey : s.keys2Batches key = none) (value : ν) :
    ((s.setKey key s.currentBatch).putRequest s.currentBatch key value).Inv ∧
      ((s.setKey key s.currentBatch).putRequest s.currentBatch key value).content = s.content.store key value := by
  refine ⟨⟨?_, h.ready_lt, ?_, ?_⟩, ?_⟩
  · rw [shelves_put]
    exact h.ok.put hkey current_mem_live value
  · intro key' b hb
    by_cases hkk : key' = key
    · subst hkk
      simp only [putRequest, setKey, update_self, Option.some.injEq] at hb
      exact Nat.le_of_eq hb.symm
    · simp only [putRequest, setKey, update_of_ne hkk] at hb
      exact h.index_le key' b hb
  · simpa [putRequest, setKey] using h.open_current
  · rw [content, shelves_put]
    exact holdings_put hkey current_mem_live value

/-- **A turn that does not return** leaves an empty batch, and one batch more in the queue. -/
theorem insertOnce_eq_none (hopen : (s.batches s.currentBatch).enqueued = false)
    (h : s.insertOnce key value size = (none, s')) :
    s'.batches s'.currentBatch = .empty ∧ s'.readyBatches = s.readyBatches ++ [s.currentBatch] ∧
      s'.batchMaxSize = s.batchMaxSize ∧ s'.batchMaxSizeBytes = s.batchMaxSizeBytes := by
  unfold insertOnce at h
  simp only at h
  split at h
  · split at h <;> cases h
  · cases h
    have hopen' : ¬ ((s.addSize size).batches s.currentBatch).enqueued = true := by simp [addSize, hopen]
    rw [enqueue, if_neg hopen']
    exact ⟨update_self .., rfl, rfl, rfl⟩

theorem insertOnce_eq_some {inserted}
    (h : s.insertOnce key value size = (some inserted, s')) : s'.readyBatches = s.readyBatches := by
  unfold insertOnce at h
  simp only at h
  split at h
  · split at h
    all_goals
      cases h
      rfl
  · cases h

theorem Inv.insertOnce (h : s.Inv) {result} (hinsert : s.insertOnce key value size = (result, s')) :
    s'.Inv ∧ match result with
      | none => s'.content = s.content
      | some false => s.content.Known key ∧ s'.content = s.content
      | some true => ¬ s.content.Known key ∧ s'.content = s.content.store key value := by
  have hadded := content_addSize s size
  have hinv := h.addSize size
  simp only [BatchStore.insertOnce] at hinsert
  split at hinsert
  · cases hkey : s.keys2Batches key with
    | some b =>
      rw [hkey] at hinsert
      cases hinsert
      exact ⟨hinv, h.known_iff.mpr (by simp [hkey]), hadded⟩
    | none =>
      rw [hkey] at hinsert
      cases hinsert
      obtain ⟨hput, hcontent⟩ := hinv.put hkey value
      rw [hadded] at hcontent
      exact ⟨hput, fun hknown => h.known_iff.mp hknown hkey, hcontent⟩
  · cases hinsert
    obtain ⟨henqueue, hcontent⟩ := hinv.enqueue
    exact ⟨henqueue, hcontent.trans hadded⟩

/-- **`Insert`** takes a request whose key is not known, and no other. -/
theorem insert_spec (h : s.Inv) {inserted} (hinsert : s.insert key value size = some (inserted, s')) :
    s'.Inv ∧ if inserted then ¬ s.content.Known key ∧ s'.content = s.content.store key value
      else s.content.Known key ∧ s'.content = s.content := by
  unfold BatchStore.insert at hinsert
  split at hinsert
  · next first s₁ hfirst =>
    obtain ⟨rfl, rfl⟩ := Prod.mk.inj (Option.some.inj hinsert)
    have hspec := h.insertOnce hfirst
    cases first <;> simpa using hspec
  · next s₁ hfirst =>
    obtain ⟨hinv, hcontent⟩ := h.insertOnce hfirst
    split at hinsert
    · next second s₂ hsecond =>
      obtain ⟨rfl, rfl⟩ := Prod.mk.inj (Option.some.inj hinsert)
      have hspec := hinv.insertOnce hsecond
      rw [hcontent] at hspec
      cases second <;> simpa using hspec
    · cases hinsert

theorem mem_prepareBatch {e} : e ∈ s.prepareBatch o b ↔ (s.batches b).m.lookup e.1 = some e.2 :=
  ((enumerates_pairs (s.batches b).m).perm (o.perm _)).mem_iff

theorem mem_keys_prepareBatch : key ∈ (s.prepareBatch o b).map Prod.fst ↔ key ∈ s.shelves.shelf b := by
  rw [mem_map, ← AList.lookup_isSome, Option.isSome_iff_exists]
  constructor
  · rintro ⟨⟨_, v⟩, hmem, rfl⟩
    exact ⟨v, mem_prepareBatch.mp hmem⟩
  · rintro ⟨v, hv⟩
    exact ⟨(key, v), mem_prepareBatch.mpr hv, rfl⟩

theorem Inv.held_of_mem_prepareBatch (h : s.Inv) {e} (hb : b ∈ s.shelves.live)
    (he : e ∈ s.prepareBatch o b) : s.content.held e.1 = some e.2 := by
  have hlookup := mem_prepareBatch.mp he
  have hmem : e.1 ∈ s.shelves.shelf b := AList.lookup_isSome.mp (Option.isSome_of_mem hlookup)
  exact (h.ok.held_of_mem hb hmem).trans hlookup

theorem Inv.dequeue (h : s.Inv) (o) {rest} (hready : s.readyBatches = b :: rest) :
    ({ s.markEnqueued b with readyBatches := rest } : BatchStore ν).Inv ∧
      ({ s.markEnqueued b with readyBatches := rest } : BatchStore ν).content =
        s.content.take ((s.prepareBatch o b).map Prod.fst) := by
  have hlive : s.shelves.live.Perm (b :: (rest ++ [s.currentBatch])) := by
    simp [shelves, hready]
  have hshelves : ({ s.markEnqueued b with readyBatches := rest } : BatchStore ν).shelves =
      { s.shelves with live := rest ++ [s.currentBatch] } := Shelves.ext rfl (shelf_update rfl) rfl
  have hne : s.currentBatch ≠ b := Nat.ne_of_gt (h.ready_lt b (hready ▸ mem_cons_self))
  refine ⟨⟨?_, ?_, h.index_le, ?_⟩, ?_⟩
  · rw [hshelves]
    exact h.ok.close hlive
  · intro b' hb'
    exact h.ready_lt b' (hready ▸ mem_cons_of_mem b hb')
  · simpa [markEnqueued, update_of_ne hne] using h.open_current
  · rw [content, hshelves]
    exact h.ok.holdings_close hlive fun key => mem_keys_prepareBatch

theorem Inv.fetchReady (h : s.Inv) {ready} (hready : s.readyBatches = ready)
    {found} (hfetch : BatchStore.fetchReady o ready s = (found, s')) :
    s'.Inv ∧ (found = none → s'.content = s.content ∧ s'.readyBatches = []) ∧
      ∀ out, found = some out → (∀ e ∈ out, s.content.held e.1 = some e.2) ∧
        s'.content = s.content.take (out.map Prod.fst) := by
  induction ready generalizing s with
  | nil =>
    cases hfetch
    exact ⟨h, fun _ => ⟨rfl, hready⟩, nofun⟩
  | cons b rest ih =>
    obtain ⟨hinv, hcontent⟩ := h.dequeue o hready
    unfold BatchStore.fetchReady at hfetch
    cases hbatch : s.prepareBatch o b with
    | nil =>
      rw [hbatch] at hfetch hcontent
      rw [map_nil, Holdings.take_nil] at hcontent
      have hrest := ih hinv rfl hfetch
      rw [hcontent] at hrest
      exact hrest
    | cons e rest' =>
      rw [hbatch] at hfetch hcontent
      cases hfetch
      have hb : b ∈ s.shelves.live := mem_live.mpr (.inl (hready ▸ mem_cons_self))
      refine ⟨hinv, nofun, fun out hout => ?_⟩
      cases hout
      exact ⟨fun e he => h.held_of_mem_prepareBatch hb (hbatch ▸ he), hcontent⟩

theorem Inv.takeCurrent (h : s.Inv) (o) (hready : s.readyBatches = [])
    (hs' : s' = { s.markEnqueued s.currentBatch with
      batches := update (s.markEnqueued s.currentBatch).batches (s.currentBatch + 1) .empty
      currentBatch := s.currentBatch + 1 }) :
    s'.Inv ∧ s'.content = s.content.take ((s.prepareBatch o s.currentBatch).map Prod.fst) := by
  have hlive : s.shelves.live.Perm (s.currentBatch :: []) := by
    simp [shelves, hready]
  have htake : holdings { s.shelves with live := [] } =
      s.content.take ((s.prepareBatch o s.currentBatch).map Prod.fst) :=
    h.ok.holdings_close hlive fun key => mem_keys_prepareBatch
  rw [← htake]
  subst hs'
  refine h.newCurrent rfl ?_ rfl hready (by simp) (h.ok.close hlive) (by simp [Batch.empty])
  rw [← shelves_markEnqueued s s.currentBatch]
  funext b
  by_cases hb : b = s.currentBatch + 1
  · subst hb
    simp [shelves, Batch.empty]
  · simp [shelves, hb]

/-- **`Fetch`** hands out requests that the store holds. Their keys are refused from then on. -/
theorem fetch_spec (h : s.Inv) {out} (hfetch : s.fetch o = (out, s')) :
    s'.Inv ∧ (∀ e ∈ out, s.content.held e.1 = some e.2) ∧ s'.content = s.content.take (out.map Prod.fst) := by
  unfold BatchStore.fetch at hfetch
  split at hfetch
  · next out' s₁ hready =>
    obtain ⟨rfl, rfl⟩ := Prod.mk.inj hfetch
    obtain ⟨hinv, -, hfound⟩ := h.fetchReady rfl hready
    exact ⟨hinv, hfound out' rfl⟩
  · next s₁ hready =>
    obtain ⟨hinv, hnone, -⟩ := h.fetchReady rfl hready
    obtain ⟨hcontent, hempty⟩ := hnone rfl
    split at hfetch
    · cases hfetch
      exact ⟨hinv, by simp, by simpa using hcontent⟩
    · obtain ⟨rfl, hs'⟩ := Prod.mk.inj hfetch
      obtain ⟨hinv', htake⟩ := hinv.takeCurrent o hempty hs'.symm
      refine ⟨hinv', fun e he => ?_, ?_⟩
      · rw [← hcontent]
        exact hinv.held_of_mem_prepareBatch current_mem_live he
      · rw [htake, hcontent]

theorem shelves_remove (hkey : s.keys2Batches key = some b) : (s.remove key).2.shelves = s.shelves.erase b key := by
  rw [remove, hkey]
  refine Shelves.ext rfl ?_ rfl
  funext b'
  by_cases hb : b' = b
  · subst hb
    simp [shelves, erase]
  · simp [shelves, erase, hb]

/-- **`Remove`** forgets a key with its request. -/
theorem remove_spec (h : s.Inv) (key : String) :
    (s.remove key).2.Inv ∧ (s.remove key).2.content = s.content.discard key := by
  cases hkey : s.keys2Batches key with
  | none =>
    have hsame : (s.remove key).2 = s := by simp [remove, hkey]
    rw [hsame, Holdings.discard_of_not_known fun hknown => h.known_iff.mp hknown hkey]
    exact ⟨h, rfl⟩
  | some b =>
    have hshelves := shelves_remove hkey
    refine ⟨⟨?_, ?_, ?_, ?_⟩, ?_⟩
    · rw [hshelves]
      exact h.ok.erase hkey
    · simpa [remove, hkey] using h.ready_lt
    · intro key' b' hb'
      by_cases hkk : key' = key
      · simp [remove, hkey, hkk] at hb'
      · simp only [remove, hkey, update_of_ne hkk] at hb'
        simpa [remove, hkey] using h.index_le key' b' hb'
    · by_cases hb : s.currentBatch = b
      · subst hb
        simpa [remove, hkey] using h.open_current
      · simpa [remove, hkey, update_of_ne hb] using h.open_current
    · rw [content, hshelves]
      exact holdings_erase

theorem removeRequests_spec (h : s.Inv) (keys : List String) :
    (removeRequests keys s).2.Inv ∧ (removeRequests keys s).2.content = s.content.discardAll keys := by
  induction keys generalizing s with
  | nil => exact ⟨h, Holdings.discardAll_nil.symm⟩
  | cons key keys ih =>
    obtain ⟨hinv, hcontent⟩ := remove_spec h key
    have hrest := ih hinv
    rw [hcontent, Holdings.discardAll_discard] at hrest
    exact hrest

/-- `ForEach` goes over what the store holds. -/
theorem Inv.enumerates_forEach (h : s.Inv) (o) : Enumerates (s.forEach o) s.content.held :=
  h.ok.enumerates_all o

/-- **`Prune`** keeps the requests that pass. -/
theorem prune_spec (h : s.Inv) (f) :
    (s.prune f).2.Inv ∧ (s.prune f).2.content = s.content.keep fun key value => (f key value).isOk := by
  obtain ⟨hinv, hcontent⟩ := removeRequests_spec h
    (((s.forEach .same).filter fun e => !(f e.1 e.2).isOk).map Prod.fst)
  refine ⟨hinv, hcontent.trans (Holdings.discardAll_eq_keep (fun key => ?_) fun _ => held_eq_none_of_mem_blocked)⟩
  simp only [mem_map, mem_filter, Bool.not_eq_true']
  constructor
  · rintro ⟨⟨_, v⟩, ⟨hmem, hfails⟩, rfl⟩
    exact ⟨v, (h.enumerates_forEach .same).mem_iff.mp hmem, hfails⟩
  · rintro ⟨v, hv, hfails⟩
    exact ⟨(key, v), ⟨(h.enumerates_forEach .same).mem_iff.mpr hv, hfails⟩, rfl⟩

end BatchStore

end Arma
