import Arma.Lib.Bytes
import Arma.Lib.Interleave
import Arma.Request.BatchStore
import Mathlib.Algebra.Order.BigOperators.Group.List

/-!
# Concurrent inserts into the batch store

`Request/Pool.lean` takes a call of the batch store as one step. Here the calls of `Insert` (`request/batchstore.go`) go
on in parallel, in the steps that the source makes atomic.

* `Insert` adds to the counter of the current batch and looks at what came out, indexes the key, and stores the request.
  It holds the lock for reading until then. If the counter is over a limit it gives the lock back, and takes it for
  writing to put the batch into the queue.
* `Fetch` holds the lock for writing.
* `Remove` takes no lock: it deletes the key from the index and then from its batch. `Prune` calls it.

`run_insert`: an `Insert` that nobody interferes with does what `BatchStore.insert` says. **`fetched_within`**: if `c`
calls at most are in progress at a time, and the counters cannot overflow by what these add, then every batch that is
fetched is within the limits.
-/

namespace Arma

open Arma.Lib List Function BatchStore

/-! ## The batches under a fetch -/

namespace BatchStore

variable {ν : Type} {s s' s'' : BatchStore ν} {o : RangeOrder String ν}

/-- The batches are as they were, but some that were in the queue are marked and gone from it. -/
structure Kept (s s' : BatchStore ν) : Prop where
  batchMaxSize_eq : s'.batchMaxSize = s.batchMaxSize
  batchMaxSizeBytes_eq : s'.batchMaxSizeBytes = s.batchMaxSizeBytes
  currentBatch_eq : s'.currentBatch = s.currentBatch
  ready : s'.readyBatches ⊆ s.readyBatches
  m_eq : ∀ b, (s'.batches b).m = (s.batches b).m
  sizeBytes_eq : ∀ b, (s'.batches b).sizeBytes = (s.batches b).sizeBytes
  enqueued : ∀ b, (s.batches b).enqueued = true → (s'.batches b).enqueued = true
  untouched : ∀ b, b ∉ s.readyBatches → (s'.batches b).enqueued = (s.batches b).enqueued

theorem Kept.rfl : s.Kept s :=
  ⟨Eq.refl _, Eq.refl _, Eq.refl _, List.Subset.refl _, fun _ => Eq.refl _, fun _ => Eq.refl _, fun _ => id,
    fun _ _ => Eq.refl _⟩

theorem Kept.trans (h : s.Kept s') (h' : s'.Kept s'') : s.Kept s'' where
  batchMaxSize_eq := h'.batchMaxSize_eq.trans h.batchMaxSize_eq
  batchMaxSizeBytes_eq := h'.batchMaxSizeBytes_eq.trans h.batchMaxSizeBytes_eq
  currentBatch_eq := h'.currentBatch_eq.trans h.currentBatch_eq
  ready := List.Subset.trans h'.ready h.ready
  m_eq b := (h'.m_eq b).trans (h.m_eq b)
  sizeBytes_eq b := (h'.sizeBytes_eq b).trans (h.sizeBytes_eq b)
  enqueued b hb := h'.enqueued b (h.enqueued b hb)
  untouched b hb := (h'.untouched b fun hb' => hb (h.ready hb')).trans (h.untouched b hb)

theorem kept_dequeue {b rest} (hready : s.readyBatches = b :: rest) :
    s.Kept { s.markEnqueued b with readyBatches := rest } where
  batchMaxSize_eq := Eq.refl _
  batchMaxSizeBytes_eq := Eq.refl _
  currentBatch_eq := Eq.refl _
  ready := hready ▸ subset_cons_self b rest
  m_eq b' := by
    by_cases hb : b' = b
    · subst hb
      simp [markEnqueued]
    · simp [markEnqueued, update_of_ne hb]
  sizeBytes_eq b' := by
    by_cases hb : b' = b
    · subst hb
      simp [markEnqueued]
    · simp [markEnqueued, update_of_ne hb]
  enqueued b' h := by
    by_cases hb : b' = b
    · subst hb
      simp [markEnqueued]
    · simpa [markEnqueued, update_of_ne hb] using h
  untouched b' h := by
    have hb : b' ≠ b := fun hb => h (hready ▸ hb ▸ mem_cons_self)
    simp [markEnqueued, update_of_ne hb]

/-- The loop of `Fetch` over the queue. -/
theorem fetchReady_kept {ready} (hready : s.readyBatches = ready) {found} (h : fetchReady o ready s = (found, s')) :
    s.Kept s' ∧ ∀ out, found = some out → ∃ b ∈ s.readyBatches, out = s.prepareBatch o b := by
  induction ready generalizing s with
  | nil =>
    cases h
    exact ⟨.rfl, nofun⟩
  | cons b rest ih =>
    unfold fetchReady at h
    have hkept := kept_dequeue hready
    split at h
    · obtain ⟨hrest, hfound⟩ := ih (Eq.refl _) h
      refine ⟨hkept.trans hrest, fun out hout => ?_⟩
      obtain ⟨b', hb', rfl⟩ := hfound out hout
      refine ⟨b', hkept.ready hb', ?_⟩
      rw [prepareBatch, prepareBatch, hkept.m_eq]
    · next e out hprepare =>
      cases h
      refine ⟨hkept, ?_⟩
      rintro _ ⟨⟩
      exact ⟨b, hready ▸ mem_cons_self, hprepare.symm⟩

/-- There is a new current batch. -/
structure Renewed (s s' : BatchStore ν) : Prop where
  batchMaxSize_eq : s'.batchMaxSize = s.batchMaxSize
  batchMaxSizeBytes_eq : s'.batchMaxSizeBytes = s.batchMaxSizeBytes
  currentBatch_eq : s'.currentBatch = s.currentBatch + 1
  new : s'.batches (s.currentBatch + 1) = .empty
  ready : ∀ b ∈ s'.readyBatches, b ∈ s.readyBatches ∨ b = s.currentBatch
  m_eq : ∀ b ≤ s.currentBatch, (s'.batches b).m = (s.batches b).m
  enqueued : ∀ b ≤ s.currentBatch, (s.batches b).enqueued = true ∨ b = s.currentBatch → (s'.batches b).enqueued = true

theorem renewed_update (hsize : s'.batchMaxSize = s.batchMaxSize ∧ s'.batchMaxSizeBytes = s.batchMaxSizeBytes)
    (hcurrent : s'.currentBatch = s.currentBatch + 1) (hbatches : s'.batches =
      update (s.markEnqueued s.currentBatch).batches (s.currentBatch + 1) .empty)
    (hready : ∀ b ∈ s'.readyBatches, b ∈ s.readyBatches ∨ b = s.currentBatch) : s.Renewed s' where
  batchMaxSize_eq := hsize.1
  batchMaxSizeBytes_eq := hsize.2
  currentBatch_eq := hcurrent
  new := by rw [hbatches, update_self]
  ready := hready
  m_eq b hb := by
    rw [hbatches, update_of_ne (Nat.ne_of_lt (Nat.lt_succ_of_le hb)), markEnqueued]
    by_cases heq : b = s.currentBatch
    · subst heq
      simp
    · simp [update_of_ne heq]
  enqueued b hb h := by
    rw [hbatches, update_of_ne (Nat.ne_of_lt (Nat.lt_succ_of_le hb)), markEnqueued]
    by_cases heq : b = s.currentBatch
    · subst heq
      simp
    · simpa [update_of_ne heq] using h.resolve_right heq

theorem Kept.renewed (h : s.Kept s') (h' : s'.Renewed s'') : s.Renewed s'' := by
  have hcurrent := h.currentBatch_eq
  refine ⟨h'.batchMaxSize_eq.trans h.batchMaxSize_eq, h'.batchMaxSizeBytes_eq.trans h.batchMaxSizeBytes_eq, ?_, ?_,
    fun b hb => ?_, fun b hb => ?_, fun b hb hor => ?_⟩
  · rw [h'.currentBatch_eq, hcurrent]
  · rw [← hcurrent]
    exact h'.new
  · rw [← hcurrent]
    exact (h'.ready b hb).imp_left fun hb => h.ready hb
  · rw [h'.m_eq b (hcurrent ▸ hb), h.m_eq]
  · exact h'.enqueued b (hcurrent ▸ hb) (hor.imp (h.enqueued b) fun heq => hcurrent ▸ heq)

/-- **What `Fetch` does to the batches**: it takes one from the queue, or nothing, or the current one. -/
theorem fetch_cases {out} (h : s.fetch o = (out, s')) :
    s.Kept s' ∧ (out = [] ∨ ∃ b ∈ s.readyBatches, out = s.prepareBatch o b) ∨
      s.Renewed s' ∧ out = s.prepareBatch o s.currentBatch := by
  unfold fetch at h
  split at h
  · next found s₁ hready =>
    cases h
    obtain ⟨hkept, hfound⟩ := fetchReady_kept (Eq.refl _) hready
    exact .inl ⟨hkept, .inr (hfound _ (Eq.refl _))⟩
  · next s₁ hready =>
    obtain ⟨hkept, -⟩ := fetchReady_kept (Eq.refl _) hready
    split at h
    · cases h
      exact .inl ⟨hkept, .inl (Eq.refl _)⟩
    · cases h
      refine .inr ⟨?_, ?_⟩
      · exact hkept.renewed (renewed_update ⟨Eq.refl _, Eq.refl _⟩ (Eq.refl _) (Eq.refl _) fun b hb => .inl hb)
      · rw [prepareBatch, prepareBatch, hkept.currentBatch_eq, hkept.m_eq]

end BatchStore

/-! ## Calls -/

/-- Where a call of `Insert` stands. -/
inductive InsertPoint where
  | start
  | added (currBatch : Nat) (newSize : UInt64)
  | indexed (currBatch : Nat)
  /-- It has given back the lock, since the batch is full. -/
  | full (currBatch : Nat)
  deriving DecidableEq, Repr

structure InsertCall where
  key : String
  value : Bytes
  point : InsertPoint
  deriving DecidableEq, Repr

/-- The size that `Submit` gives. -/
def InsertCall.size (call : InsertCall) : UInt32 := UInt32.ofNat call.value.length

/-- Whether the call holds the lock for reading. -/
def InsertPoint.reads : InsertPoint → Bool
  | .added .. | .indexed _ => true
  | .start | .full _ => false

/-- The batch store, the calls of `Insert` in progress, the calls of `Remove` between their steps, and what was
fetched. -/
structure Inserting where
  store : BatchStore Bytes
  calls : List InsertCall
  deleting : List (String × Nat)
  fetched : List (List (String × Bytes))

namespace Inserting

/-- Nobody holds the lock for reading. -/
def Unlocked (s : Inserting) : Prop := ∀ call ∈ s.calls, call.point.reads = false

/-- One step, when at most `c` calls of `Insert` are in progress, for requests that meet a condition. -/
inductive Step (c : Nat) (valid : Bytes → Prop) (s : Inserting) : Inserting → Prop
  | call {key value} (hroom : s.calls.length < c) (hvalue : valid value) :
      Step c valid s { s with calls := ⟨key, value, .start⟩ :: s.calls }
  | add {before after call} (hcalls : s.calls = before ++ call :: after) (hat : call.point = .start) :
      Step c valid s { s with
        store := s.store.addSize call.size
        calls := before ++ { call with
          point := .added s.store.currentBatch
            ((s.store.addSize call.size).batches s.store.currentBatch).sizeBytes } :: after }
  /-- The key is in the index: it returns. -/
  | known {before after call currBatch b newSize}
      (hcalls : s.calls = before ++ call :: after) (hat : call.point = .added currBatch newSize)
      (hfits : s.store.fits newSize = true) (hkey : s.store.keys2Batches call.key = some b) :
      Step c valid s { s with calls := before ++ after }
  | index {before after call currBatch newSize}
      (hcalls : s.calls = before ++ call :: after) (hat : call.point = .added currBatch newSize)
      (hfits : s.store.fits newSize = true) (hkey : s.store.keys2Batches call.key = none) :
      Step c valid s { s with
        store := s.store.setKey call.key currBatch
        calls := before ++ { call with point := .indexed currBatch } :: after }
  | put {before after call currBatch}
      (hcalls : s.calls = before ++ call :: after) (hat : call.point = .indexed currBatch) :
      Step c valid s { s with
        store := s.store.putRequest currBatch call.key call.value
        calls := before ++ after }
  | giveUp {before after call currBatch newSize}
      (hcalls : s.calls = before ++ call :: after) (hat : call.point = .added currBatch newSize)
      (hfull : s.store.fits newSize = false) :
      Step c valid s { s with
        calls := before ++ { call with point := .full currBatch } :: after }
  | enqueue {before after call currBatch}
      (hcalls : s.calls = before ++ call :: after) (hat : call.point = .full currBatch) (hlock : s.Unlocked) :
      Step c valid s { s with
        store := s.store.enqueue currBatch
        calls := before ++ { call with point := .start } :: after }
  | fetch {store out} (o : RangeOrder String Bytes) (hlock : s.Unlocked) (hfetch : s.store.fetch o = (out, store)) :
      Step c valid s { s with store, fetched := out :: s.fetched }
  /-- `Remove` deletes the key from the index. -/
  | unindex {key b} (hkey : s.store.keys2Batches key = some b) : Step c valid s { s with
        store := { s.store with keys2Batches := update s.store.keys2Batches key none }
        deleting := (key, b) :: s.deleting }
  /-- And then from its batch. -/
  | delete {before after key b} (hdeleting : s.deleting = before ++ (key, b) :: after) : Step c valid s { s with
        store := { s.store with
          batches := update s.store.batches b { s.store.batches b with m := (s.store.batches b).m.erase key } }
        deleting := before ++ after }

def Run (c : Nat) (valid : Bytes → Prop) : Inserting → Inserting → Prop :=
  Relation.ReflTransGen (Step c valid)

/-- An empty batch store. -/
def fresh (batchMaxSize batchMaxSizeBytes : UInt32) : Inserting :=
  ⟨newBatchStore batchMaxSize batchMaxSizeBytes, [], [], []⟩

/-! ## What the calls in progress have added -/

variable {c requestMaxBytes : Nat} {valid : Bytes → Prop} {s s' : Inserting} {before after calls : List InsertCall}
  {call : InsertCall} {store store' : BatchStore Bytes}

/-- The call has found the current batch over a limit, and has not got a new one yet. -/
def isOver (store : BatchStore Bytes) (call : InsertCall) : Bool :=
  match call.point with
  | .added _ newSize => !store.fits newSize
  | .full currBatch => decide (currBatch = store.currentBatch)
  | .start | .indexed _ => false

/-- The call has found room in the current batch, and has not stored its request yet. -/
def isIn (store : BatchStore Bytes) (call : InsertCall) : Bool :=
  match call.point with
  | .added _ newSize => store.fits newSize
  | .indexed _ => true
  | .start | .full _ => false

theorem isOver_addSize (store : BatchStore Bytes) (size : UInt32) : isOver (store.addSize size) = isOver store := rfl

theorem isIn_addSize (store : BatchStore Bytes) (size : UInt32) : isIn (store.addSize size) = isIn store := rfl

/-- The sum of a weight over some of the calls. -/
def total (p : InsertCall → Bool) (w : InsertCall → Nat) (calls : List InsertCall) : Nat :=
  ((calls.filter p).map w).sum

variable {p : InsertCall → Bool}

theorem total_mid_of_true (h : p call = true) (w : InsertCall → Nat) :
    total p w (before ++ call :: after) = total p w (before ++ after) + w call := by
  simp only [total, filter_append, filter_cons_of_pos h, map_append, sum_append, map_cons, sum_cons]
  omega

theorem total_mid_of_false {p} (h : p call = false) (w : InsertCall → Nat) :
    total p w (before ++ call :: after) = total p w (before ++ after) := by
  have hnot : ¬ p call = true := by simp [h]
  simp only [total, filter_append, filter_cons_of_neg hnot]

variable {w : InsertCall → Nat}

theorem total_mid_congr {call'} (hp : p call' = p call)
    (hw : w call' = w call) : total p w (before ++ call' :: after) = total p w (before ++ call :: after) := by
  cases h : p call with
  | true => rw [total_mid_of_true h, total_mid_of_true (hp.trans h), hw]
  | false => rw [total_mid_of_false h, total_mid_of_false (hp.trans h)]

theorem total_eq_zero {calls} (h : ∀ call ∈ calls, p call = false) (w : InsertCall → Nat) : total p w calls = 0 := by
  have hnil : calls.filter p = [] := filter_eq_nil_iff.mpr fun call hcall => by simp [h call hcall]
  simp [total, hnil]

theorem total_le {k calls} (h : ∀ call ∈ calls, w call ≤ k) : total p w calls ≤ calls.length * k := by
  have hsum : ((calls.filter p).map w).sum ≤ (calls.filter p).length * k := by
    have hle := sum_le_card_nsmul ((calls.filter p).map w) k fun x hx => by
      obtain ⟨call, hcall, rfl⟩ := mem_map.mp hx
      exact h call (mem_of_mem_filter hcall)
    simpa using hle
  exact hsum.trans (Nat.mul_le_mul_right k (length_filter_le p calls))

/-- The size of the requests of a batch. -/
def bytesOf (l : List (String × Bytes)) : Nat := (l.map fun e => e.2.length).sum

theorem bytesOf_cons (e : String × Bytes) (l) : bytesOf (e :: l) = e.2.length + bytesOf l := rfl

theorem bytesOf_le_of_sublist {l l'} (h : l.Sublist l') : bytesOf l ≤ bytesOf l' :=
  (h.map _).sum_le_sum fun _ _ => Nat.zero_le _

/-- The counter of the current batch and its requests, with what the calls in progress have added or will. -/
structure Counted (store : BatchStore Bytes) (calls : List InsertCall) (t : Packed.Tally) : Prop where
  ok : t.Ok store.batchMaxSize.toNat store.batchMaxSizeBytes.toNat (store.batches store.currentBatch).sizeBytes
  overCount_eq : t.overCount = total (isOver store) (fun _ => 1) calls
  overBytes_eq : t.overBytes = total (isOver store) (fun call => call.value.length) calls
  count_ge : (pairs (store.batches store.currentBatch).m).length + total (isIn store) (fun _ => 1) calls ≤ t.count
  bytes_ge : bytesOf (pairs (store.batches store.currentBatch).m) +
    total (isIn store) (fun call => call.value.length) calls ≤ t.bytes

/-- Requests within the limits. -/
structure Within (batchMaxSize batchMaxSizeBytes : UInt32) (l : List (String × Bytes)) : Prop where
  length_le : l.length ≤ batchMaxSize.toNat
  bytes_le : bytesOf l ≤ batchMaxSizeBytes.toNat

theorem Within.of_sublist {batchMaxSize batchMaxSizeBytes l l'}
    (h : Within batchMaxSize batchMaxSizeBytes l) (hl : l'.Sublist l) : Within batchMaxSize batchMaxSizeBytes l' :=
  ⟨hl.length_le.trans h.length_le, (bytesOf_le_of_sublist hl).trans h.bytes_le⟩

theorem Counted.within {t} (h : Counted store calls t) :
    Within store.batchMaxSize store.batchMaxSizeBytes (pairs (store.batches store.currentBatch).m) :=
  ⟨(Nat.le_of_add_right_le h.count_ge).trans h.ok.count_le, (Nat.le_of_add_right_le h.bytes_ge).trans h.ok.bytes_le⟩

/-! ## The invariant -/

/-- The batch of a call: the current one while it reads, and none that is yet to come. -/
def InsertPoint.At (current : Nat) : InsertPoint → Prop
  | .start => True
  | .added currBatch _ | .indexed currBatch => currBatch = current
  | .full currBatch => currBatch ≤ current

structure CallsOk (c requestMaxBytes : Nat) (valid : Bytes → Prop) (current : Nat) (calls : List InsertCall) :
    Prop where
  length_le : calls.length ≤ c
  mem : ∀ call ∈ calls, call.value.length ≤ requestMaxBytes ∧ valid call.value ∧ InsertPoint.At current call.point

/-- The batches that were taken out of use, and only those, are marked or in the queue. -/
structure Queued (store : BatchStore Bytes) : Prop where
  enqueued : ∀ b < store.currentBatch, (store.batches b).enqueued = true
  open_current : (store.batches store.currentBatch).enqueued = false
  ready_lt : ∀ b ∈ store.readyBatches, b < store.currentBatch

/-- The batches that were taken out of use are within the limits, and cannot be put into the queue again. -/
structure StoreOk (valid : Bytes → Prop) (store : BatchStore Bytes) : Prop extends Queued store where
  old : ∀ b < store.currentBatch, Within store.batchMaxSize store.batchMaxSizeBytes (pairs (store.batches b).m)
  valid : ∀ b ≤ store.currentBatch, ∀ e ∈ pairs (store.batches b).m, valid e.2

/-- What holds between any two steps. -/
structure Inv (c requestMaxBytes : Nat) (valid : Bytes → Prop) (s : Inserting) : Prop where
  size_lt : s.store.batchMaxSize.toNat + c < 2 ^ 32
  bytes_lt : s.store.batchMaxSizeBytes.toNat + c * requestMaxBytes < 2 ^ 32
  calls : CallsOk c requestMaxBytes valid s.store.currentBatch s.calls
  store : StoreOk valid s.store
  counted : ∃ t, Counted s.store s.calls t
  fetched : ∀ out ∈ s.fetched, Within s.store.batchMaxSize s.store.batchMaxSizeBytes out ∧ ∀ e ∈ out, valid e.2

theorem inv_fresh {batchMaxSize batchMaxSizeBytes} (hsize : batchMaxSize.toNat + c < 2 ^ 32)
    (hbytes : batchMaxSizeBytes.toNat + c * requestMaxBytes < 2 ^ 32) :
    (fresh batchMaxSize batchMaxSizeBytes).Inv c requestMaxBytes valid where
  size_lt := hsize
  bytes_lt := hbytes
  calls := ⟨Nat.zero_le _, nofun⟩
  store := ⟨⟨nofun, rfl, nofun⟩, nofun, fun _ _ => nofun⟩
  counted := ⟨⟨0, 0, 0, 0⟩, Packed.Tally.ok_zero, rfl, rfl, le_rfl, le_rfl⟩
  fetched := nofun

/-! ### Calls -/

variable {current : Nat}

section

variable (h : CallsOk c requestMaxBytes valid current (before ++ call :: after))
include h

theorem CallsOk.of_mid : call.value.length ≤ requestMaxBytes ∧ valid call.value ∧ InsertPoint.At current call.point :=
  h.mem call (by simp)

variable {point : InsertPoint}

theorem CallsOk.move (hpoint : InsertPoint.At current point) :
    CallsOk c requestMaxBytes valid current (before ++ { call with point } :: after) where
  length_le := by
    have hle := h.length_le
    simp only [length_append, length_cons] at hle ⊢
    exact hle
  mem := forall_mem_replace h.mem fun hcall => ⟨hcall.1, hcall.2.1, hpoint⟩

theorem CallsOk.leave : CallsOk c requestMaxBytes valid current (before ++ after) where
  length_le := by
    have hle := h.length_le
    simp only [length_append, length_cons] at hle ⊢
    omega
  mem := forall_mem_remove h.mem

end

theorem Counted.move {t} (h : Counted store (before ++ call :: after) t)
    (hover : isOver store { call with point } = isOver store call)
    (hin : isIn store { call with point } = isIn store call) :
    Counted store (before ++ { call with point } :: after) t := by
  obtain ⟨hok, hoverCount, hoverBytes, hcount, hbytes⟩ := h
  refine ⟨hok, ?_, ?_, ?_, ?_⟩
  · exact hoverCount.trans (total_mid_congr hover rfl).symm
  · exact hoverBytes.trans (total_mid_congr hover rfl).symm
  · rwa [total_mid_congr hin rfl]
  · rwa [total_mid_congr hin rfl]

theorem Counted.leave {t} (h : Counted store (before ++ call :: after) t)
    (hover : isOver store call = false) (hin : isIn store call = true) : Counted store (before ++ after) t := by
  obtain ⟨hok, hoverCount, hoverBytes, hcount, hbytes⟩ := h
  rw [total_mid_of_false hover] at hoverCount hoverBytes
  rw [total_mid_of_true hin] at hcount hbytes
  exact ⟨hok, hoverCount, hoverBytes, by omega, by omega⟩

/-! ### Batches -/

variable {b : Nat} {batch : Batch Bytes} {key : String} {value : Bytes}

theorem Queued.update (h : Queued store) (henqueued : batch.enqueued = (store.batches b).enqueued) :
    Queued { store with batches := update store.batches b batch } := by
  have heq : ∀ b', (Function.update store.batches b batch b').enqueued = (store.batches b').enqueued := by
    intro b'
    by_cases hb : b' = b
    · rw [hb, update_self, henqueued]
    · rw [update_of_ne hb]
  exact ⟨fun b' hb' => (heq b').trans (h.enqueued b' hb'), (heq _).trans h.open_current, h.ready_lt⟩

theorem Queued.kept (h : Queued store) (hkept : store.Kept store') : Queued store' := by
  have hcurrent := hkept.currentBatch_eq
  refine ⟨fun b hb => ?_, ?_, fun b hb => ?_⟩
  · exact hkept.enqueued b (h.enqueued b (hcurrent ▸ hb))
  · have hnot : store.currentBatch ∉ store.readyBatches := fun hin => Nat.lt_irrefl _ (h.ready_lt _ hin)
    rw [hcurrent, hkept.untouched _ hnot, h.open_current]
  · rw [hcurrent]
    exact h.ready_lt b (hkept.ready hb)

theorem Queued.renewed (h : Queued store) (hnew : store.Renewed store') : Queued store' := by
  have hcurrent := hnew.currentBatch_eq
  refine ⟨fun b hb => ?_, ?_, fun b hb => ?_⟩
  · have hlt : b < store.currentBatch ∨ b = store.currentBatch := by omega
    exact hnew.enqueued b (by omega) (hlt.imp_left (h.enqueued b))
  · rw [hcurrent, hnew.new]
    rfl
  · rw [hcurrent]
    rcases hnew.ready b hb with hb | rfl
    · exact Nat.lt_succ_of_lt (h.ready_lt b hb)
    · exact Nat.lt_succ_self _

/-- A full batch goes into the queue, or somebody else has put it there and there is a new one. -/
theorem Queued.enqueue_cases (h : Queued store) (hle : b ≤ store.currentBatch) :
    b ≠ store.currentBatch ∧ store.enqueue b = store ∨ b = store.currentBatch ∧ store.Renewed (store.enqueue b) := by
  by_cases henqueued : (store.batches b).enqueued = true
  · refine .inl ⟨?_, if_pos henqueued⟩
    rintro rfl
    rw [h.open_current] at henqueued
    cases henqueued
  · have hcurrent : b = store.currentBatch := by
      by_contra hne
      exact henqueued (h.enqueued b (by omega))
    refine .inr ⟨hcurrent, ?_⟩
    rw [BatchStore.enqueue, if_neg henqueued]
    subst hcurrent
    refine renewed_update ⟨rfl, rfl⟩ rfl rfl fun b hb => ?_
    simpa using hb

section

variable (h : StoreOk valid store)
include h

/-- Something happens to one batch. If it was taken out of use, then no request is added. -/
theorem StoreOk.update (henqueued : batch.enqueued = (store.batches b).enqueued)
    (hold : b < store.currentBatch → (pairs batch.m).Sublist (pairs (store.batches b).m))
    (hvalid : ∀ e ∈ pairs batch.m, e ∈ pairs (store.batches b).m ∨ valid e.2) :
    StoreOk valid { store with batches := update store.batches b batch } := by
  refine ⟨h.toQueued.update henqueued, fun b' hb' => ?_, fun b' hb' e he => ?_⟩
  · by_cases hb : b' = b
    · subst hb
      simp only [update_self]
      exact (h.old b' hb').of_sublist (hold hb')
    · simp only [update_of_ne hb]
      exact h.old b' hb'
  · by_cases hb : b' = b
    · subst hb
      simp only [update_self] at he
      exact (hvalid e he).elim (h.valid b' hb' e) id
    · simp only [update_of_ne hb] at he
      exact h.valid b' hb' e he

theorem StoreOk.addSize (size : UInt32) : StoreOk valid (store.addSize size) :=
  h.update rfl (fun hlt => absurd hlt (Nat.lt_irrefl _)) fun _ => .inl

theorem StoreOk.putRequest (hvalue : valid value) :
    StoreOk valid (store.putRequest store.currentBatch key value) := by
  refine h.update rfl (fun hlt => absurd hlt (Nat.lt_irrefl _)) fun e he => ?_
  simp only [pairs_insert, mem_cons] at he
  rcases he with rfl | he
  · exact .inr hvalue
  · exact .inl (pairs_erase_sublist.subset he)

theorem StoreOk.erase (b : Nat) (key : String) : StoreOk valid { store with
    batches := Function.update store.batches b { store.batches b with m := (store.batches b).m.erase key } } :=
  h.update rfl (fun _ => pairs_erase_sublist) fun _ he => .inl (pairs_erase_sublist.subset he)

theorem StoreOk.kept (hkept : store.Kept store') : StoreOk valid store' := by
  have hcurrent := hkept.currentBatch_eq
  refine ⟨h.toQueued.kept hkept, fun b hb => ?_, fun b hb => ?_⟩
  · rw [hkept.m_eq, hkept.batchMaxSize_eq, hkept.batchMaxSizeBytes_eq]
    exact h.old b (hcurrent ▸ hb)
  · rw [hkept.m_eq]
    exact h.valid b (hcurrent ▸ hb)

theorem StoreOk.renewed (hnew : store.Renewed store')
    (hwithin : Within store.batchMaxSize store.batchMaxSizeBytes (pairs (store.batches store.currentBatch).m)) :
    StoreOk valid store' := by
  have hcurrent := hnew.currentBatch_eq
  have hlt {b : Nat} (hb : b < store'.currentBatch) : b < store.currentBatch ∨ b = store.currentBatch := by omega
  refine ⟨h.toQueued.renewed hnew, fun b hb => ?_, fun b hb e he => ?_⟩
  · rw [hnew.m_eq b (by omega), hnew.batchMaxSize_eq, hnew.batchMaxSizeBytes_eq]
    rcases hlt hb with hb | rfl
    · exact h.old b hb
    · exact hwithin
  · by_cases hb' : b = store'.currentBatch
    · rw [hb', hcurrent, hnew.new] at he
      cases he
    · have hle : b ≤ store.currentBatch := by omega
      rw [hnew.m_eq b hle] at he
      exact h.valid b hle e he

end

/-! ### The counter -/

theorem fits_iff (newSize : UInt64) : store.fits newSize = true ↔
    (Packed.count newSize).toNat ≤ store.batchMaxSize.toNat ∧
      (Packed.bytes newSize).toNat ≤ store.batchMaxSizeBytes.toNat := by
  rw [fits, decide_eq_true_iff, UInt32.le_iff_toNat_le, UInt32.le_iff_toNat_le]

/-- The counter has room for one more call: what is within the limits is below them, and each call that has found the
batch over a limit is still in progress. -/
theorem Inv.room (hs : s.Inv c requestMaxBytes valid) (hcalls : s.calls = before ++ call :: after)
    (hat : call.point = .start) {t} (ht : Counted s.store s.calls t) :
    call.size.toNat = call.value.length ∧ t.count + t.overCount + 1 < 2 ^ 32 ∧
      t.bytes + t.overBytes + call.size.toNat < 2 ^ 32 := by
  have hcallsOk := hs.calls
  have hmany := ht.overCount_eq
  have hmuch := ht.overBytes_eq
  rw [hcalls] at hcallsOk hmany hmuch
  have hstart : isOver s.store call = false := by simp [isOver, hat]
  rw [total_mid_of_false hstart] at hmany hmuch
  have hlength : (before ++ after).length + 1 ≤ c := by
    have hle := hcallsOk.length_le
    simp only [length_append, length_cons] at hle ⊢
    omega
  replace hmany : t.overCount ≤ (before ++ after).length * 1 := hmany ▸ total_le fun _ _ => le_rfl
  replace hmuch : t.overBytes ≤ (before ++ after).length * requestMaxBytes :=
    hmuch ▸ total_le fun other hother => (hcallsOk.leave.mem other hother).1
  have hall : (before ++ after).length * requestMaxBytes + requestMaxBytes ≤ c * requestMaxBytes := by
    rw [← Nat.succ_mul]
    exact Nat.mul_le_mul_right _ hlength
  have hvalue := hcallsOk.of_mid.1
  have hsize_lt := hs.size_lt
  have hbytes_lt := hs.bytes_lt
  have hcount_le := ht.ok.count_le
  have hbytes_le := ht.ok.bytes_le
  have hsize : call.size.toNat = call.value.length := by
    rw [InsertCall.size, UInt32.toNat_ofNat']
    exact Nat.mod_eq_of_lt (by omega)
  rw [hsize]
  omega

theorem batches_addSize (store : BatchStore Bytes) (size : UInt32) :
    (store.addSize size).batches (store.addSize size).currentBatch = { store.batches store.currentBatch with
      sizeBytes := (store.batches store.currentBatch).sizeBytes + Packed.item size } :=
  update_self ..

theorem Inv.counted_add (hs : s.Inv c requestMaxBytes valid) (hcalls : s.calls = before ++ call :: after)
    (hat : call.point = .start) : ∃ t, Counted (s.store.addSize call.size) (before ++ { call with
      point := .added s.store.currentBatch
        ((s.store.addSize call.size).batches s.store.currentBatch).sizeBytes } :: after) t := by
  obtain ⟨t, ht⟩ := hs.counted
  obtain ⟨hsize, hn, hb⟩ := hs.room hcalls hat ht
  obtain ⟨hok, hoverCount, hoverBytes, hcount, hbytes⟩ := ht
  have hnotOver : isOver s.store call = false := by simp [isOver, hat]
  have hnotIn : isIn s.store call = false := by simp [isIn, hat]
  rw [hcalls, total_mid_of_false hnotOver] at hoverCount hoverBytes
  rw [hcalls, total_mid_of_false hnotIn] at hcount hbytes
  have hnew := batches_addSize s.store call.size
  have hsizeBytes : ((s.store.addSize call.size).batches (s.store.addSize call.size).currentBatch).sizeBytes =
      (s.store.batches s.store.currentBatch).sizeBytes + Packed.item call.size := by rw [hnew]
  rw [show (s.store.addSize call.size).batches s.store.currentBatch = _ from hnew]
  cases hfits : s.store.fits ((s.store.batches s.store.currentBatch).sizeBytes + Packed.item call.size) with
  | true =>
    obtain ⟨hsizeFits, hbytesFits⟩ := (fits_iff _).mp hfits
    obtain ⟨-, hok'⟩ := hok.add_within hn hb hsizeFits hbytesFits
    refine ⟨_, hsizeBytes.symm ▸ hok', ?_, ?_, ?_, ?_⟩
    · rw [isOver_addSize, total_mid_of_false (by simp [isOver, hfits]), hoverCount]
    · rw [isOver_addSize, total_mid_of_false (by simp [isOver, hfits]), hoverBytes]
    · rw [isIn_addSize, total_mid_of_true (by simp [isIn, hfits]), hnew]
      simp only
      omega
    · rw [isIn_addSize, total_mid_of_true (by simp [isIn, hfits]), hnew]
      simp only
      omega
  | false =>
    have hnot := mt (fits_iff _).mpr (Bool.eq_false_iff.mp hfits)
    refine ⟨_, hsizeBytes.symm ▸ hok.add_over hn hb hnot, ?_, ?_, ?_, ?_⟩
    · rw [isOver_addSize, total_mid_of_true (by simp [isOver, hfits]), hoverCount]
    · rw [isOver_addSize, total_mid_of_true (by simp [isOver, hfits]), hoverBytes, hsize]
    · rwa [isIn_addSize, total_mid_of_false (by simp [isIn, hfits]), hnew]
    · rwa [isIn_addSize, total_mid_of_false (by simp [isIn, hfits]), hnew]

section

variable (hsize : store'.batchMaxSize = store.batchMaxSize)
  (hbytes : store'.batchMaxSizeBytes = store.batchMaxSizeBytes)
include hsize hbytes

theorem isOver_congr (hcurrent : store'.currentBatch = store.currentBatch) : isOver store' = isOver store := by
  funext call
  unfold isOver fits
  rw [hsize, hbytes, hcurrent]

theorem isIn_congr : isIn store' = isIn store := by
  funext call
  unfold isIn fits
  rw [hsize, hbytes]

end

variable {t : Packed.Tally}

section

variable (h : Counted store calls t)
include h

theorem Counted.of_sublist (hsize : store'.batchMaxSize = store.batchMaxSize)
    (hbytes : store'.batchMaxSizeBytes = store.batchMaxSizeBytes) (hcurrent : store'.currentBatch = store.currentBatch)
    (hsizeBytes : (store'.batches store.currentBatch).sizeBytes = (store.batches store.currentBatch).sizeBytes)
    (hsub : (pairs (store'.batches store.currentBatch).m).Sublist (pairs (store.batches store.currentBatch).m)) :
    Counted store' calls t := by
  have hover := isOver_congr hsize hbytes hcurrent
  have hin := isIn_congr hsize hbytes
  refine ⟨?_, ?_, ?_, ?_, ?_⟩
  · rw [hsize, hbytes, hcurrent, hsizeBytes]
    exact h.ok
  · rw [hover]
    exact h.overCount_eq
  · rw [hover]
    exact h.overBytes_eq
  · rw [hin, hcurrent]
    exact (Nat.add_le_add_right hsub.length_le _).trans h.count_ge
  · rw [hin, hcurrent]
    exact (Nat.add_le_add_right (bytesOf_le_of_sublist hsub) _).trans h.bytes_ge

theorem Counted.kept (hkept : store.Kept store') : Counted store' calls t :=
  h.of_sublist hkept.batchMaxSize_eq hkept.batchMaxSizeBytes_eq hkept.currentBatch_eq (hkept.sizeBytes_eq _)
    (hkept.m_eq _ ▸ Sublist.refl _)

theorem Counted.erase (b : Nat) (key : String) : Counted { store with
    batches := update store.batches b { store.batches b with m := (store.batches b).m.erase key } }
    calls t := by
  by_cases hb : store.currentBatch = b
  · subst hb
    refine h.of_sublist rfl rfl rfl ?_ ?_
    · simp only [update_self]
    · simp only [update_self]
      exact pairs_erase_sublist
  · refine h.of_sublist rfl rfl rfl ?_ ?_
    · simp only [update_of_ne hb]
    · simp only [update_of_ne hb]
      exact Sublist.refl _

theorem Counted.arrive (key : String) (value : Bytes) : Counted store (⟨key, value, .start⟩ :: calls) t := by
  have hover : ∀ w, total (isOver store) w (⟨key, value, .start⟩ :: calls) = total (isOver store) w calls := fun w =>
    @total_mid_of_false [] calls _ _ rfl w
  have hin : ∀ w, total (isIn store) w (⟨key, value, .start⟩ :: calls) = total (isIn store) w calls := fun w =>
    @total_mid_of_false [] calls _ _ rfl w
  refine ⟨h.ok, ?_, ?_, ?_, ?_⟩
  · rw [hover]
    exact h.overCount_eq
  · rw [hover]
    exact h.overBytes_eq
  · rw [hin]
    exact h.count_ge
  · rw [hin]
    exact h.bytes_ge

end

theorem Counted.put (h : Counted store (before ++ call :: after) t) (hat : call.point = .indexed store.currentBatch) :
    Counted (store.putRequest store.currentBatch call.key call.value) (before ++ after) t := by
  obtain ⟨hok, hoverCount, hoverBytes, hcount, hbytes⟩ := h
  rw [total_mid_of_false (by simp [isOver, hat])] at hoverCount hoverBytes
  rw [total_mid_of_true (by simp [isIn, hat])] at hcount hbytes
  let stored := store.putRequest store.currentBatch call.key call.value
  have hnew : stored.batches stored.currentBatch = { store.batches store.currentBatch with
      m := (store.batches store.currentBatch).m.insert call.key call.value } := update_self ..
  have hsizeBytes : (stored.batches stored.currentBatch).sizeBytes = (store.batches store.currentBatch).sizeBytes := by
    rw [hnew]
  have hin : isIn stored = isIn store := isIn_congr rfl rfl
  have hsub := pairs_erase_sublist (m := (store.batches store.currentBatch).m) (k := call.key)
  have hlength := hsub.length_le
  have hsum := bytesOf_le_of_sublist hsub
  refine ⟨hsizeBytes.symm ▸ hok, hoverCount, hoverBytes, ?_, ?_⟩
  · rw [hnew, pairs_insert, length_cons, hin]
    omega
  · rw [hnew, pairs_insert, bytesOf_cons, hin]
    simp only
    omega

theorem counted_renewed (hnew : store.Renewed store') (hlock : ∀ call ∈ calls, call.point.reads = false)
    (hat : ∀ call ∈ calls, InsertPoint.At store.currentBatch call.point) : Counted store' calls ⟨0, 0, 0, 0⟩ := by
  have hover : ∀ call ∈ calls, isOver store' call = false := by
    intro call hcall
    have hreads := hlock call hcall
    have hpoint := hat call hcall
    unfold isOver
    cases hp : call.point with
    | start | indexed => rfl
    | added => simp [hp, InsertPoint.reads] at hreads
    | full currBatch =>
      rw [hp] at hpoint
      have hle : currBatch ≤ store.currentBatch := hpoint
      rw [hnew.currentBatch_eq]
      exact decide_eq_false (by omega)
  have hin : ∀ call ∈ calls, isIn store' call = false := by
    intro call hcall
    have hreads := hlock call hcall
    unfold isIn
    cases hp : call.point with
    | start | full => rfl
    | added | indexed => simp [hp, InsertPoint.reads] at hreads
  have hempty : store'.batches store'.currentBatch = .empty := hnew.currentBatch_eq ▸ hnew.new
  refine ⟨?_, (total_eq_zero hover _).symm, (total_eq_zero hover _).symm, ?_, ?_⟩
  · rw [hempty]
    exact Packed.Tally.ok_zero
  · rw [hempty, total_eq_zero hin]
    exact le_rfl
  · rw [hempty, total_eq_zero hin]
    exact le_rfl

theorem InsertPoint.At.renewed (hat : InsertPoint.At current point)
    (hreads : point.reads = false) : InsertPoint.At (current + 1) point := by
  cases point with
  | start => trivial
  | added | indexed => cases hreads
  | full => exact Nat.le_succ_of_le hat

theorem CallsOk.renewed (h : CallsOk c requestMaxBytes valid current calls)
    (hlock : ∀ call ∈ calls, call.point.reads = false) : CallsOk c requestMaxBytes valid (current + 1) calls where
  length_le := h.length_le
  mem call hcall := by
    obtain ⟨hle, hvalid, hat⟩ := h.mem call hcall
    exact ⟨hle, hvalid, hat.renewed (hlock call hcall)⟩

/-! ### Steps -/

section

variable (hs : s.Inv c requestMaxBytes valid)
include hs

theorem Inv.move (hcalls : s.calls = before ++ call :: after)
    (point : InsertPoint) (hat : InsertPoint.At s.store.currentBatch point)
    (hover : isOver s.store { call with point } = isOver s.store call)
    (hin : isIn s.store { call with point } = isIn s.store call) :
    Inv c requestMaxBytes valid { s with calls := before ++ { call with point } :: after } := by
  obtain ⟨hsize, hbytes, hcallsOk, hstore, ⟨t, ht⟩, hfetched⟩ := hs
  rw [hcalls] at hcallsOk ht
  exact ⟨hsize, hbytes, hcallsOk.move hat, hstore, ⟨t, ht.move hover hin⟩, hfetched⟩

theorem Inv.index (keys2Batches : String → Option Nat) (deleting) :
    Inv c requestMaxBytes valid { s with store := { s.store with keys2Batches }, deleting } := by
  obtain ⟨hsize, hbytes, hcallsOk, hstore, ⟨t, ht⟩, hfetched⟩ := hs
  obtain ⟨⟨henqueued, hopen, hready⟩, hold, hvalid⟩ := hstore
  exact ⟨hsize, hbytes, hcallsOk, ⟨⟨henqueued, hopen, hready⟩, hold, hvalid⟩,
    ⟨t, ht.of_sublist rfl rfl rfl rfl (Sublist.refl _)⟩, hfetched⟩

theorem Inv.renewed (hlock : s.Unlocked) (hnew : s.store.Renewed store') :
    Inv c requestMaxBytes valid { s with store := store' } := by
  obtain ⟨hsize, hbytes, hcallsOk, hstore, ⟨t, ht⟩, hfetched⟩ := hs
  have hsizeEq := hnew.batchMaxSize_eq
  have hbytesEq := hnew.batchMaxSizeBytes_eq
  refine ⟨hsizeEq ▸ hsize, hbytesEq ▸ hbytes, ?_, hstore.renewed hnew ht.within, ?_, ?_⟩
  · rw [hnew.currentBatch_eq]
    exact hcallsOk.renewed hlock
  · exact ⟨_, counted_renewed hnew hlock fun call hcall => (hcallsOk.mem call hcall).2.2⟩
  · rw [hsizeEq, hbytesEq]
    exact hfetched

theorem Inv.kept (hkept : s.store.Kept store') : Inv c requestMaxBytes valid { s with store := store' } := by
  obtain ⟨hsize, hbytes, hcallsOk, hstore, ⟨t, ht⟩, hfetched⟩ := hs
  have hsizeEq := hkept.batchMaxSize_eq
  have hbytesEq := hkept.batchMaxSizeBytes_eq
  refine ⟨hsizeEq ▸ hsize, hbytesEq ▸ hbytes, hkept.currentBatch_eq ▸ hcallsOk, hstore.kept hkept,
    ⟨t, ht.kept hkept⟩, ?_⟩
  rw [hsizeEq, hbytesEq]
  exact hfetched

theorem Inv.enqueue {currBatch}
    (hcalls : s.calls = before ++ call :: after) (hat : call.point = .full currBatch) (hlock : s.Unlocked) :
    Inv c requestMaxBytes valid { s with
      store := s.store.enqueue currBatch
      calls := before ++ { call with point := .start } :: after } := by
  have hle : currBatch ≤ s.store.currentBatch := by
    have hpoint := (hs.calls.mem call (hcalls ▸ mem_append_cons_self)).2.2
    rwa [hat] at hpoint
  have hnotIn : isIn (s.store.enqueue currBatch) call = false := by simp [isIn, hat]
  rcases hs.store.toQueued.enqueue_cases hle with ⟨hne, hsame⟩ | ⟨hcurrent, hnew⟩
  · have hnotOver : isOver (s.store.enqueue currBatch) call = false := by simp [hsame, isOver, hat, hne]
    have hs' : Inv c requestMaxBytes valid { s with store := s.store.enqueue currBatch } := hsame.symm ▸ hs
    exact hs'.move hcalls .start trivial hnotOver.symm hnotIn.symm
  · have hne : currBatch ≠ (s.store.enqueue currBatch).currentBatch := by
      rw [hnew.currentBatch_eq]
      omega
    have hnotOver : isOver (s.store.enqueue currBatch) call = false := by simp [isOver, hat, hne]
    exact (hs.renewed hlock hnew).move hcalls .start trivial hnotOver.symm hnotIn.symm

end

theorem StoreOk.prepareBatch (h : StoreOk valid store) {t} (ht : Counted store calls t)
    (o) (hb : b ≤ store.currentBatch) :
    Within store.batchMaxSize store.batchMaxSizeBytes (store.prepareBatch o b) ∧
      ∀ e ∈ store.prepareBatch o b, valid e.2 := by
  have hperm := o.perm (pairs (store.batches b).m)
  have hwithin : Within store.batchMaxSize store.batchMaxSizeBytes (pairs (store.batches b).m) := by
    rcases Nat.lt_or_eq_of_le hb with hlt | rfl
    · exact h.old b hlt
    · exact ht.within
  refine ⟨⟨?_, ?_⟩, fun e he => h.valid b hb e (hperm.mem_iff.mp he)⟩
  · exact hperm.length_eq ▸ hwithin.length_le
  · rw [bytesOf, BatchStore.prepareBatch, (hperm.map _).sum_eq]
    exact hwithin.bytes_le

theorem Inv.fetch (hs : s.Inv c requestMaxBytes valid) {out o}
    (hlock : s.Unlocked) (hfetch : s.store.fetch o = (out, store)) :
    Inv c requestMaxBytes valid { s with store, fetched := out :: s.fetched } := by
  have hprepare {b : Nat} (hb : b ≤ s.store.currentBatch) := hs.store.prepareBatch hs.counted.choose_spec o hb
  have hcases : Inv c requestMaxBytes valid { s with store } ∧
      (store.batchMaxSize = s.store.batchMaxSize ∧ store.batchMaxSizeBytes = s.store.batchMaxSizeBytes) ∧
      Within s.store.batchMaxSize s.store.batchMaxSizeBytes out ∧ ∀ e ∈ out, valid e.2 := by
    rcases fetch_cases hfetch with ⟨hkept, hout⟩ | ⟨hnew, rfl⟩
    · refine ⟨hs.kept hkept, ⟨hkept.batchMaxSize_eq, hkept.batchMaxSizeBytes_eq⟩, ?_⟩
      rcases hout with rfl | ⟨b, hb, rfl⟩
      · exact ⟨⟨Nat.zero_le _, Nat.zero_le _⟩, nofun⟩
      · exact hprepare (Nat.le_of_lt (hs.store.ready_lt b hb))
    · exact ⟨hs.renewed hlock hnew, ⟨hnew.batchMaxSize_eq, hnew.batchMaxSizeBytes_eq⟩, hprepare le_rfl⟩
  obtain ⟨hs', ⟨hsize, hbytes⟩, hout⟩ := hcases
  refine ⟨hs'.size_lt, hs'.bytes_lt, hs'.calls, hs'.store, hs'.counted, fun other hother => ?_⟩
  rcases mem_cons.mp hother with rfl | hother
  · rw [hsize, hbytes]
    exact hout
  · exact hs'.fetched other hother

/-- **A step keeps the invariant.** -/
theorem Step.inv (h : Step c valid s s') (hs : s.Inv c requestMaxBytes valid)
    (hmax : ∀ value, valid value → value.length ≤ requestMaxBytes) : s'.Inv c requestMaxBytes valid := by
  obtain ⟨t, ht⟩ := hs.counted
  cases h with
  | @call key value hroom hvalue =>
    refine ⟨hs.size_lt, hs.bytes_lt, ⟨hroom, fun other hother => ?_⟩, hs.store, ⟨t, ht.arrive key value⟩, hs.fetched⟩
    rcases mem_cons.mp hother with rfl | hother
    · exact ⟨hmax value hvalue, hvalue, trivial⟩
    · exact hs.calls.mem other hother
  | add hcalls hat =>
    refine ⟨hs.size_lt, hs.bytes_lt, ?_, hs.store.addSize _, hs.counted_add hcalls hat, hs.fetched⟩
    exact (hcalls ▸ hs.calls).move rfl
  | known hcalls hat hfits =>
    rw [hcalls] at ht
    have hcounted := ht.leave (by simp [isOver, hat, hfits]) (by simp [isIn, hat, hfits])
    exact ⟨hs.size_lt, hs.bytes_lt, (hcalls ▸ hs.calls).leave, hs.store, ⟨t, hcounted⟩, hs.fetched⟩
  | @index _ _ call currBatch _ hcalls hat hfits =>
    have hpoint : currBatch = s.store.currentBatch := by
      have hpoint := (hcalls ▸ hs.calls).of_mid.2.2
      rwa [hat] at hpoint
    have hkeyed := hs.index (update s.store.keys2Batches call.key (some currBatch)) s.deleting
    refine hkeyed.move hcalls (.indexed currBatch) hpoint ?_ ?_
    · simp [isOver, hat, fits] at hfits ⊢
      exact hfits
    · simp [isIn, hat, fits] at hfits ⊢
      exact hfits
  | @put _ _ _ currBatch hcalls hat =>
    obtain ⟨-, hvalue, hpoint⟩ := (hcalls ▸ hs.calls).of_mid
    rw [hat] at hpoint
    obtain rfl : currBatch = s.store.currentBatch := hpoint
    exact ⟨hs.size_lt, hs.bytes_lt, (hcalls ▸ hs.calls).leave, hs.store.putRequest hvalue, ⟨t, (hcalls ▸ ht).put hat⟩,
      hs.fetched⟩
  | giveUp hcalls hat hfull =>
    have hpoint := (hcalls ▸ hs.calls).of_mid.2.2
    rw [hat] at hpoint
    have hcurrent : _ = s.store.currentBatch := hpoint
    refine hs.move hcalls (.full _) (Nat.le_of_eq hcurrent) ?_ ?_
    · simp [isOver, hat, hfull, hcurrent]
    · simp [isIn, hat, hfull]
  | enqueue hcalls hat hlock => exact hs.enqueue hcalls hat hlock
  | fetch _ hlock hfetch => exact hs.fetch hlock hfetch
  | unindex => exact hs.index _ _
  | delete =>
    exact ⟨hs.size_lt, hs.bytes_lt, hs.calls, hs.store.erase _ _, ⟨t, ht.erase _ _⟩, hs.fetched⟩

theorem Step.limits (h : Step c valid s s') : s'.store.batchMaxSize = s.store.batchMaxSize ∧
    s'.store.batchMaxSizeBytes = s.store.batchMaxSizeBytes := by
  cases h with
  | @enqueue _ _ _ currBatch =>
    by_cases henqueued : (s.store.batches currBatch).enqueued = true <;> simp [BatchStore.enqueue, henqueued]
  | fetch _ _ hfetch =>
    rcases fetch_cases hfetch with ⟨hkept, -⟩ | ⟨hnew, -⟩
    · exact ⟨hkept.batchMaxSize_eq, hkept.batchMaxSizeBytes_eq⟩
    · exact ⟨hnew.batchMaxSize_eq, hnew.batchMaxSizeBytes_eq⟩
  | _ => exact ⟨rfl, rfl⟩

variable {batchMaxSize batchMaxSizeBytes : UInt32}

section

variable (hrun : Run c valid (fresh batchMaxSize batchMaxSizeBytes) s)
  (hmax : ∀ value, valid value → value.length ≤ requestMaxBytes) (hsize : batchMaxSize.toNat + c < 2 ^ 32)
  (hbytes : batchMaxSizeBytes.toNat + c * requestMaxBytes < 2 ^ 32)
include hrun hmax hsize hbytes

theorem Run.inv : s.Inv c requestMaxBytes valid ∧ s.store.batchMaxSize = batchMaxSize ∧
      s.store.batchMaxSizeBytes = batchMaxSizeBytes := by
  induction hrun with
  | refl => exact ⟨inv_fresh hsize hbytes, rfl, rfl⟩
  | tail _ hstep ih =>
    obtain ⟨hs, hsizeEq, hbytesEq⟩ := ih
    exact ⟨hstep.inv hs hmax, hstep.limits.1.trans hsizeEq, hstep.limits.2.trans hbytesEq⟩

/-- **Every batch that is fetched is within the limits**, whatever the calls of `Insert`, `Fetch` and `Remove`. -/
theorem fetched_within {out}
    (hout : out ∈ s.fetched) : Within batchMaxSize batchMaxSizeBytes out ∧ ∀ e ∈ out, valid e.2 := by
  obtain ⟨hs, rfl, rfl⟩ := hrun.inv hmax hsize hbytes
  exact hs.fetched out hout

end

/-! ## An insert alone -/

theorem run_insertOnce (hcalls : s.calls = [⟨key, value, .start⟩]) {found}
    (h : s.store.insertOnce key value (UInt32.ofNat value.length) = (found, store)) :
    Run c valid s { s with store, calls := if found.isSome then [] else [⟨key, value, .start⟩] } := by
  have hadd := @Step.add c valid s [] [] _ hcalls rfl
  refine .head hadd ?_
  unfold insertOnce at h
  simp only at h
  split at h
  · next hfits =>
    split at h
    · next b hkey =>
      cases h
      exact .single (@Step.known c valid _ [] [] _ _ b _ rfl rfl hfits hkey)
    · next hkey =>
      cases h
      refine .head (@Step.index c valid _ [] [] _ _ _ rfl rfl hfits hkey) ?_
      exact .single (@Step.put c valid _ [] [] ⟨key, value, .indexed s.store.currentBatch⟩ _ rfl rfl)
  · next hfull =>
    cases h
    refine .head (@Step.giveUp c valid _ [] [] _ _ _ rfl rfl (Bool.eq_false_iff.mpr hfull)) ?_
    refine .single (@Step.enqueue c valid _ [] [] ⟨key, value, .full s.store.currentBatch⟩ _ rfl rfl ?_)
    intro call hcall
    obtain rfl := mem_singleton.mp hcall
    rfl

/-- **An `Insert` that nobody interferes with does what `BatchStore.insert` says.** -/
theorem run_insert (hc : 0 < c) (hvalue : valid value) (hcalls : s.calls = []) {inserted}
    (h : s.store.insert key value (UInt32.ofNat value.length) = some (inserted, store)) :
    Run c valid s { s with store } := by
  have hroom : s.calls.length < c := hcalls ▸ hc
  refine .head (@Step.call c valid s key value hroom hvalue) ?_
  rw [hcalls]
  unfold BatchStore.insert at h
  split at h
  · next found store₁ honce =>
    cases h
    have hrun : Run c valid { s with calls := [⟨key, value, .start⟩] } _ := run_insertOnce rfl honce
    exact hrun
  · next store₁ honce =>
    split at h
    · next found store₂ htwice =>
      cases h
      have hfirst : Run c valid { s with calls := [⟨key, value, .start⟩] } _ := run_insertOnce rfl honce
      have hsecond : Run c valid { s with store := store₁, calls := [⟨key, value, .start⟩] } _ :=
        run_insertOnce rfl htwice
      exact hfirst.trans hsecond
    · cases h

end Inserting

end Arma
