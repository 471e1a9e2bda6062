import Arma.Config.Safety
import Arma.Request.Pool
import Arma.Request.Tracked

/-!
# Whether an insert returns

`Insert` (`request/batchstore.go`) tries the current batch, puts it into the queue if it is over a limit, and tries
again. Whether it ever returns depends on three limits: `MaxMessageCount` and `AbsoluteMaxBytes` of a batch, and
`RequestMaxBytes`, up to which `Submit` lets a request through.

* `ValidateNewConfig` compares `AbsoluteMaxBytes` with the orderer group and `RequestMaxBytes` with SmartBFT's. It does
  not compare them with each other, and does not look at `MaxMessageCount`.
* **`oversized_request_never_inserted`**: with an accepted configuration, `Insert` loops for ever and puts one empty
  batch after the other into the queue.
* **`insert_returns_iff`**: `Insert` returns exactly if the current batch or an empty one has room for the request, and
  then in its second turn at the latest. With limits that fit each other, an empty batch has.
-/

namespace Arma

open Arma.Lib Outcome

/-! ## The loop -/

namespace BatchStore

variable {ν : Type} {s s' : BatchStore ν} {key : String} {value : ν} {size : UInt32}

/-- The loop of `Insert`, for so many turns. -/
def insertLoop (key : String) (value : ν) (size : UInt32) : Nat → BatchStore ν → Option (Bool × BatchStore ν)
  | 0, _ => none
  | n + 1, s =>
    match s.insertOnce key value size with
    | (some inserted, s') => some (inserted, s')
    | (none, s') => insertLoop key value size n s'

theorem insert_eq_insertLoop : s.insert key value size = insertLoop key value size 2 s := by
  unfold insert insertLoop
  cases s.insertOnce key value size with
  | mk result s' =>
    cases result with
    | some inserted => rfl
    | none =>
      unfold insertLoop
      cases s'.insertOnce key value size with
      | mk result s'' => cases result <;> rfl

theorem fits_item : s.fits (Packed.item size) = true ↔
    0 < s.batchMaxSize.toNat ∧ size.toNat ≤ s.batchMaxSizeBytes.toNat := by
  have hsize := size.toNat_lt
  have hpacks : Packed.Packs (0 + Packed.item size) (0 + 1) (0 + size.toNat) :=
    Packed.packs_zero.add (by decide) (by omega)
  rw [UInt64.zero_add] at hpacks
  rw [fits, decide_eq_true_iff, UInt32.le_iff_toNat_le, UInt32.le_iff_toNat_le, hpacks.count_eq, hpacks.bytes_eq,
    Nat.zero_add, Nat.zero_add, Nat.succ_le_iff]

/-- The current batch has room for a request of this size, as its counter says, or an empty batch has. -/
def HasRoom (s : BatchStore ν) (size : UInt32) : Prop :=
  s.fits ((s.batches s.currentBatch).sizeBytes + Packed.item size) = true ∨ s.fits (Packed.item size) = true

theorem isSome_insertOnce (s : BatchStore ν) (key : String) (value : ν) (size : UInt32) :
    (s.insertOnce key value size).1.isSome = s.fits ((s.batches s.currentBatch).sizeBytes + Packed.item size) := by
  have hsize : ((s.addSize size).batches s.currentBatch).sizeBytes =
      (s.batches s.currentBatch).sizeBytes + Packed.item size := by simp [addSize]
  unfold insertOnce
  simp only [hsize]
  have hfits (w) : (s.addSize size).fits w = s.fits w := rfl
  rw [hfits]
  cases s.fits ((s.batches s.currentBatch).sizeBytes + Packed.item size) with
  | false => rfl
  | true => cases hkey : s.keys2Batches key <;> rfl

theorem isSome_insertOnce_empty (hempty : s.batches s.currentBatch = .empty) (key : String) (value : ν)
    (size : UInt32) : (s.insertOnce key value size).1.isSome = s.fits (Packed.item size) := by
  rw [isSome_insertOnce, hempty, Batch.empty, UInt64.zero_add]

/-- **The loop never ends** if an empty batch has no room. -/
theorem insertLoop_eq_none (hempty : s.batches s.currentBatch = .empty)
    (hfits : s.fits (Packed.item size) = false) (n : Nat) : insertLoop key value size n s = none := by
  induction n generalizing s with
  | zero => rfl
  | succ n ih =>
    have hreturns := isSome_insertOnce_empty hempty key value size
    cases hturn : s.insertOnce key value size with
    | mk found s' =>
      rw [hturn, hfits] at hreturns
      obtain rfl : found = none := Option.not_isSome_iff_eq_none.mp (Bool.eq_false_iff.mp hreturns)
      obtain ⟨hempty', -, hcount, hbytes⟩ := insertOnce_eq_none (by rw [hempty]; rfl) hturn
      rw [insertLoop, hturn]
      exact ih hempty' (by rw [fits, hcount, hbytes]; exact hfits)

/-- The loop returns in its second turn at the latest, and has put the current batch into the queue or none. -/
def InsertReturns (key : String) (value : ν) (size : UInt32) (s : BatchStore ν) : Prop :=
  ∃ inserted s', (∀ n, 2 ≤ n → insertLoop key value size n s = some (inserted, s')) ∧
    (s'.readyBatches = s.readyBatches ∨ s'.readyBatches = s.readyBatches ++ [s.currentBatch])

/-- **When the loop ends**: if it does not find room in its first turn, it starts the second one with an empty batch. -/
theorem insertReturns_iff (hopen : (s.batches s.currentBatch).enqueued = false) :
    InsertReturns key value size s ↔ s.HasRoom size := by
  have hturn (n : Nat) (hn : 2 ≤ n) : ∃ m, n = m + 1 + 1 := ⟨n - 2, by omega⟩
  have hcurrent := isSome_insertOnce s key value size
  unfold HasRoom
  rw [← hcurrent]
  cases hfirst : s.insertOnce key value size with
  | mk found s₁ =>
    cases found with
    | some inserted =>
      refine iff_of_true ⟨inserted, s₁, fun n hn => ?_, .inl (insertOnce_eq_some hfirst)⟩ (.inl rfl)
      obtain ⟨m, rfl⟩ := hturn n hn
      rw [insertLoop, hfirst]
    | none =>
      obtain ⟨hempty, hready, hcount, hbytes⟩ := insertOnce_eq_none hopen hfirst
      have hfits : s₁.fits (Packed.item size) = s.fits (Packed.item size) := by rw [fits, hcount, hbytes, fits]
      have hloop (n : Nat) : insertLoop key value size (n + 1) s = insertLoop key value size n s₁ := by
        rw [insertLoop, hfirst]
      cases hroom : s.fits (Packed.item size) with
      | false =>
        refine iff_of_false ?_ (by simp)
        rintro ⟨inserted, s', hreturns, -⟩
        have hnone := hloop 1 ▸ hreturns 2 le_rfl
        rw [insertLoop_eq_none hempty (hfits.trans hroom)] at hnone
        cases hnone
      | true =>
        refine iff_of_true ?_ (.inr rfl)
        have hreturns := isSome_insertOnce_empty hempty key value size
        cases hsecond : s₁.insertOnce key value size with
        | mk found s₂ =>
          rw [hsecond, hfits, hroom] at hreturns
          obtain ⟨inserted, rfl⟩ := Option.isSome_iff_exists.mp hreturns
          refine ⟨inserted, s₂, fun n hn => ?_, .inr ((insertOnce_eq_some hsecond).trans hready)⟩
          obtain ⟨m, rfl⟩ := hturn n hn
          rw [hloop, insertLoop, hsecond]

end BatchStore

/-! ## The limits of a configuration -/

open Verify

/-- What `createMemPool` gets from `ExtractBatcherConfig`, which follows the shared config without a check. -/
def memPoolOptions (sharedConfig : SharedConfig) (memPoolMaxSize : Nat) : Outcome PoolOptions := do
  let batchingConfig ← deref sharedConfig.batchingConfig
  let batchSize ← deref batchingConfig.batchSize
  return {
    maxSize := memPoolMaxSize
    batchMaxSize := batchSize.maxMessageCount
    batchMaxSizeBytes := batchSize.absoluteMaxBytes
    requestMaxBytes := batchingConfig.requestMaxBytes.toNat }

variable {L : Libraries} {conf : Configuration L}

theorem memPoolOptions_of_accepted (haccepted : conf.Accepted) (memPoolMaxSize : Nat) :
    ∃ options, memPoolOptions conf.sharedConfig memPoolMaxSize = .ok options := by
  obtain ⟨rt, partyID, hpasses⟩ := haccepted.passes
  obtain ⟨batching, batchSize, bft, hbatching⟩ := hpasses.batching
  unfold memPoolOptions
  rw [hbatching.batchingConfig]
  simp only [deref, ok_bind, hbatching.batchSize_eq]
  exact ⟨_, rfl⟩

/-- A batch store with these limits can be in this state, whatever calls were made before. -/
def PoolOptions.Reaches (options : PoolOptions) (store : BatchStore Bytes) : Prop :=
  ∃ c valid s, Inserting.Run c valid (.fresh options.batchMaxSize options.batchMaxSizeBytes) s ∧ s.store = store

theorem PoolOptions.Reaches.queued {options : PoolOptions} {store} (h : options.Reaches store) :
    Inserting.Queued store ∧ store.batchMaxSize = options.batchMaxSize ∧
      store.batchMaxSizeBytes = options.batchMaxSizeBytes := by
  obtain ⟨c, valid, s, hrun, rfl⟩ := h
  refine ⟨hrun.placed.queued, ?_⟩
  induction hrun with
  | refl => exact ⟨rfl, rfl⟩
  | tail _ hstep ih => exact ⟨hstep.limits.1.trans ih.1, hstep.limits.2.trans ih.2⟩

/-- **When an `Insert` returns**: in every state of a batch store with the limits of an accepted configuration, and for
every request that `Submit` lets through, exactly if there is room for it. There always is if a batch may have one
message and a request is at most as long as a batch. -/
theorem insert_returns_iff (haccepted : conf.Accepted) (memPoolMaxSize : Nat) :
    ∃ options, memPoolOptions conf.sharedConfig memPoolMaxSize = .ok options ∧
      ∀ store, options.Reaches store → ∀ (key : String) (request : Bytes), request.length ≤ options.requestMaxBytes →
        (BatchStore.InsertReturns key request (UInt32.ofNat request.length) store ↔
          store.HasRoom (UInt32.ofNat request.length)) ∧
        (0 < options.batchMaxSize.toNat → options.requestMaxBytes ≤ options.batchMaxSizeBytes.toNat →
          store.HasRoom (UInt32.ofNat request.length)) := by
  obtain ⟨options, hoptions⟩ := memPoolOptions_of_accepted haccepted memPoolMaxSize
  refine ⟨options, hoptions, fun store hreaches key request hrequest => ?_⟩
  obtain ⟨hqueued, hsize, hsizeBytes⟩ := hreaches.queued
  refine ⟨BatchStore.insertReturns_iff hqueued.open_current, fun hcount hbytes => .inr ?_⟩
  have hlt := options.batchMaxSizeBytes.toNat_lt
  rw [BatchStore.fits_item, hsize, hsizeBytes, UInt32.toNat_ofNat', Nat.mod_eq_of_lt (by omega)]
  exact ⟨hcount, hrequest.trans hbytes⟩

/-! ## Configurations that are accepted -/

/-- Party 1 alone, with these limits. -/
def limitsLibraries (batchSize : BatchSize) (requestMaxBytes : UInt64) : Libraries :=
  { refLibraries [([refParty 1 [1]], 1)] with
    unmarshalSharedConfig := fun _ => .ok { refShared [refParty 1 [1]] 1 with
      consensusConfig := some ⟨some { refSmartBFT with requestBatchMaxBytes := 10000, requestMaxBytes }⟩
      batchingConfig := some ⟨some ⟨"1s", "1s", "1s", "1s"⟩, some batchSize, requestMaxBytes⟩ } }

def limitsConfiguration (batchSize : BatchSize) (requestMaxBytes : UInt64) :
    Configuration (limitsLibraries batchSize requestMaxBytes) where
  bundle := refBundle [0] [refParty 1 [1]]
  ordererConfig := refOrderer [0] [refParty 1 [1]]
  sharedConfig := _
  ordererConfig_eq := rfl
  sharedConfig_eq := rfl

theorem limitsConfiguration_accepted {batchSize requestMaxBytes}
    (hnew : validateNewConfig (limitsLibraries batchSize requestMaxBytes) refRuntime ⟨[0], []⟩ 1 = .ok ()) :
    (limitsConfiguration batchSize requestMaxBytes).Accepted := ⟨refRuntime, _, 1, rfl, hnew⟩

/-- A second request comes into a batch that has a first one. -/
theorem insert_of_hundred_bytes_returns :
    (limitsConfiguration ⟨10, 1000⟩ 100).Accepted ∧ ∃ store, (⟨5, 10, 1000, 100⟩ : PoolOptions).Reaches store ∧
      store.keys2Batches "a" = some 0 ∧ BatchStore.InsertReturns "b" ([8] : Bytes) 1 store := by
  have haccepted : (limitsConfiguration ⟨10, 1000⟩ 100).Accepted := limitsConfiguration_accepted rfl
  obtain ⟨options, hoptions, hreturns⟩ := insert_returns_iff haccepted 5
  obtain rfl : ⟨5, 10, 1000, 100⟩ = options := Except.ok.inj hoptions
  have hinsert : (newBatchStore 10 1000 : BatchStore Bytes).insert "a" [7] 1 = some _ := rfl
  have hreaches : (⟨5, 10, 1000, 100⟩ : PoolOptions).Reaches _ :=
    ⟨1, fun _ => True, _, Inserting.run_insert (by decide) trivial rfl hinsert, rfl⟩
  obtain ⟨hiff, hroom⟩ := hreturns _ hreaches "b" [8] (by decide)
  exact ⟨haccepted, _, hreaches, rfl, hiff.mpr (hroom (by decide) (by decide))⟩

/-- **A request that is longer than a batch may be** is let through by `Submit`, and `Insert` never returns. -/
theorem oversized_request_never_inserted : (limitsConfiguration ⟨10, 1000⟩ 2000).Accepted ∧
      ∃ options, memPoolOptions (limitsConfiguration ⟨10, 1000⟩ 2000).sharedConfig 5 = .ok options ∧
        ∃ store, options.Reaches store ∧ ∃ request : Bytes, request.length ≤ options.requestMaxBytes ∧
          ∀ n, BatchStore.insertLoop "a" request (UInt32.ofNat request.length) n store = none := by
  refine ⟨limitsConfiguration_accepted rfl, _, rfl, _, ⟨0, fun _ => True, _, .refl, rfl⟩, List.replicate 1001 7, ?_, ?_⟩
  · rw [List.length_replicate]
    decide
  · rw [List.length_replicate]
    exact BatchStore.insertLoop_eq_none rfl (by decide)

end Arma
