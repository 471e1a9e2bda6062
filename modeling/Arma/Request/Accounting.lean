import Arma.Request.Limits

/-!
# The capacity of the mem pool

Each request in the pool holds a permit of its semaphore, and the pool counts its requests. Permits, the count, the
index and the batches or buckets are changed in different places of `request/pool.go`.

* `Occupies`: an id holds a permit. In the pending store these are the ids of the requests in it. In the batch store
  they are all ids of the index, those of batches that were fetched and not removed among them.
* `Sound`: there are as many of them as permits are given out, and as the pool counts. Every call keeps this
  (`Call.sound`).

**`restart_accounts`**: after a `Restart`, the permits are those of the requests that can still be taken out, which are
all that were not fetched. The exception is a pool that was batching and goes on batching: `Restart` does nothing then,
and the ids of a batch that was fetched and not removed stay in the index for ever.
-/

namespace Arma

open Arma.Lib List Function PoolStore BatchStore Holdings

/-! ## Counters that do not overflow -/

variable {n : Nat}

namespace BatchStore

variable {ν : Type} {s s' : BatchStore ν} {o : RangeOrder String ν} {key : String} {value : ν} {size : UInt32}
  {maxSize maxBytes : UInt32}

/-- The limits of the store, and a counter of the current batch that is at most a little over them, so that it is not at
zero when something is in the batch. -/
structure Tallied (maxSize maxBytes : UInt32) (s : BatchStore ν) : Prop where
  batchMaxSize_eq : s.batchMaxSize = maxSize
  batchMaxSizeBytes_eq : s.batchMaxSizeBytes = maxBytes
  lt : (s.batches s.currentBatch).sizeBytes.toNat < (maxSize.toNat + 1) * 2 ^ 32
  zero : maxSize.toNat + 3 ≤ 2 ^ 32 → (s.batches s.currentBatch).sizeBytes = 0 → (s.batches s.currentBatch).m = ∅

theorem tallied_of_empty (hsize : s.batchMaxSize = maxSize) (hbytes : s.batchMaxSizeBytes = maxBytes)
    (h : s.batches s.currentBatch = .empty) : s.Tallied maxSize maxBytes := by
  have hzero : (0 : UInt64).toNat = 0 := rfl
  refine ⟨hsize, hbytes, ?_, fun _ _ => ?_⟩
  · simp only [h, Batch.empty, hzero]
    omega
  · rw [h]
    rfl

section

variable (h : s.Tallied maxSize maxBytes)
include h

theorem Tallied.add (hfits : Packed.count ((s.batches s.currentBatch).sizeBytes +
      Packed.item size) ≤ maxSize) (hsize : s'.batchMaxSize = s.batchMaxSize)
    (hbytes : s'.batchMaxSizeBytes = s.batchMaxSizeBytes)
    (hword : (s'.batches s'.currentBatch).sizeBytes = (s.batches s.currentBatch).sizeBytes + Packed.item size) :
    s'.Tallied maxSize maxBytes := by
  have hlt := h.lt
  have hitem := Packed.toNat_item size
  have hsizeLt := size.toNat_lt
  rw [UInt32.le_iff_toNat_le, Packed.toNat_count] at hfits
  refine ⟨hsize.trans h.batchMaxSize_eq, hbytes.trans h.batchMaxSizeBytes_eq, ?_, fun hroom hzero => ?_⟩
  · rw [hword]
    omega
  · rw [hword] at hzero
    have hsum := congrArg UInt64.toNat hzero
    have hnone : (0 : UInt64).toNat = 0 := rfl
    rw [UInt64.toNat_add, hitem, hnone] at hsum
    omega

theorem Tallied.insertOnce (hopen : (s.batches s.currentBatch).enqueued = false)
    {result} (hinsert : s.insertOnce key value size = (result, s')) : s'.Tallied maxSize maxBytes := by
  cases result with
  | none =>
    obtain ⟨hempty, -, hsize, hbytes⟩ := insertOnce_eq_none hopen hinsert
    exact tallied_of_empty (hsize.trans h.batchMaxSize_eq) (hbytes.trans h.batchMaxSizeBytes_eq) hempty
  | some inserted =>
    unfold BatchStore.insertOnce at hinsert
    simp only at hinsert
    split at hinsert
    · next hfits =>
      have hword : ((s.addSize size).batches s.currentBatch).sizeBytes =
          (s.batches s.currentBatch).sizeBytes + Packed.item size := by simp [addSize]
      have hcount := (of_decide_eq_true hfits).1
      have hmax : (s.addSize size).batchMaxSize = maxSize := h.batchMaxSize_eq
      rw [hword, hmax] at hcount
      split at hinsert
      · cases hinsert
        exact h.add hcount rfl rfl hword
      · cases hinsert
        refine h.add hcount rfl rfl ?_
        simp [putRequest, setKey, addSize]
    · cases hinsert

theorem Tallied.insert (hs : s.Inv) {inserted}
    (hinsert : s.insert key value size = some (inserted, s')) : s'.Tallied maxSize maxBytes := by
  unfold BatchStore.insert at hinsert
  split at hinsert
  · next first s₁ hfirst =>
    cases hinsert
    exact h.insertOnce hs.open_current hfirst
  · next s₁ hfirst =>
    have htallied := h.insertOnce hs.open_current hfirst
    split at hinsert
    · next second s₂ hsecond =>
      cases hinsert
      exact htallied.insertOnce (hs.insertOnce hfirst).1.open_current hsecond
    · cases hinsert

theorem Tallied.fetch {out} (hfetch : s.fetch o = (out, s')) : s'.Tallied maxSize maxBytes := by
  rcases fetch_cases hfetch with ⟨hkept, -⟩ | ⟨hnew, -⟩
  · refine ⟨hkept.batchMaxSize_eq.trans h.batchMaxSize_eq, hkept.batchMaxSizeBytes_eq.trans h.batchMaxSizeBytes_eq,
      ?_, ?_⟩
    · rw [hkept.currentBatch_eq, hkept.sizeBytes_eq]
      exact h.lt
    · rw [hkept.currentBatch_eq, hkept.sizeBytes_eq, hkept.m_eq]
      exact h.zero
  · exact tallied_of_empty (hnew.batchMaxSize_eq.trans h.batchMaxSize_eq)
      (hnew.batchMaxSizeBytes_eq.trans h.batchMaxSizeBytes_eq) (hnew.currentBatch_eq ▸ hnew.new)

theorem Tallied.remove (key : String) : (s.remove key).2.Tallied maxSize maxBytes := by
  unfold BatchStore.remove
  split
  · exact h
  · next b hkey =>
    refine ⟨h.batchMaxSize_eq, h.batchMaxSizeBytes_eq, ?_, fun hroom hzero => ?_⟩
    all_goals by_cases hb : s.currentBatch = b
    · subst hb
      simp only [update_self]
      exact h.lt
    · simp only [update_of_ne hb]
      exact h.lt
    · subst hb
      simp only [update_self] at hzero ⊢
      rw [h.zero hroom hzero]
      rfl
    · simp only [update_of_ne hb] at hzero ⊢
      exact h.zero hroom hzero

theorem Tallied.removeRequests (keys : List String) : (removeRequests keys s).2.Tallied maxSize maxBytes := by
  induction keys generalizing s with
  | nil => exact h
  | cons key keys ih => exact ih (h.remove key)

/-- With limits that a request is within, `Insert` returns. -/
theorem Tallied.exists_insert (hs : s.Inv) (hcount : 0 < maxSize.toNat)
    (hsize : size.toNat ≤ maxBytes.toNat) (key : String) (value : ν) :
    ∃ inserted s', s.insert key value size = some (inserted, s') := by
  have hfits : s.fits (Packed.item size) = true := by
    rw [fits_item, h.batchMaxSize_eq, h.batchMaxSizeBytes_eq]
    exact ⟨hcount, hsize⟩
  rw [insert_eq_insertLoop]
  obtain ⟨inserted, s', hloop, -⟩ := (insertReturns_iff hs.open_current).mpr (.inr hfits)
  exact ⟨inserted, s', hloop 2 le_rfl⟩

end

/-! ## One fetch after the other -/

/-- What so many calls of `Fetch` return. -/
def drain (o : RangeOrder String ν) : Nat → BatchStore ν → List (String × ν)
  | 0, _ => []
  | n + 1, s =>
    let (out, s') := s.fetch o
    out ++ drain o n s'

variable {out : List (String × ν)}

theorem length_fetchReady {ready}
    (h : fetchReady o ready s = (some out, s')) : s'.readyBatches.length < ready.length := by
  induction ready generalizing s with
  | nil => cases h
  | cons b rest ih =>
    unfold fetchReady at h
    split at h
    · exact Nat.lt_succ_of_lt (ih h)
    · cases h
      exact Nat.lt_succ_self _

section

variable (hs : s.Inv) (h : s.Tallied maxSize maxBytes) (hroom : maxSize.toNat + 3 ≤ 2 ^ 32)
include hs h hroom

theorem fetch_progress (hfetch : s.fetch o = (out, s')) :
    s'.readyBatches.length < s.readyBatches.length ∨ ∀ key, s'.content.held key = none := by
  have hs' := (fetch_spec hs hfetch).1
  unfold fetch at hfetch
  split at hfetch
  · next found s₁ hready =>
    cases hfetch
    exact .inl (length_fetchReady hready)
  · next s₁ hready =>
    obtain ⟨-, hnone, -⟩ := hs.fetchReady rfl hready
    obtain ⟨-, hempty⟩ := hnone rfl
    obtain ⟨hkept, -⟩ := fetchReady_kept rfl hready
    -- The queue is empty now, and so is the current batch: it was empty before, or it is a new one.
    have hcurrent : s'.readyBatches = [] ∧ s'.shelves.shelf s'.currentBatch = ∅ := by
      split at hfetch
      · next hsize =>
        cases hfetch
        rw [hkept.currentBatch_eq, hkept.sizeBytes_eq] at hsize
        rw [hkept.currentBatch_eq]
        exact ⟨hempty, (hkept.m_eq _).trans (h.zero hroom hsize)⟩
      · cases hfetch
        exact ⟨hempty, by simp [shelves, Batch.empty]⟩
    refine .inr fun key => hs'.held_of_ready_nil hcurrent.1 ?_
    rw [hcurrent.2]
    exact AList.notMem_empty key

/-- **One `Fetch` after the other returns what the store holds**, each request once, as soon as there are more of them
than batches in the queue. -/
theorem enumerates_drain
    (hn : s.readyBatches.length < n ∨ ∀ key, s.content.held key = none) : Enumerates (drain o n s) s.content.held := by
  induction n generalizing s with
  | zero =>
    have hnone := hn.resolve_left (Nat.not_lt_zero _)
    refine ⟨nodup_nil, fun {key value} => ?_⟩
    rw [hnone key]
    exact iff_of_false not_mem_nil (Option.some_ne_none value).symm
  | succ n ih =>
    unfold drain
    cases hfetch : s.fetch o with
    | mk out s' =>
      obtain ⟨hs', hheld, hcontent⟩ := fetch_spec hs hfetch
      have htake : s'.content.held = fun key => if key ∈ out.map Prod.fst then none else s.content.held key := by
        rw [hcontent]
        rfl
      have hrest : Enumerates (drain o n s') s'.content.held := by
        refine ih hs' (h.fetch hfetch) ?_
        rcases hn with hlt | hnone
        · exact (fetch_progress hs h hroom hfetch).imp_left fun hlt' => by omega
        · refine .inr fun key => ?_
          rw [htake]
          simp only [hnone key, ite_self]
      exact .append (nodup_fetch hfetch) hheld (htake ▸ hrest)

end

/-! ## How many requests are removed -/

theorem remove_numbers (hs : s.Inv) (hn : Numbers s.content.Known n) (key : String) :
    ∃ m, n = m + (s.remove key).1.toNat ∧ Numbers (s.remove key).2.content.Known m := by
  have hremoved : (s.remove key).1 = true ↔ s.content.Known key := by
    rw [hs.known_iff]
    unfold remove
    split <;> simp [*]
  refine hn.drop hremoved.mp fun key' => ?_
  rw [(remove_spec hs key).2, known_discard, hremoved]
  refine ⟨fun h => ⟨fun _ => h.1, h.2⟩, fun h => ⟨fun heq => ?_, h.2⟩⟩
  exact h.1 (heq ▸ h.2) heq

theorem removeRequests_numbers (hs : s.Inv) (hn : Numbers s.content.Known n) (keys : List String) :
    ∃ m, n = m + (removeRequests keys s).1 ∧ Numbers (removeRequests keys s).2.content.Known m := by
  induction keys generalizing s n with
  | nil => exact ⟨n, rfl, hn⟩
  | cons key keys ih =>
    obtain ⟨m, rfl, hm⟩ := remove_numbers hs hn key
    obtain ⟨m', rfl, hm'⟩ := ih (remove_spec hs key).1 hm
    exact ⟨m', Nat.add_assoc .., hm'⟩

end BatchStore

namespace PendingStore

variable {ν : Type} {ps : PendingStore ν} {reqID : String} {b : Nat}

section

variable (h : ps.Inv) (hn : Numbers (fun reqID => ps.content.held reqID ≠ none) n)
include h hn

theorem removeRequest_numbers (reqID : String) : ∃ m, n = m + (ps.removeRequest reqID).1.toNat ∧
      Numbers (fun reqID' => (ps.removeRequest reqID).2.content.held reqID' ≠ none) m := by
  have hremoved : (ps.removeRequest reqID).1 = true ↔ ps.content.held reqID ≠ none := by
    rw [← h.contains_iff]
    unfold removeRequest contains
    cases hindex : ps.reqID2Bucket.lookup reqID with
    | none => simp
    | some b => by_cases hb : b = tombstone <;> by_cases hmem : reqID ∈ (ps.bucket b).requests <;> simp [hb, hmem]
  refine hn.drop hremoved.mp fun reqID' => ?_
  rw [(removeRequest_spec h reqID).2, hremoved]
  by_cases hid : reqID' = reqID
  · subst hid
    simp [bury]
  · simp [bury, hid]

theorem removeRequests_numbers (reqIDs : List String) : ∃ m, n = m + (removeRequests reqIDs ps).1 ∧
      Numbers (fun reqID => (removeRequests reqIDs ps).2.content.held reqID ≠ none) m := by
  induction reqIDs generalizing ps n with
  | nil => exact ⟨n, rfl, hn⟩
  | cons reqID reqIDs ih =>
    obtain ⟨m, rfl, hm⟩ := removeRequest_numbers h hn reqID
    obtain ⟨m', rfl, hm'⟩ := ih (removeRequest_spec h reqID).1 hm
    exact ⟨m', Nat.add_assoc .., hm'⟩

theorem pruneRequest_numbers (f) (hindex : ps.reqID2Bucket.lookup reqID = some b) :
    ∃ m, n = m + (ps.pruneRequest f reqID b).1.toNat ∧
      Numbers (fun reqID' => (ps.pruneRequest f reqID b).2.content.held reqID' ≠ none) m := by
  have hheld := h.held_of_index hindex
  have hremoved : (ps.pruneRequest f reqID b).1 = true ↔
      ∃ request, ps.content.held reqID = some request ∧ (f request).isOk = false := by
    rw [hheld]
    unfold pruneRequest
    cases (ps.bucket b).requests.lookup reqID with
    | none => simp
    | some request => cases hok : (f request).isOk <;> simp [hok]
  have hthere : (ps.pruneRequest f reqID b).1 = true → ps.content.held reqID ≠ none := by
    rw [hremoved, Option.ne_none_iff_exists']
    exact fun ⟨request, hrequest, _⟩ => ⟨request, hrequest⟩
  refine hn.drop hthere fun reqID' => ?_
  rw [(h.pruneRequest f hindex).2.1, hremoved]
  by_cases hid : reqID' = reqID
  · subst hid
    cases hrequest : ps.content.held reqID' with
    | none => simp [keepAt, hrequest]
    | some request => simp [keepAt, hrequest, Option.filter]
  · simp [keepAt, hid]

theorem pruneEntries_numbers (f) {entries} (hnodup : (entries.map Prod.fst).Nodup)
    (hentries : ∀ e ∈ entries, ps.reqID2Bucket.lookup e.1 = some e.2) : ∃ m, n = m + (pruneEntries f entries ps).1 ∧
      Numbers (fun reqID => (pruneEntries f entries ps).2.content.held reqID ≠ none) m := by
  induction entries generalizing ps n with
  | nil => exact ⟨n, rfl, hn⟩
  | cons e entries ih =>
    obtain ⟨hnotMem, hnodup⟩ := nodup_cons.mp hnodup
    have hfirst := hentries e mem_cons_self
    obtain ⟨hinv, -, hothers⟩ := h.pruneRequest f hfirst
    obtain ⟨m, rfl, hm⟩ := pruneRequest_numbers h hn f hfirst
    obtain ⟨m', rfl, hm'⟩ := ih hinv hm hnodup fun e' he' => by
      rw [hothers e'.1 fun heq => hnotMem (heq ▸ mem_map_of_mem he')]
      exact hentries e' (mem_cons_of_mem e he')
    exact ⟨m', Nat.add_assoc .., hm'⟩

theorem prune_numbers (f) : ∃ m, n = m + (ps.prune f).1 ∧
      Numbers (fun reqID => (ps.prune f).2.content.held reqID ≠ none) m := by
  have hpairs := enumerates_pairs ps.reqID2Bucket
  exact pruneEntries_numbers h hn f hpairs.nodup fun e he => hpairs.mem_iff.mp he

end

end PendingStore

/-! ## What holds a permit -/

variable {bs : BatchStore Bytes}

namespace PoolStore

def isBatching : PoolStore → Bool
  | .pending _ => false
  | .batching _ => true

def Occupies (store : PoolStore) (reqID : String) : Prop :=
  store.content.held reqID ≠ none ∨ store.isBatching = true ∧ reqID ∈ store.content.blocked

/-- The counters of the batch store. -/
def Tallied (options : PoolOptions) : PoolStore → Prop
  | .pending _ => True
  | .batching bs => bs.Tallied options.batchMaxSize options.batchMaxSizeBytes

variable {store store' : PoolStore} {reqID : String}

theorem Occupies.known (h : store.Occupies reqID) : store.content.Known reqID := h.imp_right And.right

theorem occupies_pending {ps} : (pending ps).Occupies = fun reqID => ps.content.held reqID ≠ none := by
  simp [funext_iff, Occupies, isBatching, content]

theorem occupies_batching : (batching bs).Occupies = bs.content.Known := by
  simp [funext_iff, Occupies, isBatching, content, Holdings.Known]

/-- If nothing is fetched and not removed, the requests in the store hold the permits. -/
theorem occupies_of_blocked (h : store.isBatching = true → store.content.blocked = ∅) :
    store.Occupies reqID ↔ store.content.held reqID ≠ none := by
  refine or_iff_left ?_
  rintro ⟨hbatching, hblocked⟩
  rw [h hbatching] at hblocked
  exact hblocked

theorem occupies_store {request} (hbatching : store'.isBatching = store.isBatching)
    (hcontent : store'.content = store.content.store reqID request) {reqID'} :
    store'.Occupies reqID' ↔ reqID' = reqID ∨ store.Occupies reqID' := by
  rw [Occupies, Occupies, hcontent, hbatching]
  by_cases hid : reqID' = reqID
  · subst hid
    simp [Holdings.store]
  · simp [Holdings.store, hid]

end PoolStore

/-- A batch takes every request that `Submit` lets through, and its counter does not overflow. -/
structure PoolOptions.Roomy (options : PoolOptions) : Prop where
  count : 0 < options.batchMaxSize.toNat
  bytes : options.requestMaxBytes ≤ options.batchMaxSizeBytes.toNat
  room : options.batchMaxSize.toNat + 3 ≤ 2 ^ 32

namespace Pool

/-- **The accounts of a pool**: each permit is held by one id, and the pool counts as many requests. -/
structure Sound (requestID : Bytes → String) (p : Pool) : Prop where
  inv : p.Inv requestID
  notClosed : p.closed = false
  roomy : p.options.Roomy
  numbers : Numbers p.store.Occupies p.permits
  size_eq : p.size = p.permits
  tallied : p.store.Tallied p.options
  fits : ∀ {reqID request}, p.store.content.held reqID = some request → request.length ≤ p.options.requestMaxBytes

variable {requestID : Bytes → String} {o : RangeOrder String Bytes} {p p' : Pool} {reqID : String} {request : Bytes}

theorem sound_newPool {options} (hroomy : options.Roomy) : (newPool options).Sound requestID where
  inv := inv_newPool options
  notClosed := rfl
  roomy := hroomy
  numbers := numbers_none fun reqID hoccupies => by
    rw [newPool, occupies_pending, PendingStore.content_newPendingStore] at hoccupies
    exact hoccupies rfl
  size_eq := rfl
  tallied := trivial
  fits h := by
    rw [newPool, PoolStore.content, PendingStore.content_newPendingStore] at h
    cases h

/-! ## Submit -/

theorem release_permits (h : p.release n = some p') : p.permits = p'.permits + n ∧ p'.size = p.size := by
  unfold release at h
  split at h
  · next hle =>
    cases h
    exact ⟨(Nat.sub_add_cancel hle).symm, rfl⟩
  · cases h

/-- A request that is taken keeps its permit and is counted; the permit of one that is refused is released. -/
theorem submitToStore_counts (hp : p.store.Inv) (htallied : p.store.Tallied p.options) {result}
    (h : p.submitToStore reqID request = some (result, p')) :
    p'.store.isBatching = p.store.isBatching ∧ p'.store.Tallied p.options ∧
      p.permits = p'.permits + (!result.isOk).toNat ∧ p'.size = p.size + result.isOk.toNat := by
  unfold submitToStore at h
  cases hstore : p.store with
  | pending ps =>
    rw [hstore] at h
    simp only [submitToPendingStore] at h
    cases hsubmit : ps.submit reqID request with
    | error err =>
      simp only [hsubmit, Option.bind_eq_bind, Option.bind_eq_some_iff] at h
      obtain ⟨p₁, hrelease, hret⟩ := h
      cases hret
      obtain ⟨hpermits, hsize⟩ := release_permits hrelease
      rw [(release_eq_some hrelease).2.1, hstore]
      exact ⟨rfl, trivial, hpermits, hsize.trans (Int.add_zero _).symm⟩
    | ok ps' =>
      simp only [hsubmit] at h
      cases h
      exact ⟨rfl, trivial, rfl, rfl⟩
  | batching =>
    rw [hstore] at h hp htallied
    simp only [submitToBatchStore, Option.bind_eq_bind, Option.bind_eq_some_iff] at h
    obtain ⟨⟨inserted, bs'⟩, hinsert, h⟩ := h
    have htallied' : bs'.Tallied p.options.batchMaxSize p.options.batchMaxSizeBytes :=
      BatchStore.Tallied.insert htallied hp hinsert
    cases inserted with
    | false =>
      simp only [Option.bind_eq_some_iff] at h
      obtain ⟨p₁, hrelease, hret⟩ := h
      cases hret
      obtain ⟨hpermits, hsize⟩ := release_permits hrelease
      rw [(release_eq_some hrelease).2.1]
      exact ⟨rfl, htallied', hpermits, hsize.trans (Int.add_zero _).symm⟩
    | true =>
      cases h
      exact ⟨rfl, htallied', rfl, rfl⟩

section

variable (hp : p.Sound requestID)
include hp

theorem Sound.submit {result} (h : p.submit requestID request = some (result, p')) : p'.Sound requestID := by
  obtain ⟨hframe, hinv, -, -⟩ := submit_spec hp.inv h
  unfold Pool.submit at h
  split at h
  · cases h
    exact hp
  split at h
  · cases h
    exact hp
  split at h
  · cases h
    exact hp
  next hfits _ =>
  have hsubmitted := (submitToStore_spec (p := { p with permits := p.permits + 1 }) hp.inv.store h).2.2
  obtain ⟨hbatching, htallied, hpermits, hsize⟩ :=
    submitToStore_counts (p := { p with permits := p.permits + 1 }) hp.inv.store hp.tallied h
  have hsizeEq := hp.size_eq
  cases result with
  | error err =>
    obtain ⟨-, hcontent⟩ := hsubmitted
    have hcontent : p'.store.content = p.store.content := hcontent
    have hsame : p'.permits = p.permits := (Nat.succ.inj hpermits).symm
    refine ⟨hinv, hframe.closed.trans hp.notClosed, hframe.options ▸ hp.roomy, ?_, ?_, hframe.options ▸ htallied, ?_⟩
    · rw [hsame]
      refine hp.numbers.congr fun reqID => ?_
      rw [PoolStore.Occupies, PoolStore.Occupies, hcontent, hbatching]
    · rw [hsame, ← hsizeEq]
      exact hsize.trans (Int.add_zero _)
    · rw [hcontent, hframe.options]
      exact hp.fits
  | ok =>
    obtain ⟨hunknown, hcontent⟩ := hsubmitted
    have hcontent : p'.store.content = p.store.content.store (requestID request) request := hcontent
    have hmore : p'.permits = p.permits + 1 := hpermits.symm
    refine ⟨hinv, hframe.closed.trans hp.notClosed, hframe.options ▸ hp.roomy, ?_, ?_, hframe.options ▸ htallied,
      fun {reqID request'} hr => ?_⟩
    · rw [hmore]
      exact (hp.numbers.insert fun hoccupies => hunknown hoccupies.known).congr fun reqID =>
        occupies_store hbatching hcontent
    · rw [hmore, Nat.cast_add, ← hsizeEq]
      exact hsize
    · rw [hframe.options]
      rw [hcontent] at hr
      by_cases hid : reqID = requestID request
      · subst hid
        simp only [Holdings.store, update_self, Option.some.injEq] at hr
        exact hr ▸ Nat.le_of_not_lt hfits
      · simp only [Holdings.store, update_of_ne hid] at hr
        exact hp.fits hr

/-! ## The calls that take requests out -/

theorem Sound.nextRequests {out} (h : p.nextRequests o = (out, p')) : p'.Sound requestID := by
  obtain ⟨hframe, hinv, -, -⟩ := nextRequests_spec hp.inv h
  unfold Pool.nextRequests at h
  split at h
  · cases h
    exact hp
  cases hstore : p.store with
  | pending =>
    rw [hstore] at h
    cases h
    exact hp
  | batching bs =>
    rw [hstore] at h
    have hbs := hp.inv.store
    have htallied := hp.tallied
    have hnumbers := hp.numbers
    rw [hstore] at hbs htallied hnumbers
    cases hfetch : bs.fetch o with
    | mk requests bs' =>
      simp only [hfetch] at h
      cases h
      obtain ⟨-, hout, hcontent⟩ := fetch_spec hbs hfetch
      refine ⟨hinv, hp.notClosed, hp.roomy, ?_, hp.size_eq, BatchStore.Tallied.fetch htallied hfetch,
        fun {reqID request} hr => ?_⟩
      · refine hnumbers.congr fun reqID => ?_
        rw [occupies_batching, occupies_batching, hcontent]
        refine known_take fun reqID' hmem => ?_
        obtain ⟨e, he, rfl⟩ := mem_map.mp hmem
        rw [hout e he]
        exact Option.some_ne_none e.2
      · have hr : bs'.content.held reqID = some request := hr
        rw [hcontent] at hr
        simp only [Holdings.take, Option.ite_none_left_eq_some] at hr
        have hold : p.store.content.held reqID = some request := by
          rw [hstore]
          exact hr.2
        exact hp.fits hold

theorem Sound.deleted {store count} (h : { p with store }.deleted count = some p') (hinv : p'.Inv requestID)
    (hnumbers : ∃ m, p.permits = m + count ∧ Numbers store.Occupies m) (htallied : store.Tallied p.options)
    (hheld : ∀ {reqID request}, p'.content.held reqID = some request → p.content.held reqID = some request) :
    p'.Sound requestID := by
  obtain ⟨hstore, hframe⟩ := deleted_eq_some h
  have hstore : p'.store = store := hstore
  have hoptions : p'.options = p.options := hframe.options
  have hclosed : p'.closed = false := hframe.closed.trans hp.notClosed
  simp only [Pool.deleted, Option.bind_eq_bind, Option.bind_eq_some_iff] at h
  obtain ⟨p₁, hrelease, hret⟩ := h
  cases hret
  obtain ⟨hpermits, hsize⟩ := release_permits hrelease
  obtain ⟨m, hm, hleft⟩ := hnumbers
  have hpermits : p.permits = p₁.permits + count := hpermits
  have hsize : p₁.size = p.size := hsize
  have hsizeEq := hp.size_eq
  obtain rfl : p₁.permits = m := by omega
  refine ⟨hinv, hclosed, hoptions ▸ hp.roomy, hstore ▸ hleft, ?_, hstore ▸ hoptions ▸ htallied, fun hr => ?_⟩
  · simp only
    omega
  · rw [hoptions]
    rw [← content_of_open hclosed] at hr
    exact hp.fits (content_of_open hp.notClosed ▸ hheld hr)

theorem Sound.removeRequests {requestIDs} (h : p.removeRequests requestIDs = some p') : p'.Sound requestID := by
  obtain ⟨-, hinv, hheld⟩ := removeRequests_spec hp.inv h
  have hsub : ∀ {reqID request}, p'.content.held reqID = some request → p.content.held reqID = some request := by
    intro reqID request hr
    rw [hheld, Option.ite_none_left_eq_some] at hr
    exact hr.2
  have hnumbers := hp.numbers
  have htallied := hp.tallied
  have hstoreInv := hp.inv.store
  unfold Pool.removeRequests at h
  rw [if_neg (by simp [hp.notClosed])] at h
  cases hstore : p.store with
  | pending =>
    rw [hstore] at h hnumbers hstoreInv
    refine hp.deleted h hinv ?_ trivial hsub
    rw [occupies_pending] at hnumbers ⊢
    exact PendingStore.removeRequests_numbers hstoreInv hnumbers requestIDs
  | batching =>
    rw [hstore] at h hnumbers hstoreInv htallied
    refine hp.deleted h hinv ?_ (BatchStore.Tallied.removeRequests htallied requestIDs) hsub
    rw [occupies_batching] at hnumbers ⊢
    exact removeRequests_numbers hstoreInv hnumbers requestIDs

theorem Sound.prune {predicate} (h : p.prune predicate = some p') : p'.Sound requestID := by
  obtain ⟨-, hinv, hheld⟩ := prune_spec hp.inv h
  have hsub : ∀ {reqID request}, p'.content.held reqID = some request → p.content.held reqID = some request := by
    intro reqID request hr
    rw [hheld, Option.filter_eq_some_iff] at hr
    exact hr.1
  have hnumbers := hp.numbers
  have htallied := hp.tallied
  have hstoreInv := hp.inv.store
  unfold Pool.prune at h
  rw [if_neg (by simp [hp.notClosed])] at h
  cases hstore : p.store with
  | pending =>
    rw [hstore] at h hnumbers hstoreInv
    refine hp.deleted h hinv ?_ trivial hsub
    rw [occupies_pending] at hnumbers ⊢
    exact PendingStore.prune_numbers hstoreInv hnumbers predicate
  | batching =>
    rw [hstore] at h hnumbers hstoreInv htallied
    refine hp.deleted h hinv ?_ (BatchStore.Tallied.removeRequests htallied _) hsub
    rw [occupies_batching] at hnumbers ⊢
    exact removeRequests_numbers hstoreInv hnumbers _

theorem Sound.halt : p.halt.Sound requestID :=
  ⟨hp.inv.halt, hp.notClosed, hp.roomy, hp.numbers, hp.size_eq, hp.tallied, hp.fits⟩

theorem Sound.tick (expired : List String) : (p.tick expired).Sound requestID := by
  obtain ⟨hframe, hinv, hheld⟩ := tick_spec hp.inv expired
  rw [content_of_open hp.notClosed, content_of_open (hframe.closed.trans hp.notClosed)] at hheld
  have hnumbers := hp.numbers
  unfold Pool.tick at hinv hheld ⊢
  cases hstore : p.store with
  | batching => exact hp
  | pending =>
    rw [hstore] at hinv hheld hnumbers
    refine ⟨hinv, hp.notClosed, hp.roomy, ?_, hp.size_eq, trivial, fun {reqID request} hr => ?_⟩
    · refine hnumbers.congr fun reqID => ?_
      rw [occupies_pending, occupies_pending]
      exact not_congr (congrFun hheld reqID ▸ Iff.rfl)
    · have hold : p.store.content.held reqID = some request := by
        rw [hstore]
        exact hheld ▸ hr
      exact hp.fits hold

end

/-! ## Restart -/

theorem submitToStore_new (hp : p.store.Inv) (htallied : p.store.Tallied p.options) (hroomy : p.options.Roomy)
    (hfits : request.length ≤ p.options.requestMaxBytes) (hnew : ¬ p.store.content.Known reqID) :
    ∃ store, p.submitToStore reqID request = some (.ok (), { p with store, size := p.size + 1 }) ∧ store.Inv ∧
      store.content = p.store.content.store reqID request ∧ store.Tallied p.options ∧
      store.isBatching = p.store.isBatching := by
  have hreturns : ∃ store, p.submitToStore reqID request = some (.ok (), { p with store, size := p.size + 1 }) := by
    unfold submitToStore
    cases hstore : p.store with
    | pending ps =>
      rw [hstore] at hp hnew
      simp only [submitToPendingStore]
      cases hsubmit : ps.submit reqID request with
      | error err => exact absurd (PendingStore.submit_eq_error hp hsubmit) hnew
      | ok ps' => exact ⟨_, rfl⟩
    | batching =>
      rw [hstore] at hp hnew htallied
      have hlength : (UInt32.ofNat request.length).toNat ≤ p.options.batchMaxSizeBytes.toNat := by
        rw [UInt32.toNat_ofNat']
        exact (Nat.mod_le _ _).trans (hfits.trans hroomy.bytes)
      obtain ⟨inserted, bs', hinsert⟩ := BatchStore.Tallied.exists_insert htallied hp hroomy.count hlength reqID request
      have hspec := (insert_spec hp hinsert).2
      simp only [submitToBatchStore, hinsert]
      cases inserted with
      | false => exact absurd hspec.1 hnew
      | true => exact ⟨_, rfl⟩
  obtain ⟨store, hsubmit⟩ := hreturns
  obtain ⟨-, hinv, -, hcontent⟩ := submitToStore_spec hp hsubmit
  obtain ⟨hbatching, htallied', -⟩ := submitToStore_counts hp htallied hsubmit
  exact ⟨store, hsubmit, hinv, hcontent, htallied', hbatching⟩

section Move

variable {l : List (String × Bytes)}

theorem moveAllToPending_returns (hkeyed : ∀ e ∈ l, requestID e.2 = e.1) (hnodup : (l.map Prod.fst).Nodup)
    (hp : p.store.Inv) (htallied : p.store.Tallied p.options) (hroomy : p.options.Roomy)
    (hfits : ∀ e ∈ l, e.2.length ≤ p.options.requestMaxBytes) (hnew : ∀ e ∈ l, ¬ p.store.content.Known e.1) :
    ∃ store, moveAllToPending requestID (l.map Prod.snd) p = some { p with store, size := p.size + l.length } ∧
      store.Tallied p.options ∧ store.isBatching = p.store.isBatching := by
  induction l generalizing p with
  | nil => exact ⟨p.store, by simp [moveAllToPending], htallied, rfl⟩
  | cons e l ih =>
    obtain ⟨store, hsubmit, hinv, hcontent, htallied', hbatching⟩ := submitToStore_new hp htallied hroomy
      (hfits e mem_cons_self) (hnew e mem_cons_self)
    obtain ⟨store', hrest, htallied'', hbatching'⟩ := ih (p := { p with store, size := p.size + 1 })
      (fun e' he' => hkeyed e' (mem_cons_of_mem e he')) (nodup_cons.mp hnodup).2 hinv htallied' hroomy
      (fun e' he' => hfits e' (mem_cons_of_mem e he')) (by rw [hcontent]; exact not_known_of_cons hnodup hnew)
    refine ⟨store', ?_, htallied'', hbatching'.trans hbatching⟩
    rw [map_cons, moveAllToPending, hkeyed e mem_cons_self, hsubmit]
    refine hrest.trans ?_
    simp only [length_cons, Nat.cast_add, Nat.cast_one, Int.add_assoc, Int.add_comm 1]

end Move

theorem releaseDropped_eq {moved} (hsize : p.size = p.permits) (hle : moved ≤ p.permits) :
    p.releaseDropped moved = some { p with permits := moved } := by
  unfold releaseDropped release
  by_cases hlt : moved < p.permits
  · have hdropped : 0 < p.size - moved := by omega
    have hcount : (p.size - moved).toNat = p.permits - moved := by omega
    simp only [hdropped, if_true, hcount, Nat.sub_le, Nat.sub_sub_self hle]
  · obtain rfl : moved = p.permits := by omega
    have hnone : ¬ 0 < p.size - p.permits := by omega
    simp only [hnone, if_false]

/-- The permits are those of the requests in the store, when nothing is fetched and not removed. -/
theorem Sound.of_held (hp : p.Sound requestID) (hframe : p.Frame p') (hinv : p'.Inv requestID)
    (hheld : p'.store.content.held = p.store.content.held) (htallied : p'.store.Tallied p.options)
    (hblocked : p'.store.isBatching = true → p'.store.content.blocked = ∅) {l}
    (hl : Enumerates l p.store.content.held) (hpermits : p'.permits = l.length) (hsize : p'.size = l.length) :
    p'.Sound requestID := by
  refine ⟨hinv, hframe.closed.trans hp.notClosed, hframe.options ▸ hp.roomy, ?_, hsize.trans (by rw [hpermits]),
    hframe.options ▸ htallied, ?_⟩
  · rw [hpermits]
    refine hl.numbers.congr fun reqID => ?_
    rw [occupies_of_blocked hblocked, hheld]
  · rw [hheld, hframe.options]
    exact hp.fits

theorem Sound.moveToPendingStore (hp : p.Sound requestID) (hstore : p.store = .batching bs) :
    ∃ p', p.moveToPendingStore requestID o bs = some p' ∧ p'.Sound requestID ∧ p'.store.isBatching = false := by
  have hbs : bs.Inv := by
    have hinv := hp.inv.store
    rw [hstore] at hinv
    exact hinv
  have hl : Enumerates (bs.forEach o) p.store.content.held := by
    rw [hstore]
    exact hbs.enumerates_forEach o
  have hle : (bs.forEach o).length ≤ p.permits := hl.numbers.le hp.numbers fun _ => .inl
  obtain ⟨store, hmove, htallied, hpending⟩ := moveAllToPending_returns
    (p := { p with store := .pending newPendingStore, permits := (bs.forEach o).length, size := 0 })
    (fun e he => hp.inv.keyed (hl.mem_iff.mp he)) hl.nodup PendingStore.inv_newPendingStore trivial hp.roomy
    (fun e he => hp.fits (hl.mem_iff.mp he)) fun _ _ => not_known_of_empty PendingStore.content_newPendingStore
  have hreturns : p.moveToPendingStore requestID o bs =
      some { p with store, permits := (bs.forEach o).length, size := 0 + (bs.forEach o).length } := by
    simp only [Pool.moveToPendingStore, length_map, releaseDropped_eq hp.size_eq hle]
    exact hmove
  obtain ⟨hframe, hinv, hheld⟩ := moveToPendingStore_spec hp.inv hstore hreturns
  refine ⟨_, hreturns, hp.of_held hframe hinv hheld htallied ?_ hl rfl (Int.zero_add _), hpending⟩
  exact fun hbatching => absurd (hpending.symm.trans hbatching) Bool.false_ne_true

theorem Sound.moveToBatchStore {ps} (hp : p.Sound requestID) (hstore : p.store = .pending ps) :
    ∃ p', p.moveToBatchStore requestID o ps = some p' ∧ p'.Sound requestID ∧ p'.store.isBatching = true ∧
      p'.store.content.blocked = ∅ := by
  have hl : Enumerates (ps.getAllRequests o) p.store.content.held := hp.inv.enumerates_getAllRequests hstore
  have hpermits : p.permits = (ps.getAllRequests o).length := by
    refine hp.numbers.unique (hl.numbers.congr fun reqID => ?_)
    rw [hstore, occupies_pending]
    rfl
  have hkeyed : ∀ e ∈ ps.getAllRequests o, requestID e.2 = e.1 := fun e he => hp.inv.keyed (hl.mem_iff.mp he)
  obtain ⟨store, hmove, htallied, hbatching⟩ := moveAllToPending_returns
    (p := { p with store := .batching (newBatchStore p.options.batchMaxSize p.options.batchMaxSizeBytes) })
    hkeyed hl.nodup (inv_newBatchStore _ _) (tallied_of_empty rfl rfl rfl) hp.roomy
    (fun e he => hp.fits (hl.mem_iff.mp he)) fun _ _ => not_known_of_empty content_newBatching
  have hcontent := (moveAllToPending_spec
    (p := { p with store := .batching (newBatchStore p.options.batchMaxSize p.options.batchMaxSizeBytes) })
    hkeyed hl.nodup (inv_newBatchStore _ _) (fun _ _ => not_known_of_empty content_newBatching) hmove).2.2
  have hblocked : store.content.blocked = ∅ := by
    rw [show store.content = _ from hcontent, content_newBatching, blocked_storeAll]
    rfl
  have hreturns : p.moveToBatchStore requestID o ps = some { p with store, size := (ps.getAllRequests o).length } := by
    rw [moveToBatchStore_eq hp.inv hstore, hmove]
    rfl
  obtain ⟨hframe, hinv, hheld⟩ := moveToBatchStore_spec hp.inv hstore hreturns
  exact ⟨_, hreturns, hp.of_held hframe hinv hheld htallied (fun _ => hblocked) hl hpermits rfl, hbatching, hblocked⟩

/-- **`Restart` returns**, and leaves the pool in the mode that was asked for. Unless the pool was batching and goes on,
nothing is fetched and not removed afterwards. -/
theorem Sound.restart (hp : p.Sound requestID) (o) (batching : Bool) :
    ∃ p', p.restart requestID o batching = some p' ∧ p'.Sound requestID ∧ p'.store.isBatching = batching ∧
      p'.stopped = false ∧ (batching = true → (p.store.isBatching = true → p.content.blocked = ∅) →
        p'.store.content.blocked = ∅) := by
  have hmoves : ∃ p₁, p.switchStore requestID o batching = some p₁ ∧ p₁.Sound requestID ∧
      p₁.store.isBatching = batching ∧ (batching = true → (p.store.isBatching = true → p.content.blocked = ∅) →
        p₁.store.content.blocked = ∅) := by
    unfold switchStore
    cases hstore : p.store with
    | pending =>
      cases batching with
      | false => exact ⟨p, rfl, hp, by rw [hstore]; rfl, nofun⟩
      | true =>
        obtain ⟨p₁, hmove, hsound, hbatching, hblocked⟩ := hp.moveToBatchStore hstore
        exact ⟨p₁, hmove, hsound, hbatching, fun _ _ => hblocked⟩
    | batching =>
      cases batching with
      | false =>
        obtain ⟨p₁, hmove, hsound, hbatching⟩ := hp.moveToPendingStore hstore
        exact ⟨p₁, hmove, hsound, hbatching, nofun⟩
      | true =>
        refine ⟨p, rfl, hp, by rw [hstore]; rfl, fun _ hremoved => ?_⟩
        rw [← content_of_open hp.notClosed]
        exact hremoved rfl
  obtain ⟨p₁, hmove, hsound, hbatching, hblocked⟩ := hmoves
  have hreturns : p.restart requestID o batching = some { p₁ with stopped := false } := by
    simp only [Pool.restart, hp.notClosed, Bool.false_eq_true, if_false, hmove]
    rfl
  exact ⟨_, hreturns, ⟨⟨hsound.inv.store, hsound.inv.keyed⟩, hsound.notClosed, hsound.roomy, hsound.numbers,
    hsound.size_eq, hsound.tallied, hsound.fits⟩, hbatching, rfl, hblocked⟩

/-! ## Runs -/

inductive Call (requestID : Bytes → String) (p : Pool) : Pool → Prop
  | submit {p' : Pool} {request result} (h : p.submit requestID request = some (result, p')) : Call requestID p p'
  | nextRequests {p' : Pool} {o out} (h : p.nextRequests o = (out, p')) : Call requestID p p'
  | removeRequests {p' : Pool} {requestIDs} (h : p.removeRequests requestIDs = some p') : Call requestID p p'
  | prune {p' : Pool} {predicate} (h : p.prune predicate = some p') : Call requestID p p'
  | halt : Call requestID p p.halt
  | restart {p' : Pool} {o batching} (h : p.restart requestID o batching = some p') : Call requestID p p'
  | tick {expired} : Call requestID p (p.tick expired)

/-- **Every call keeps the accounts.** -/
theorem Call.sound (h : Call requestID p p') (hp : p.Sound requestID) : p'.Sound requestID := by
  cases h with
  | submit h => exact hp.submit h
  | nextRequests h => exact hp.nextRequests h
  | removeRequests h => exact hp.removeRequests h
  | prune h => exact hp.prune h
  | halt => exact hp.halt
  | @restart _ o batching h =>
    obtain ⟨p₁, hreturns, hsound, -⟩ := hp.restart o batching
    cases hreturns.symm.trans h
    exact hsound
  | tick => exact hp.tick _

/-- A pool after some calls. -/
def Run (requestID : Bytes → String) : Pool → Pool → Prop := Relation.ReflTransGen (Call requestID)

theorem Run.sound {options} (hroomy : options.Roomy) (hrun : Run requestID (newPool options) p) :
    p.Sound requestID := by
  induction hrun with
  | refl => exact sound_newPool hroomy
  | tail _ hcall ih => exact hcall.sound ih

/-! ## What can still be taken out -/

/-- What so many calls of `NextRequests` return. -/
def drain (o : RangeOrder String Bytes) : Nat → Pool → List (String × Bytes)
  | 0, _ => []
  | n + 1, p =>
    let (out, p') := p.nextRequests o
    out ++ drain o n p'

/-- What can still be taken out: by one `NextRequests` after the other if the pool is batching, and otherwise in a scan
of the pending store. -/
def remaining (o : RangeOrder String Bytes) (p : Pool) : List (String × Bytes) :=
  match p.store with
  | .pending ps => ps.getAllRequests o
  | .batching bs => p.drain o (bs.readyBatches.length + 1)

/-- The id was removed before its request came. -/
def Tombstoned (p : Pool) (reqID : String) : Prop :=
  ∃ ps, p.store = .pending ps ∧ ps.reqID2Bucket.lookup reqID = some tombstone

theorem drain_eq (hclosed : p.closed = false) (hstopped : p.stopped = false)
    (hstore : p.store = .batching bs) (n : Nat) : p.drain o n = bs.drain o n := by
  induction n generalizing p bs with
  | zero => rfl
  | succ n ih =>
    have hnext : p.nextRequests o = ((bs.fetch o).1, { p with store := .batching (bs.fetch o).2 }) := by
      simp [Pool.nextRequests, hclosed, hstopped, hstore]
    unfold drain BatchStore.drain
    rw [hnext]
    exact congrArg _ (ih (p := { p with store := .batching (bs.fetch o).2 }) hclosed hstopped rfl)

section

variable (hp : p.Sound requestID)
include hp

theorem Sound.enumerates_remaining (hstopped : p.stopped = false)
    (o) : Enumerates (p.remaining o) p.content.held := by
  have hinv := hp.inv.store
  have htallied := hp.tallied
  rw [content_of_open hp.notClosed]
  unfold remaining
  cases hstore : p.store with
  | pending =>
    rw [hstore] at hinv
    exact hinv.enumerates_getAllRequests o
  | batching =>
    rw [hstore] at hinv htallied
    simp only
    rw [drain_eq hp.notClosed hstopped hstore]
    exact enumerates_drain hinv htallied hp.roomy.room (.inl (Nat.lt_succ_self _))

theorem Sound.known_of_rejected (hstopped : p.stopped = false)
    (h : p.submit requestID request = some (.error s!"request {requestID request} already inserted", p')) :
    p.content.Known (requestID request) := by
  unfold Pool.submit at h
  rw [if_neg (by simp [hp.notClosed, hstopped])] at h
  -- The other errors begin with another letter.
  split at h
  · have hmessage := Except.error.inj (Prod.mk.inj (Option.some.inj h)).1
    simpa [toString] using congrArg (fun s : String => s.toList.head?) hmessage
  split at h
  · have hmessage := Except.error.inj (Prod.mk.inj (Option.some.inj h)).1
    simpa [toString] using congrArg (fun s : String => s.toList.head?) hmessage
  · have hsubmitted := (submitToStore_spec (p := { p with permits := p.permits + 1 }) hp.inv.store h).2.2
    rw [content_of_open hp.notClosed]
    exact hsubmitted.1

/-- An id that is known is that of a request in the pool, or has a tombstone, when nothing is fetched and not
removed. -/
theorem Sound.held_or_tombstoned
    (hblocked : p.store.isBatching = true → p.store.content.blocked = ∅) (hknown : p.content.Known reqID) :
    p.content.held reqID ≠ none ∨ p.Tombstoned reqID := by
  have hinv := hp.inv.store
  rw [content_of_open hp.notClosed] at hknown ⊢
  refine hknown.imp_right fun hmem => ?_
  cases hstore : p.store with
  | batching =>
    rw [hblocked (by rw [hstore]; rfl)] at hmem
    exact absurd hmem (Set.notMem_empty reqID)
  | pending ps =>
    rw [hstore] at hinv hmem
    obtain ⟨b, hindex, hnot⟩ := hmem
    obtain rfl := (hinv.points reqID b hindex).resolve_right hnot
    exact ⟨ps, hstore, hindex⟩

/-- What `Restart` leaves. A pool that was batching and goes on batching must have no request that was fetched and not
removed. -/
theorem Sound.after_restart (o) (batching : Bool)
    (hremoved : batching = true → p.store.isBatching = true → p.content.blocked = ∅) :
    ∃ p', p.restart requestID o batching = some p' ∧ p'.content.held = p.content.held ∧
      (∀ o', Enumerates (p'.remaining o') p'.content.held ∧ p'.permits = (p'.remaining o').length ∧
        p'.size = (p'.remaining o').length) ∧
      p'.Sound requestID ∧ p'.stopped = false ∧ (p'.store.isBatching = true → p'.store.content.blocked = ∅) := by
  obtain ⟨p', hrestart, hp', hbatching, hstopped, hfree⟩ := hp.restart o batching
  have hblocked : p'.store.isBatching = true → p'.store.content.blocked = ∅ := fun hmode =>
    hfree (hbatching.symm.trans hmode) (hremoved (hbatching.symm.trans hmode))
  refine ⟨p', hrestart, (restart_spec hp.inv hrestart).2.1, fun o' => ?_, hp', hstopped, hblocked⟩
  have hlist := hp'.enumerates_remaining hstopped o'
  have hpermits : p'.permits = (p'.remaining o').length := by
    refine hp'.numbers.unique (hlist.numbers.congr fun reqID => ?_)
    rw [occupies_of_blocked hblocked, content_of_open hp'.notClosed]
  exact ⟨hlist, hpermits, hp'.size_eq.trans (congrArg Nat.cast hpermits)⟩

end

/-- **After a `Restart`, the permits are those of the requests that can still be taken out**, whatever was called
before. These are all that were not fetched, and a request is rejected as already inserted only if it is one of them or
its id is tombstoned. -/
theorem restart_accounts {options : PoolOptions} (hroomy : options.Roomy) (hrun : Run requestID (newPool options) p)
    (o : RangeOrder String Bytes) (batching : Bool)
    (hremoved : batching = true → p.store.isBatching = true → p.content.blocked = ∅) :
    ∃ p', p.restart requestID o batching = some p' ∧ p'.content.held = p.content.held ∧
      (∀ o', Enumerates (p'.remaining o') p'.content.held ∧ p'.permits = (p'.remaining o').length ∧
        p'.size = (p'.remaining o').length) ∧ ∀ request p'', p'.submit requestID request =
          some (.error s!"request {requestID request} already inserted", p'') →
        p'.content.held (requestID request) ≠ none ∨ p'.Tombstoned (requestID request) := by
  obtain ⟨p', hrestart, hheld, haccounts, hp', hstopped, hblocked⟩ :=
    (hrun.sound hroomy).after_restart o batching hremoved
  exact ⟨p', hrestart, hheld, haccounts, fun request p'' hsubmit =>
    hp'.held_or_tombstoned hblocked (hp'.known_of_rejected hstopped hsubmit)⟩

/-- A primary that has fetched a batch becomes a secondary. -/
theorem secondary_accounts : ∃ p p', Run (fun _ => "a") (newPool ⟨10, 10, 100, 100⟩) p ∧ p.permits = 1 ∧
    p.restart (fun _ => "a") .same false = some p' ∧ p'.permits = (p'.remaining .same).length := by
  have hprimary : Run (fun _ => "a") (newPool ⟨10, 10, 100, 100⟩) _ := .single (@Call.restart _ _ _ .same true rfl)
  have hsubmitted := hprimary.tail (@Call.submit _ _ _ [7] _ rfl)
  have hrun := hsubmitted.tail (@Call.nextRequests _ _ _ .same _ rfl)
  obtain ⟨p', hrestart, -, haccounts, -⟩ := restart_accounts ⟨by decide, by decide, by decide⟩ hrun .same false nofun
  exact ⟨_, p', hrun, rfl, hrestart, (haccounts .same).2.1⟩

end Pool

end Arma
