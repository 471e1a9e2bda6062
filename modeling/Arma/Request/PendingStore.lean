import Arma.Lib.Keyed

/-!
# The pending store

Model of `PendingStore` (`request/pending.go`) and of its `bucket` (`request/bucket.go`), where a batcher that is not
the primary keeps the requests that it waits for.

* A bucket is a pointer in the source. Here it is the bucket's id, and `bucket` is the memory. Id 0 is that of the dummy
  bucket, the tombstone: `reqID2Bucket` maps the ids of requests to it that were removed before they came.
* Time only decides when a bucket is sealed and when a tombstone is collected, so both may happen at any time. The
  strikes change nothing in the store.
* The sizes of the buckets do not overflow.

`PendingStore.content` is what the store holds and refuses (`Lib/Keyed.lean`): a tombstoned id is refused. There is one
lemma for each operation, which says what the operation does to it.
-/

namespace Arma

open Arma.Lib List Function Shelves Holdings

variable {ν : Type}

/-- `bucket`: the number of its requests, whether it has a timestamp, and its requests. -/
structure Bucket (ν : Type) where
  size : Nat
  isSealed : Bool
  requests : AList fun _ : String => ν

def newBucket : Bucket ν := ⟨0, false, ∅⟩

structure PendingStore (ν : Type) where
  bucket : Nat → Bucket ν
  buckets : List Nat
  currentBucket : Nat
  reqID2Bucket : AList fun _ : String => Nat

/-- The id of the dummy bucket. -/
def tombstone : Nat := 0

def newPendingStore : PendingStore ν where
  bucket _ := newBucket
  buckets := []
  currentBucket := 1
  reqID2Bucket := ∅

namespace PendingStore

variable (ps : PendingStore ν)

/-- `tryInsert` into the current bucket. -/
def tryInsert (reqID : String) (request : ν) : Except String (PendingStore ν) :=
  let b := ps.currentBucket
  if (ps.bucket b).isSealed then .error "bucket sealed"
  else if reqID ∈ ps.reqID2Bucket then .error s!"request {reqID} already inserted"
  else if reqID ∈ (ps.bucket b).requests then .error s!"request {reqID} already inserted"
  else
    .ok { ps with
      bucket := update ps.bucket b { ps.bucket b with
        requests := (ps.bucket b).requests.insert reqID request
        size := (ps.bucket b).size + 1 }
      reqID2Bucket := ps.reqID2Bucket.insert reqID b }

/-- `Submit`. Its loop goes round only while the current bucket is being sealed. -/
def submit (reqID : String) (request : ν) : Except String (PendingStore ν) := ps.tryInsert reqID request

/-- `bucket.delete`, after the id was taken over from the bucket. -/
def delete (b : Nat) (reqID : String) : PendingStore ν :=
  { ps with
    bucket := update ps.bucket b { ps.bucket b with
      requests := (ps.bucket b).requests.erase reqID
      size := (ps.bucket b).size - 1 } }

/-- `removeRequest`, and whether `OnDelete` was called. -/
def removeRequest (reqID : String) : Bool × PendingStore ν :=
  let swapped := { ps with reqID2Bucket := ps.reqID2Bucket.insert reqID tombstone }
  match ps.reqID2Bucket.lookup reqID with
  | none => (false, swapped)
  | some b =>
    if b = tombstone then (false, swapped)
    else if reqID ∈ (ps.bucket b).requests then
      (true, { ps.delete b reqID with reqID2Bucket := ps.reqID2Bucket.erase reqID })
    else (false, swapped)

/-- `RemoveRequests`, and how often `OnDelete` was called. -/
def removeRequests : List String → PendingStore ν → Nat × PendingStore ν
  | [], ps => (0, ps)
  | reqID :: reqIDs, ps =>
    let (removed, ps') := ps.removeRequest reqID
    let (count, ps'') := removeRequests reqIDs ps'
    (count + removed.toNat, ps'')

def contains (reqID : String) : Bool :=
  match ps.reqID2Bucket.lookup reqID with
  | none => false
  | some b => b ≠ tombstone ∧ reqID ∈ (ps.bucket b).requests

/-- `Prune`, for one entry of the index. -/
def pruneRequest (f : ν → Except String Unit) (ps : PendingStore ν) (reqID : String) (b : Nat) :
    Bool × PendingStore ν :=
  match (ps.bucket b).requests.lookup reqID with
  | none => (false, ps)
  | some request =>
    if (f request).isOk then (false, ps)
    else (true, { ps.delete b reqID with reqID2Bucket := ps.reqID2Bucket.erase reqID })

/-- The loop of `Prune`, and how often `OnDelete` was called. -/
def pruneEntries (f : ν → Except String Unit) : List (String × Nat) → PendingStore ν → Nat × PendingStore ν
  | [], ps => (0, ps)
  | e :: entries, ps =>
    let (removed, ps') := ps.pruneRequest f e.1 e.2
    let (count, ps'') := pruneEntries f entries ps'
    (count + removed.toNat, ps'')

/-- `Prune`: every request for which `f` fails is removed, in whatever order. -/
def prune (f : ν → Except String Unit) : Nat × PendingStore ν := pruneEntries f (pairs ps.reqID2Bucket) ps

def rotateBuckets : PendingStore ν :=
  if (ps.bucket ps.currentBucket).size = 0 then ps
  else
    { ps with
      bucket := update (update ps.bucket ps.currentBucket { ps.bucket ps.currentBucket with isSealed := true })
        (ps.currentBucket + 1) newBucket
      buckets := ps.buckets ++ [ps.currentBucket]
      currentBucket := ps.currentBucket + 1 }

def garbageCollectEmptyBuckets : PendingStore ν :=
  { ps with buckets := ps.buckets.filter fun b => 0 < (ps.bucket b).size }

/-- `garbageCollectProcessed`, where `expired` are the ids whose tombstones are old enough. -/
def garbageCollectProcessed (expired : List String) : PendingStore ν :=
  { ps with
    reqID2Bucket := (expired.filter fun reqID => ps.reqID2Bucket.lookup reqID = some tombstone).foldl
      (fun m reqID => m.erase reqID) ps.reqID2Bucket }

def getAllRequests (o : RangeOrder String ν) : List (String × ν) :=
  (ps.buckets ++ [ps.currentBucket]).flatMap fun b => o.order (pairs (ps.bucket b).requests)

/-! ## What the store holds -/

/-- The index, and the buckets that are not collected. -/
def shelves : Shelves String ν where
  index reqID := ps.reqID2Bucket.lookup reqID
  shelf b := (ps.bucket b).requests
  live := ps.buckets ++ [ps.currentBucket]

/-- **What the store holds and refuses.** -/
def content : Holdings String ν := ps.shelves.holdings

/-- The index agrees with the buckets, a bucket's size is the number of its requests, and the current bucket is the
newest one. -/
structure Inv : Prop where
  ok : ps.shelves.Ok
  bucket_lt : ∀ b ∈ ps.buckets, tombstone < b ∧ b < ps.currentBucket
  current_pos : tombstone < ps.currentBucket
  points : ps.shelves.Points tombstone
  size_eq : ∀ b ∈ ps.shelves.live, (ps.bucket b).size = (ps.bucket b).requests.entries.length
  tombstone_empty : (ps.bucket tombstone).requests = ∅
  open_current : (ps.bucket ps.currentBucket).isSealed = false

variable {ps} {reqID : String} {request : ν} {b : Nat}

theorem mem_live : b ∈ ps.shelves.live ↔ b ∈ ps.buckets ∨ b = ps.currentBucket := by
  simp [shelves]

theorem current_mem_live : ps.currentBucket ∈ ps.shelves.live := mem_live.mpr (.inr rfl)

theorem Inv.tombstone_notMem (h : ps.Inv) : tombstone ∉ ps.shelves.live := by
  intro hmem
  rcases mem_live.mp hmem with hb | hb
  · exact Nat.lt_irrefl _ (h.bucket_lt _ hb).1
  · exact Nat.lt_irrefl _ (hb ▸ h.current_pos)

theorem Inv.known_iff (h : ps.Inv) : ps.content.Known reqID ↔ reqID ∈ ps.reqID2Bucket := by
  have hknown := h.ok.known_iff (k := reqID)
  rw [content, hknown, ← AList.lookup_isSome, Option.isSome_iff_ne_none]
  rfl

theorem inv_newPendingStore : (newPendingStore : PendingStore ν).Inv where
  ok := ⟨by simp [shelves, newPendingStore], by simp [shelves, newPendingStore, newBucket]⟩
  bucket_lt := by simp [newPendingStore]
  current_pos := Nat.one_pos
  points := by simp [Shelves.Points, shelves, newPendingStore]
  size_eq := by simp [newPendingStore, newBucket, shelves]
  tombstone_empty := rfl
  open_current := rfl

theorem content_newPendingStore : (newPendingStore : PendingStore ν).content = .empty :=
  Holdings.ext rfl (by simp [content, Shelves.holdings, shelves, newPendingStore, empty])

/-! ## What the operations do -/

theorem shelves_put {bucket} (hbucket : bucket.requests = (ps.bucket b).requests.insert reqID request) : ({ ps with
      bucket := update ps.bucket b bucket
      reqID2Bucket := ps.reqID2Bucket.insert reqID b } : PendingStore ν).shelves = ps.shelves.put b reqID request := by
  refine Shelves.ext (lookup_insert_eq_update _ _ _) (funext fun b' => ?_) rfl
  by_cases hb : b' = b
  · subst hb
    simp [shelves, Shelves.put, hbucket]
  · simp [shelves, Shelves.put, hb]

theorem Inv.put (h : ps.Inv) (hindex : reqID ∉ ps.reqID2Bucket)
    (hmem : reqID ∉ (ps.bucket ps.currentBucket).requests) {ps'} (hps' : ps' = { ps with
      bucket := update ps.bucket ps.currentBucket { ps.bucket ps.currentBucket with
        requests := (ps.bucket ps.currentBucket).requests.insert reqID request
        size := (ps.bucket ps.currentBucket).size + 1 }
      reqID2Bucket := ps.reqID2Bucket.insert reqID ps.currentBucket }) :
    ps'.Inv ∧ ps'.content = ps.content.store reqID request := by
  have hunknown : ps.shelves.index reqID = none := AList.lookup_eq_none.mpr hindex
  have hshelves : ps'.shelves = ps.shelves.put ps.currentBucket reqID request := hps' ▸ shelves_put rfl
  refine ⟨⟨?_, ?_, ?_, ?_, ?_, ?_, ?_⟩, ?_⟩
  · rw [hshelves]
    exact h.ok.put hunknown current_mem_live request
  · subst hps'
    exact h.bucket_lt
  · subst hps'
    exact h.current_pos
  · rw [hshelves]
    exact h.points.update rfl rfl fun b hb => .inr (Option.some.inj hb ▸ current_mem_live)
  · intro b hb
    subst hps'
    by_cases hbb : b = ps.currentBucket
    · subst hbb
      simp only [update_self, length_entries_insert hmem, h.size_eq _ current_mem_live]
    · simpa [hbb] using h.size_eq b hb
  · subst hps'
    have hne : tombstone ≠ ps.currentBucket := Nat.ne_of_lt h.current_pos
    simpa [update_of_ne hne] using h.tombstone_empty
  · subst hps'
    simpa using h.open_current
  · rw [content, hshelves]
    exact holdings_put hunknown current_mem_live request

variable {ps' : PendingStore ν}

/-- **`Submit`** takes a request whose id is not known, and no other. -/
theorem submit_eq_ok (h : ps.Inv) (hsubmit : ps.submit reqID request = .ok ps') :
    ¬ ps.content.Known reqID ∧ ps'.Inv ∧ ps'.content = ps.content.store reqID request := by
  have hopen : ¬ (ps.bucket ps.currentBucket).isSealed = true := by simp [h.open_current]
  rw [submit, tryInsert, if_neg hopen] at hsubmit
  split at hsubmit
  · cases hsubmit
  · next hindex =>
    split at hsubmit
    · cases hsubmit
    · next hmem => exact ⟨fun hknown => hindex (h.known_iff.mp hknown), h.put hindex hmem (Except.ok.inj hsubmit).symm⟩

theorem submit_eq_error (h : ps.Inv) {err} (hsubmit : ps.submit reqID request = .error err) :
    ps.content.Known reqID := by
  have hopen : ¬ (ps.bucket ps.currentBucket).isSealed = true := by simp [h.open_current]
  rw [submit, tryInsert, if_neg hopen] at hsubmit
  split at hsubmit
  · next hindex => exact h.known_iff.mpr hindex
  · split at hsubmit
    · next hmem =>
      refine h.ok.known_iff.mpr ?_
      rw [h.ok.indexed current_mem_live hmem]
      exact Option.some_ne_none _
    · cases hsubmit

theorem shelves_drop :
    ({ ps.delete b reqID with reqID2Bucket := ps.reqID2Bucket.erase reqID } : PendingStore ν).shelves =
      ps.shelves.erase b reqID := by
  refine Shelves.ext (lookup_erase_eq_update _ _) (funext fun b' => ?_) rfl
  by_cases hb : b' = b
  · subst hb
    simp [shelves, Shelves.erase, delete]
  · simp [shelves, Shelves.erase, delete, hb]

section

variable (h : ps.Inv)
include h

theorem Inv.drop (hindex : ps.reqID2Bucket.lookup reqID = some b) (hb : b ≠ tombstone)
    (hps' : ps' = { ps.delete b reqID with reqID2Bucket := ps.reqID2Bucket.erase reqID }) :
    ps'.Inv ∧ ps'.content = ps.content.discard reqID := by
  have hlive : b ∈ ps.shelves.live := (h.points reqID b hindex).resolve_left hb
  have hmem : reqID ∈ (ps.bucket b).requests := h.ok.stored hindex hlive
  have hshelves : ps'.shelves = ps.shelves.erase b reqID := hps' ▸ shelves_drop
  refine ⟨⟨?_, ?_, ?_, ?_, ?_, ?_, ?_⟩, ?_⟩
  · rw [hshelves]
    exact h.ok.erase hindex
  · subst hps'
    exact h.bucket_lt
  · subst hps'
    exact h.current_pos
  · rw [hshelves]
    exact h.points.update rfl rfl nofun
  · intro b' hb'
    subst hps'
    by_cases hbb : b' = b
    · subst hbb
      simp [delete, length_entries_erase hmem, h.size_eq b' hlive]
    · simpa [delete, hbb] using h.size_eq b' hb'
  · subst hps'
    simpa [delete, update_of_ne hb.symm] using h.tombstone_empty
  · subst hps'
    by_cases hbb : ps.currentBucket = b
    · subst hbb
      simpa [delete] using h.open_current
    · simpa [delete, update_of_ne hbb] using h.open_current
  · rw [content, hshelves]
    exact holdings_erase

theorem Inv.bury (hheld : ps.shelves.held reqID = none)
    (hps' : ps' = { ps with reqID2Bucket := ps.reqID2Bucket.insert reqID tombstone }) :
    ps'.Inv ∧ ps'.content = ps.content.bury reqID := by
  have hshelves : ps'.shelves = ps.shelves.bury tombstone reqID :=
    hps' ▸ Shelves.ext (lookup_insert_eq_update _ _ _) rfl rfl
  refine ⟨⟨?_, ?_, ?_, ?_, ?_, ?_, ?_⟩, ?_⟩
  · rw [hshelves]
    exact h.ok.bury hheld h.tombstone_notMem
  · subst hps'
    exact h.bucket_lt
  · subst hps'
    exact h.current_pos
  · rw [hshelves]
    exact h.points.update rfl rfl fun b hb => .inl (Option.some.inj hb).symm
  · subst hps'
    exact h.size_eq
  · subst hps'
    exact h.tombstone_empty
  · subst hps'
    exact h.open_current
  · rw [content, hshelves]
    exact holdings_bury hheld h.tombstone_notMem

/-- **`removeRequest`** forgets a request that is held, and tombstones the id of one that is not. -/
theorem removeRequest_spec (reqID : String) :
    (ps.removeRequest reqID).2.Inv ∧ (ps.removeRequest reqID).2.content = ps.content.bury reqID := by
  cases hindex : ps.reqID2Bucket.lookup reqID with
  | none =>
    have hheld : ps.shelves.held reqID = none := h.ok.held_eq_none.mpr fun b _ hb => by
      simp [shelves, hindex] at hb
    exact h.bury hheld (by simp [removeRequest, hindex])
  | some b =>
    by_cases hb : b = tombstone
    · have hheld : ps.shelves.held reqID = none := h.ok.held_eq_none.mpr fun b' hlive hb' => by
        obtain rfl : b = b' := Option.some.inj (hindex.symm.trans hb')
        exact h.tombstone_notMem (hb ▸ hlive)
      exact h.bury hheld (by simp [removeRequest, hindex, hb])
    · have hlive : b ∈ ps.shelves.live := (h.points reqID b hindex).resolve_left hb
      have hmem : reqID ∈ (ps.bucket b).requests := h.ok.stored hindex hlive
      have hheld : ps.shelves.held reqID ≠ none := fun hnone => h.ok.held_eq_none.mp hnone b hlive hindex
      have hbury : ps.content.discard reqID = ps.content.bury reqID := discard_eq_bury hheld
      rw [← hbury]
      exact h.drop hindex hb (by simp [removeRequest, hindex, hb, hmem])

theorem removeRequests_spec (reqIDs : List String) :
    (removeRequests reqIDs ps).2.Inv ∧ (removeRequests reqIDs ps).2.content = ps.content.buryAll reqIDs := by
  induction reqIDs generalizing ps with
  | nil => exact ⟨h, rfl⟩
  | cons reqID reqIDs ih =>
    obtain ⟨hinv, hcontent⟩ := removeRequest_spec h reqID
    have hrest := ih hinv
    rw [hcontent] at hrest
    exact hrest

/-- What is held is also what `Contains` reports. -/
theorem Inv.contains_iff : ps.contains reqID = true ↔ ps.content.held reqID ≠ none := by
  rw [content, Shelves.holdings, ne_eq, h.ok.held_eq_none, contains]
  cases hindex : ps.reqID2Bucket.lookup reqID with
  | none =>
    simp [shelves, hindex]
  | some b =>
    have hiff : (∀ b' ∈ ps.shelves.live, ps.shelves.index reqID ≠ some b') ↔ b ∉ ps.shelves.live := by
      refine ⟨fun hnone hlive => hnone b hlive hindex, fun hnot b' hlive hb' => hnot ?_⟩
      obtain rfl : b = b' := Option.some.inj (hindex.symm.trans hb')
      exact hlive
    rw [hiff, not_not, decide_eq_true_iff]
    constructor
    · exact fun hb => (h.points reqID b hindex).resolve_left hb.1
    · exact fun hlive => ⟨fun heq => h.tombstone_notMem (heq ▸ hlive), h.ok.stored hindex hlive⟩

theorem Inv.held_of_index (hindex : ps.reqID2Bucket.lookup reqID = some b) :
    ps.content.held reqID = (ps.bucket b).requests.lookup reqID := by
  rcases h.points reqID b hindex with rfl | hlive
  · rw [h.tombstone_empty, AList.lookup_empty]
    exact held_eq_none_of_mem_blocked ⟨tombstone, hindex, h.tombstone_notMem⟩
  · exact h.ok.held_of_mem hlive (h.ok.stored hindex hlive)

theorem Inv.pruneRequest (f) (hindex : ps.reqID2Bucket.lookup reqID = some b) : (ps.pruneRequest f reqID b).2.Inv ∧
      (ps.pruneRequest f reqID b).2.content = ps.content.keepAt [reqID] (fun _ request => (f request).isOk) ∧
      ∀ reqID', reqID' ≠ reqID →
        (ps.pruneRequest f reqID b).2.reqID2Bucket.lookup reqID' = ps.reqID2Bucket.lookup reqID' := by
  have hheld := h.held_of_index hindex
  cases hrequest : (ps.bucket b).requests.lookup reqID with
  | none =>
    have hsame : (ps.pruneRequest f reqID b).2 = ps := by simp [PendingStore.pruneRequest, hrequest]
    rw [hsame]
    refine ⟨h, Holdings.ext (funext fun reqID' => ?_) rfl, fun _ _ => rfl⟩
    by_cases hid : reqID' = reqID
    · subst hid
      simp [keepAt, hheld, hrequest]
    · simp [keepAt, hid]
  | some request =>
    rw [hrequest] at hheld
    by_cases hok : (f request).isOk
    · have hsame : (ps.pruneRequest f reqID b).2 = ps := by simp [PendingStore.pruneRequest, hrequest, hok]
      rw [hsame]
      refine ⟨h, Holdings.ext (funext fun reqID' => ?_) rfl, fun _ _ => rfl⟩
      by_cases hid : reqID' = reqID
      · subst hid
        simp [keepAt, hheld, hok, Option.filter]
      · simp [keepAt, hid]
    · have hdropped : (ps.pruneRequest f reqID b).2 =
          { ps.delete b reqID with reqID2Bucket := ps.reqID2Bucket.erase reqID } := by
        simp [PendingStore.pruneRequest, hrequest, hok]
      have hb : b ≠ tombstone := by
        rintro rfl
        rw [h.tombstone_empty, AList.lookup_empty] at hrequest
        cases hrequest
      obtain ⟨hinv, hcontent⟩ := h.drop hindex hb hdropped
      refine ⟨hinv, hcontent.trans (Holdings.ext (funext fun reqID' => ?_) ?_), fun reqID' hne => ?_⟩
      · by_cases hid : reqID' = reqID
        · subst hid
          simp [keepAt, Holdings.discard, hheld, hok, Option.filter]
        · simp [keepAt, Holdings.discard, hid]
      · refine Set.sdiff_singleton_eq_self fun hblocked => ?_
        have hnone := held_eq_none_of_mem_blocked hblocked
        exact Option.some_ne_none request (hheld.symm.trans hnone)
      · rw [hdropped]
        exact AList.lookup_erase_ne hne

theorem Inv.pruneEntries (f) {entries}
    (hnodup : (entries.map Prod.fst).Nodup) (hentries : ∀ e ∈ entries, ps.reqID2Bucket.lookup e.1 = some e.2) :
    (PendingStore.pruneEntries f entries ps).2.Inv ∧ (PendingStore.pruneEntries f entries ps).2.content =
      ps.content.keepAt (entries.map Prod.fst) fun _ request => (f request).isOk := by
  induction entries generalizing ps with
  | nil => exact ⟨h, Holdings.ext (by simp [keepAt]; rfl) rfl⟩
  | cons e entries ih =>
    obtain ⟨hnotMem, hnodup⟩ := nodup_cons.mp hnodup
    obtain ⟨hinv, hcontent, hothers⟩ := h.pruneRequest f (hentries e mem_cons_self)
    have hrest := ih hinv hnodup fun e' he' => by
      rw [hothers e'.1 fun heq => hnotMem (heq ▸ mem_map_of_mem he')]
      exact hentries e' (mem_cons_of_mem e he')
    rw [hcontent, keepAt_cons] at hrest
    exact hrest

/-- **`Prune`** keeps the requests that pass. -/
theorem prune_spec (f) :
    (ps.prune f).2.Inv ∧ (ps.prune f).2.content = ps.content.keep fun _ request => (f request).isOk := by
  have hpairs := enumerates_pairs ps.reqID2Bucket
  obtain ⟨hinv, hcontent⟩ := h.pruneEntries f hpairs.nodup fun e he => hpairs.mem_iff.mp he
  refine ⟨hinv, hcontent.trans (keepAt_eq_keep (fun reqID hheld => ?_) _)⟩
  have hknown := h.ok.known_iff.mp (.inl hheld)
  obtain ⟨b, hb⟩ := Option.ne_none_iff_exists'.mp hknown
  exact mem_map.mpr ⟨(reqID, b), hpairs.mem_iff.mpr hb, rfl⟩

/-- **Rotating the buckets** changes nothing in what is held. -/
theorem rotateBuckets_spec : ps.rotateBuckets.Inv ∧ ps.rotateBuckets.content = ps.content := by
  unfold rotateBuckets
  split
  · exact ⟨h, rfl⟩
  · have hunused : ∀ reqID, ps.shelves.index reqID ≠ some (ps.currentBucket + 1) := fun reqID hindex => by
      rcases h.points reqID _ hindex with heq | hlive
      · exact absurd heq (Nat.succ_ne_zero _)
      · rcases mem_live.mp hlive with hb | hb
        · exact absurd (h.bucket_lt _ hb).2 (by omega)
        · omega
    have hnotMem : ps.currentBucket + 1 ∉ ps.shelves.live := fun hlive => by
      rcases mem_live.mp hlive with hb | hb
      · exact absurd (h.bucket_lt _ hb).2 (by omega)
      · omega
    generalize hps' : ({ ps with
      bucket := update (update ps.bucket ps.currentBucket { ps.bucket ps.currentBucket with isSealed := true })
        (ps.currentBucket + 1) newBucket
      buckets := ps.buckets ++ [ps.currentBucket]
      currentBucket := ps.currentBucket + 1 } : PendingStore ν) = ps'
    have hbucket : ∀ b, b ≠ ps.currentBucket + 1 → (ps'.bucket b).requests = (ps.bucket b).requests ∧
        (ps'.bucket b).size = (ps.bucket b).size := fun b hb => by
      subst hps'
      by_cases hbb : b = ps.currentBucket
      · subst hbb
        simp
      · simp [hb, hbb]
    have hshelves : ps'.shelves = ps.shelves.add (ps.currentBucket + 1) := by
      refine Shelves.ext (by subst hps'; rfl) (funext fun b => ?_) (by subst hps'; rfl)
      by_cases hb : b = ps.currentBucket + 1
      · subst hps' hb
        simp [shelves, Shelves.add, newBucket]
      · simp only [Shelves.add, update_of_ne hb]
        exact (hbucket b hb).1
    refine ⟨⟨?_, ?_, ?_, ?_, ?_, ?_, ?_⟩, ?_⟩
    · rw [hshelves]
      exact h.ok.add hnotMem hunused
    · subst hps'
      intro b hb
      rcases mem_live.mp hb with hb | rfl
      · exact ⟨(h.bucket_lt b hb).1, Nat.lt_succ_of_lt (h.bucket_lt b hb).2⟩
      · exact ⟨h.current_pos, Nat.lt_succ_self _⟩
    · subst hps'
      exact Nat.succ_pos _
    · intro reqID b hb
      rw [hshelves] at hb ⊢
      exact (h.points reqID b hb).imp_right fun hlive => mem_append_left _ hlive
    · intro b hb
      by_cases hbb : b = ps.currentBucket + 1
      · subst hps' hbb
        simp [newBucket]
      · rw [hshelves] at hb
        have hlive : b ∈ ps.shelves.live := by simpa [Shelves.add, hbb] using hb
        rw [(hbucket b hbb).1, (hbucket b hbb).2]
        exact h.size_eq b hlive
    · rw [(hbucket tombstone (Nat.succ_ne_zero _).symm).1]
      exact h.tombstone_empty
    · subst hps'
      simp [newBucket]
    · rw [content, hshelves]
      exact holdings_add hunused

/-- **Collecting the empty buckets** changes nothing in what is held. -/
theorem garbageCollectEmptyBuckets_spec :
    ps.garbageCollectEmptyBuckets.Inv ∧ ps.garbageCollectEmptyBuckets.content = ps.content := by
  have hsub : (ps.garbageCollectEmptyBuckets.shelves.live).Sublist ps.shelves.live :=
    filter_sublist.append (.refl _)
  have hempty : ∀ b ∈ ps.shelves.live, b ∉ ps.garbageCollectEmptyBuckets.shelves.live → ps.shelves.shelf b = ∅ := by
    intro b hb hnot
    have hsize : (ps.bucket b).size = 0 := by
      by_contra hpos
      refine hnot (mem_live.mpr ((mem_live.mp hb).imp_left fun hmem => mem_filter.mpr ⟨hmem, ?_⟩))
      exact decide_eq_true (Nat.pos_of_ne_zero hpos)
    rw [h.size_eq b hb] at hsize
    exact AList.ext (length_eq_zero_iff.mp hsize)
  obtain ⟨hok, hcontent⟩ := h.ok.closeEmpty hsub hempty
  refine ⟨⟨hok, fun b hb => h.bucket_lt b (mem_of_mem_filter hb), h.current_pos, fun reqID b hb => ?_,
    fun b hb => h.size_eq b (hsub.subset hb), h.tombstone_empty, h.open_current⟩, hcontent⟩
  refine (h.points reqID b hb).imp_right fun hlive => ?_
  by_contra hnot
  have hstored := h.ok.stored hb hlive
  rw [hempty b hlive hnot] at hstored
  exact AList.notMem_empty _ hstored

/-- **Collecting tombstones** makes ids unknown again. -/
theorem garbageCollectProcessed_spec (expired : List String) : (ps.garbageCollectProcessed expired).Inv ∧
      (ps.garbageCollectProcessed expired).content.held = ps.content.held := by
  have hlookup : ∀ reqID b, (ps.garbageCollectProcessed expired).reqID2Bucket.lookup reqID = some b ↔
      ps.reqID2Bucket.lookup reqID = some b ∧ (b = tombstone → reqID ∉ expired) := by
    intro reqID b
    rw [garbageCollectProcessed, lookup_foldl_erase, Option.ite_none_left_eq_some, mem_filter, decide_eq_true_iff]
    constructor
    · rintro ⟨hnot, hb⟩
      exact ⟨hb, fun heq hmem => hnot ⟨hmem, heq ▸ hb⟩⟩
    · rintro ⟨hb, hnot⟩
      exact ⟨fun hmem => hnot (Option.some.inj (hb.symm.trans hmem.2)) hmem.1, hb⟩
  have hlive : ∀ reqID, ∀ b ∈ ps.shelves.live,
      ((ps.garbageCollectProcessed expired).shelves.index reqID = some b ↔ ps.shelves.index reqID = some b) := by
    intro reqID b hb
    refine (hlookup reqID b).trans (and_iff_left fun heq => ?_)
    exact absurd hb (heq ▸ h.tombstone_notMem)
  have hok : (ps.garbageCollectProcessed expired).shelves.Ok :=
    ⟨h.ok.nodup, fun hb => (h.ok.mem_iff hb).trans (hlive _ _ hb).symm⟩
  refine ⟨⟨hok, h.bucket_lt, h.current_pos, fun reqID b hb => h.points reqID b ((hlookup reqID b).mp hb).1, h.size_eq,
    h.tombstone_empty, h.open_current⟩, funext fun reqID => Option.ext fun request => ?_⟩
  refine held_eq_some.trans (Iff.trans ?_ held_eq_some.symm)
  refine exists_congr fun b => and_congr_right fun hb => and_congr_left fun _ => hlive reqID b hb

/-- `GetAllRequests` goes over what the store holds. -/
theorem Inv.enumerates_getAllRequests (o) : Enumerates (ps.getAllRequests o) ps.content.held :=
  h.ok.enumerates_all o

end

end PendingStore

end Arma
