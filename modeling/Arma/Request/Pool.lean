import Arma.Lib.Bytes
import Arma.Request.BatchStore
import Arma.Request.PendingStore

/-!
# The mem pool

Model of `Pool` (`request/pool.go`). While its batcher is the primary it batches, and its requests are in the batch
store; otherwise they are in the pending store. `Restart` moves them from one to the other.

* A call is one step. Calls that hold the pool's lock for reading can overlap in the source; each of them takes effect
  on an id in one atomic operation on an index.
* A call that does not return gives `none`: `Insert` can loop for ever, and the semaphore panics when more is released
  than is held.
* A `Submit` waits for a permit. The step is taken when it gets one, or when its time is up and there is none.
* The stores of a closed pool are dropped, and nothing reads them.

`Pool.content` is what the pool holds and refuses. What each call does to it is said by one lemma: `submit_spec`,
`nextRequests_spec`, `removeRequests_spec`, `prune_spec`, and **`restart_spec`**: the move between the stores keeps
exactly what is held.
-/

namespace Arma

open Arma.Lib List Function PendingStore Holdings

/-- `PoolOptions`, without the times. -/
structure PoolOptions where
  maxSize : Nat
  batchMaxSize : UInt32
  batchMaxSizeBytes : UInt32
  requestMaxBytes : Nat
  deriving DecidableEq, Repr

/-- The store in use: the batch store if batching is enabled. -/
inductive PoolStore where
  | pending (ps : PendingStore Bytes)
  | batching (bs : BatchStore Bytes)

/-- `Pool`, with the number of permits that its semaphore has given out. -/
structure Pool where
  options : PoolOptions
  store : PoolStore
  permits : Nat
  size : Int
  closed : Bool
  stopped : Bool

def newPool (options : PoolOptions) : Pool where
  options
  store := .pending newPendingStore
  permits := 0
  size := 0
  closed := false
  stopped := false

namespace Pool

variable (requestID : Bytes → String) (o : RangeOrder String Bytes) (p : Pool)

def release (n : Nat) : Option Pool :=
  if n ≤ p.permits then some { p with permits := p.permits - n } else none

def submitToPendingStore (ps : PendingStore Bytes) (reqID : String) (request : Bytes) :
    Option (Except String Unit × Pool) :=
  match ps.submit reqID request with
  | .error err => do
    let p ← p.release 1
    return (.error err, p)
  | .ok ps => some (.ok (), { p with store := .pending ps, size := p.size + 1 })

def submitToBatchStore (bs : BatchStore Bytes) (reqID : String) (request : Bytes) :
    Option (Except String Unit × Pool) := do
  match ← bs.insert reqID request (UInt32.ofNat request.length) with
  | (false, bs) =>
    let p ← { p with store := .batching bs }.release 1
    return (.error s!"request {reqID} already inserted", p)
  | (true, bs) => return (.ok (), { p with store := .batching bs, size := p.size + 1 })

/-- The end of `Submit`, when it has its permit. -/
def submitToStore (reqID : String) (request : Bytes) : Option (Except String Unit × Pool) :=
  match p.store with
  | .pending ps => p.submitToPendingStore ps reqID request
  | .batching bs => p.submitToBatchStore bs reqID request

def submit (request : Bytes) : Option (Except String Unit × Pool) :=
  if p.closed ∨ p.stopped then some (.error "pool halted or closed, request rejected", p)
  else if p.options.requestMaxBytes < request.length then
    some (.error
      s!"submitted request ({request.length}) is bigger than request max bytes ({p.options.requestMaxBytes})", p)
  else if p.options.maxSize ≤ p.permits then
    some (.error s!"timed out enqueuing request {requestID request} to pool", p)
  else { p with permits := p.permits + 1 }.submitToStore (requestID request) request

/-- `NextRequests`: the requests with their ids. -/
def nextRequests : List (String × Bytes) × Pool :=
  if p.closed ∨ p.stopped then ([], p)
  else
    match p.store with
    | .pending _ => ([], p)
    | .batching bs =>
      let (requests, bs) := bs.fetch o
      (requests, { p with store := .batching bs })

/-- `onDelete`, which was called `count` times. -/
def deleted (count : Nat) : Option Pool := do
  let p ← p.release count
  return { p with size := p.size - count }

def removeRequests (requestIDs : List String) : Option Pool :=
  if p.closed then some p
  else
    match p.store with
    | .pending ps =>
      let (count, ps) := ps.removeRequests requestIDs
      { p with store := .pending ps }.deleted count
    | .batching bs =>
      let (count, bs) := bs.removeRequests requestIDs
      { p with store := .batching bs }.deleted count

def contains (reqID : String) : Bool :=
  if p.closed ∨ p.stopped then false
  else
    match p.store with
    | .pending ps => ps.contains reqID
    | .batching _ => false

def prune (predicate : Bytes → Except String Unit) : Option Pool :=
  if p.closed then some p
  else
    match p.store with
    | .pending ps =>
      let (count, ps) := ps.prune predicate
      { p with store := .pending ps }.deleted count
    | .batching bs =>
      let (count, bs) := bs.prune fun _ request => predicate request
      { p with store := .batching bs }.deleted count

def close : Pool := { p with closed := true, size := 0 }

def halt : Pool := { p with stopped := true }

/-- The loop of `moveToPendingStore`: an error is only logged. -/
def moveAllToPending : List Bytes → Pool → Option Pool
  | [], p => some p
  | request :: requests, p => do
    let (_, p) ← p.submitToStore (requestID request) request
    moveAllToPending requests p

/-- The permits of the requests that were fetched and not removed are released, when `moved` others are moved. -/
def releaseDropped (moved : Nat) : Option Pool :=
  let dropped := p.size - moved
  if 0 < dropped then p.release dropped.toNat else some p

def moveToPendingStore (bs : BatchStore Bytes) : Option Pool := do
  let requests := (bs.forEach o).map Prod.snd
  let p ← p.releaseDropped requests.length
  moveAllToPending requestID requests { p with store := .pending newPendingStore, size := 0 }

/-- The loop of `moveToBatchStore`, and whether it has come to its end: an error ends it. -/
def moveAllToBatch : List Bytes → Pool → Option (Bool × Pool)
  | [], p => some (true, p)
  | request :: requests, p => do
    match ← p.submitToStore (requestID request) request with
    | (.ok (), p) => moveAllToBatch requests p
    | (.error _, p) => return (false, p)

def moveToBatchStore (ps : PendingStore Bytes) : Option Pool := do
  let requests := (ps.getAllRequests o).map Prod.snd
  let batchStore := newBatchStore p.options.batchMaxSize p.options.batchMaxSizeBytes
  let (moved, p) ← moveAllToBatch requestID requests { p with store := .batching batchStore }
  return if moved then { p with size := requests.length } else p

/-- The four cases of `Restart`. -/
def switchStore (batching : Bool) : Option Pool :=
  match p.store, batching with
  | .batching _, true => some p
  | .pending _, false => some p
  | .batching bs, false => p.moveToPendingStore requestID o bs
  | .pending ps, true => p.moveToBatchStore requestID o ps

def restart (batching : Bool) : Option Pool :=
  if p.closed then some { p with stopped := false }
  else do
    let p ← p.switchStore requestID o batching
    return { p with stopped := false }

/-- What the pending store does now and then: it rotates its buckets, and collects the empty ones and old
tombstones. -/
def tick (expired : List String) : Pool :=
  match p.store with
  | .pending ps => { p with
      store := .pending (ps.rotateBuckets.garbageCollectEmptyBuckets.garbageCollectProcessed expired) }
  | .batching _ => p

end Pool

/-! ## What the pool holds -/

namespace PoolStore

/-- What the store in use holds and refuses. -/
def content : PoolStore → Holdings String Bytes
  | .pending ps => ps.content
  | .batching bs => bs.content

/-- The invariant of the store in use. -/
def Inv : PoolStore → Prop
  | .pending ps => ps.Inv
  | .batching bs => bs.Inv

end PoolStore

namespace Pool

/-- **What the pool holds and refuses.** -/
def content (p : Pool) : Holdings String Bytes := if p.closed then .empty else p.store.content

/-- The store in use is sound, and holds every request under its id. -/
structure Inv (requestID : Bytes → String) (p : Pool) : Prop where
  store : p.store.Inv
  keyed : ∀ {reqID request}, p.store.content.held reqID = some request → requestID request = reqID

variable {requestID : Bytes → String} {o : RangeOrder String Bytes} {p p' : Pool} {reqID : String} {request : Bytes}

theorem content_of_open (h : p.closed = false) : p.content = p.store.content := by
  simp [content, h]

theorem Inv.requestID_eq (hp : p.Inv requestID) (h : p.content.held reqID = some request) :
    requestID request = reqID := by
  unfold content at h
  split at h
  · cases h
  · exact hp.keyed h

theorem inv_newPool (options : PoolOptions) : (newPool options).Inv requestID where
  store := inv_newPendingStore
  keyed h := by
    have hnone : (newPool options).store.content = .empty := content_newPendingStore
    rw [hnone] at h
    cases h

theorem release_eq_some {n} (h : p.release n = some p') :
    p'.options = p.options ∧ p'.store = p.store ∧ p'.closed = p.closed ∧ p'.stopped = p.stopped := by
  unfold release at h
  split at h
  · cases h
    exact ⟨rfl, rfl, rfl, rfl⟩
  · cases h

/-- What a call leaves alone when it works on the store. -/
structure Frame (p p' : Pool) : Prop where
  options : p'.options = p.options
  closed : p'.closed = p.closed
  stopped : p'.stopped = p.stopped

theorem Frame.rfl : p.Frame p := ⟨Eq.refl _, Eq.refl _, Eq.refl _⟩

theorem Frame.trans {p''} (h : p.Frame p') (h' : p'.Frame p'') : p.Frame p'' :=
  ⟨h'.options.trans h.options, h'.closed.trans h.closed, h'.stopped.trans h.stopped⟩

/-- What the result of a submission says: a request is taken if its id is not known, and only then. -/
def Submitted (reqID : String) (request : Bytes) (c c' : Holdings String Bytes) : Except String Unit → Prop
  | .ok () => ¬ c.Known reqID ∧ c' = c.store reqID request
  | .error _ => c.Known reqID ∧ c' = c

theorem submitToStore_spec (hp : p.store.Inv) {result} (h : p.submitToStore reqID request = some (result, p')) :
    p.Frame p' ∧ p'.store.Inv ∧ Submitted reqID request p.store.content p'.store.content result := by
  unfold submitToStore at h
  cases hstore : p.store with
  | pending ps =>
    rw [hstore] at h hp
    simp only [submitToPendingStore] at h
    cases hsubmit : ps.submit reqID request with
    | error err =>
      simp only [hsubmit, Option.bind_eq_bind, Option.bind_eq_some_iff] at h
      obtain ⟨p₁, hrelease, hret⟩ := h
      cases hret
      obtain ⟨hoptions, hstore', hclosed, hstopped⟩ := release_eq_some hrelease
      rw [hstore', hstore]
      exact ⟨⟨hoptions, hclosed, hstopped⟩, hp, submit_eq_error hp hsubmit, rfl⟩
    | ok ps' =>
      simp only [hsubmit] at h
      cases h
      obtain ⟨hunknown, hinv, hcontent⟩ := submit_eq_ok hp hsubmit
      exact ⟨⟨rfl, rfl, rfl⟩, hinv, hunknown, hcontent⟩
  | batching =>
    rw [hstore] at h hp
    simp only [submitToBatchStore, Option.bind_eq_bind, Option.bind_eq_some_iff] at h
    obtain ⟨⟨inserted, bs'⟩, hinsert, h⟩ := h
    obtain ⟨hinv, hspec⟩ := BatchStore.insert_spec hp hinsert
    cases inserted with
    | false =>
      simp only [Option.bind_eq_some_iff] at h
      obtain ⟨p₁, hrelease, hret⟩ := h
      cases hret
      obtain ⟨hoptions, hstore', hclosed, hstopped⟩ := release_eq_some hrelease
      rw [hstore']
      rw [if_neg Bool.false_ne_true] at hspec
      exact ⟨⟨hoptions, hclosed, hstopped⟩, hinv, hspec⟩
    | true =>
      cases h
      rw [if_pos rfl] at hspec
      exact ⟨⟨rfl, rfl, rfl⟩, hinv, hspec⟩

theorem Inv.of_store (h : p.Inv requestID) (hstore : p'.store.Inv)
    (hheld : ∀ {reqID request}, p'.store.content.held reqID = some request →
      p.store.content.held reqID = some request ∨ requestID request = reqID) : p'.Inv requestID where
  store := hstore
  keyed hr := (hheld hr).elim h.keyed id

structure Accepts (p : Pool) (request : Bytes) : Prop where
  notClosed : p.closed = false
  notStopped : p.stopped = false
  fits : request.length ≤ p.options.requestMaxBytes
  permit : p.permits < p.options.maxSize

/-- **`Submit`**: a request is taken only if its id is not known, and a pool that accepts it takes it then. -/
theorem submit_spec (hp : p.Inv requestID) {result} (h : p.submit requestID request = some (result, p')) :
    p.Frame p' ∧ p'.Inv requestID ∧ (p'.content = p.content ∨
        ¬ p.content.Known (requestID request) ∧ p'.content = p.content.store (requestID request) request) ∧
      (p.Accepts request → ¬ p.content.Known (requestID request) →
        p'.content = p.content.store (requestID request) request) := by
  unfold submit at h
  split at h
  · next hclosed =>
    cases h
    refine ⟨.rfl, hp, .inl rfl, fun haccepts => ?_⟩
    simp [haccepts.notClosed, haccepts.notStopped] at hclosed
  split at h
  · next hfits =>
    cases h
    exact ⟨.rfl, hp, .inl rfl, fun haccepts => absurd haccepts.fits (Nat.not_le.mpr hfits)⟩
  split at h
  · next hpermit =>
    cases h
    exact ⟨.rfl, hp, .inl rfl, fun haccepts => absurd haccepts.permit (Nat.not_lt.mpr hpermit)⟩
  next hclosed _ _ =>
  simp only [not_or, Bool.not_eq_true] at hclosed
  obtain ⟨hframe, hinv, hresult⟩ := submitToStore_spec (p := { p with permits := p.permits + 1 }) hp.store h
  have hframe : p.Frame p' := ⟨hframe.options, hframe.closed, hframe.stopped⟩
  rw [content_of_open hclosed.1, content_of_open (hframe.closed.trans hclosed.1)]
  cases result with
  | error err =>
    obtain ⟨hknown, hcontent⟩ := hresult
    have hcontent : p'.store.content = p.store.content := hcontent
    refine ⟨hframe, hp.of_store hinv fun hr => .inl (hcontent ▸ hr), .inl hcontent, fun _ hunknown => ?_⟩
    exact absurd hknown hunknown
  | ok =>
    obtain ⟨hunknown, hcontent⟩ := hresult
    have hcontent : p'.store.content = p.store.content.store (requestID request) request := hcontent
    refine ⟨hframe, hp.of_store hinv fun {reqID request'} hr => ?_, .inr ⟨hunknown, hcontent⟩, fun _ _ => hcontent⟩
    rw [hcontent] at hr
    by_cases hid : reqID = requestID request
    · subst hid
      simp only [Holdings.store, update_self, Option.some.injEq] at hr
      exact .inr (hr ▸ rfl)
    · simp only [Holdings.store, update_of_ne hid] at hr
      exact .inl hr

/-! ## The move between the stores -/

section Move

variable {l : List (String × Bytes)}

theorem not_known_of_cons {e : String × Bytes} {h : Holdings String Bytes} (hnodup : ((e :: l).map Prod.fst).Nodup)
    (hnew : ∀ e' ∈ e :: l, ¬ h.Known e'.1) : ∀ e' ∈ l, ¬ (h.store e.1 e.2).Known e'.1 := by
  intro e' he' hknown
  rcases known_store.mp hknown with heq | hknown
  · exact (nodup_cons.mp hnodup).1 (heq ▸ mem_map_of_mem he')
  · exact hnew e' (mem_cons_of_mem e he') hknown

section

variable (hkeyed : ∀ e ∈ l, requestID e.2 = e.1) (hnodup : (l.map Prod.fst).Nodup) (hp : p.store.Inv)
  (hnew : ∀ e ∈ l, ¬ p.store.content.Known e.1)
include hkeyed hnodup hp hnew

theorem moveAllToPending_spec (h : moveAllToPending requestID (l.map Prod.snd) p = some p') :
    p.Frame p' ∧ p'.store.Inv ∧ p'.store.content = p.store.content.storeAll l := by
  induction l generalizing p with
  | nil =>
    cases h
    exact ⟨.rfl, hp, rfl⟩
  | cons e l ih =>
    simp only [map_cons, moveAllToPending, Option.bind_eq_bind, Option.bind_eq_some_iff] at h
    obtain ⟨⟨result, p₁⟩, hsubmit, h⟩ := h
    obtain ⟨hframe, hinv, hresult⟩ := submitToStore_spec hp hsubmit
    rw [hkeyed e mem_cons_self] at hresult
    cases result with
    | error err => exact absurd hresult.1 (hnew e mem_cons_self)
    | ok =>
      obtain ⟨-, hcontent⟩ := hresult
      have hrest := ih (fun e' he' => hkeyed e' (mem_cons_of_mem e he')) (nodup_cons.mp hnodup).2 hinv
        (by rw [hcontent]; exact not_known_of_cons hnodup hnew) h
      rw [hcontent] at hrest
      exact ⟨hframe.trans hrest.1, hrest.2⟩

/-- When no request is known, nothing ends the loop early. -/
theorem moveAllToBatch_eq : moveAllToBatch requestID (l.map Prod.snd) p =
      (moveAllToPending requestID (l.map Prod.snd) p).map (Prod.mk true) := by
  induction l generalizing p with
  | nil => rfl
  | cons e l ih =>
    simp only [map_cons, moveAllToBatch, moveAllToPending]
    cases hsubmit : p.submitToStore (requestID e.2) e.2 with
    | none => rfl
    | some submitted =>
      obtain ⟨result, p₁⟩ := submitted
      obtain ⟨-, hinv, hresult⟩ := submitToStore_spec hp hsubmit
      rw [hkeyed e mem_cons_self] at hresult
      cases result with
      | error err => exact absurd hresult.1 (hnew e mem_cons_self)
      | ok =>
        refine ih (fun e' he' => hkeyed e' (mem_cons_of_mem e he')) (nodup_cons.mp hnodup).2 hinv ?_
        rw [hresult.2]
        exact not_known_of_cons hnodup hnew

end

end Move

theorem not_known_of_empty {store : PoolStore} (h : store.content = .empty) : ¬ store.content.Known reqID := by
  rw [h]
  exact not_known_empty

theorem Inv.move (hp : p.Inv requestID) {l} (hl : Enumerates l p.store.content.held)
    (hstore : p'.store.Inv) (hcontent : p'.store.content = empty.storeAll l) :
    p'.Inv requestID ∧ p'.store.content.held = p.store.content.held := by
  rw [storeAll_eq hl] at hcontent
  refine ⟨hp.of_store hstore fun hr => .inl ?_, by rw [hcontent]⟩
  rw [hcontent] at hr
  exact hr

theorem moveToPendingStore_spec {bs : BatchStore Bytes} (hp : p.Inv requestID) (hstore : p.store = .batching bs)
    (h : p.moveToPendingStore requestID o bs = some p') :
    p.Frame p' ∧ p'.Inv requestID ∧ p'.store.content.held = p.store.content.held := by
  simp only [moveToPendingStore, Option.bind_eq_bind, Option.bind_eq_some_iff] at h
  obtain ⟨p₁, hrelease, h⟩ := h
  have hframe : p.Frame p₁ := by
    simp only [releaseDropped] at hrelease
    split at hrelease
    · obtain ⟨hoptions, -, hclosed, hstopped⟩ := release_eq_some hrelease
      exact ⟨hoptions, hclosed, hstopped⟩
    · cases hrelease
      exact .rfl
  have hbs : bs.Inv := by
    have hinv := hp.store
    rw [hstore] at hinv
    exact hinv
  have hl : Enumerates (bs.forEach o) p.store.content.held := by
    rw [hstore]
    exact hbs.enumerates_forEach o
  have hempty : (PoolStore.pending newPendingStore).content = .empty := content_newPendingStore
  obtain ⟨hframe', hinv, hcontent⟩ := moveAllToPending_spec
    (p := { p₁ with store := .pending newPendingStore, size := 0 }) (fun e he => hp.keyed (hl.mem_iff.mp he)) hl.nodup
    inv_newPendingStore (fun _ _ => not_known_of_empty hempty) h
  rw [hempty] at hcontent
  have hframe : p.Frame p' := hframe.trans ⟨hframe'.options, hframe'.closed, hframe'.stopped⟩
  exact ⟨hframe, hp.move hl hinv hcontent⟩

theorem Inv.enumerates_getAllRequests {ps} (hp : p.Inv requestID) (hstore : p.store = .pending ps) :
    Enumerates (ps.getAllRequests o) p.store.content.held := by
  have hps := hp.store
  rw [hstore] at hps ⊢
  exact hps.enumerates_getAllRequests o

theorem content_newBatching :
    (PoolStore.batching (newBatchStore p.options.batchMaxSize p.options.batchMaxSizeBytes)).content = .empty :=
  BatchStore.content_newBatchStore _ _

section

variable {ps : PendingStore Bytes} (hp : p.Inv requestID) (hstore : p.store = .pending ps)
include hp hstore

theorem moveToBatchStore_eq :
    p.moveToBatchStore requestID o ps = (moveAllToPending requestID ((ps.getAllRequests o).map Prod.snd)
        { p with store := .batching (newBatchStore p.options.batchMaxSize p.options.batchMaxSizeBytes) }).map
        fun p' => { p' with size := (ps.getAllRequests o).length } := by
  have hl : Enumerates (ps.getAllRequests o) p.store.content.held := hp.enumerates_getAllRequests hstore
  have hmove := moveAllToBatch_eq
    (p := { p with store := .batching (newBatchStore p.options.batchMaxSize p.options.batchMaxSizeBytes) })
    (fun e he => hp.keyed (hl.mem_iff.mp he)) hl.nodup (BatchStore.inv_newBatchStore _ _)
    fun _ _ => not_known_of_empty content_newBatching
  simp only [moveToBatchStore, hmove, length_map]
  cases moveAllToPending requestID _ _ <;> rfl

theorem moveToBatchStore_spec (h : p.moveToBatchStore requestID o ps = some p') :
    p.Frame p' ∧ p'.Inv requestID ∧ p'.store.content.held = p.store.content.held := by
  have hl : Enumerates (ps.getAllRequests o) p.store.content.held := hp.enumerates_getAllRequests hstore
  rw [moveToBatchStore_eq hp hstore, Option.map_eq_some_iff] at h
  obtain ⟨p₁, hmove, rfl⟩ := h
  obtain ⟨hframe, hinv, hcontent⟩ := moveAllToPending_spec
    (p := { p with store := .batching (newBatchStore p.options.batchMaxSize p.options.batchMaxSizeBytes) })
    (fun e he => hp.keyed (hl.mem_iff.mp he)) hl.nodup (BatchStore.inv_newBatchStore _ _)
    (fun _ _ => not_known_of_empty content_newBatching) hmove
  have hmoved := hp.move hl hinv (hcontent.trans (by rw [content_newBatching]))
  exact ⟨⟨hframe.options, hframe.closed, hframe.stopped⟩, ⟨hmoved.1.store, hmoved.1.keyed⟩, hmoved.2⟩

end

/-- **`Restart`** keeps exactly what the pool holds, and ends a halt. -/
theorem restart_spec (hp : p.Inv requestID) {batching} (h : p.restart requestID o batching = some p') :
    p'.Inv requestID ∧ p'.content.held = p.content.held ∧ p'.options = p.options ∧ p'.closed = p.closed ∧
      p'.stopped = false := by
  unfold restart at h
  split at h
  · next hclosed =>
    cases h
    exact ⟨⟨hp.store, hp.keyed⟩, by simp [content, hclosed], rfl, rfl, rfl⟩
  next hclosed =>
  rw [Bool.not_eq_true] at hclosed
  simp only [Option.bind_eq_bind, Option.bind_eq_some_iff] at h
  obtain ⟨p₁, hmove, hret⟩ := h
  cases hret
  have hspec : p.Frame p₁ ∧ p₁.Inv requestID ∧ p₁.store.content.held = p.store.content.held := by
    unfold switchStore at hmove
    cases hstore : p.store with
    | pending =>
      rw [hstore] at hmove
      cases batching with
      | false =>
        cases hmove
        exact ⟨.rfl, hp, by rw [hstore]⟩
      | true => exact hstore ▸ moveToBatchStore_spec hp hstore hmove
    | batching =>
      rw [hstore] at hmove
      cases batching with
      | false => exact hstore ▸ moveToPendingStore_spec hp hstore hmove
      | true =>
        cases hmove
        exact ⟨.rfl, hp, by rw [hstore]⟩
  obtain ⟨hframe, hinv, hheld⟩ := hspec
  refine ⟨⟨hinv.store, hinv.keyed⟩, ?_, hframe.options, hframe.closed, rfl⟩
  change p₁.content.held = p.content.held
  rw [content_of_open hclosed, content_of_open (hframe.closed.trans hclosed)]
  exact hheld

/-! ## The other calls -/

/-- **`NextRequests`** hands out requests that the pool holds, and keeps refusing their ids. -/
theorem nextRequests_spec (hp : p.Inv requestID) {out} (h : p.nextRequests o = (out, p')) :
    p.Frame p' ∧ p'.Inv requestID ∧ (∀ e ∈ out, p.content.held e.1 = some e.2) ∧
      p'.content = p.content.take (out.map Prod.fst) := by
  unfold nextRequests at h
  split at h
  · cases h
    exact ⟨.rfl, hp, by simp, by simp⟩
  next hclosed =>
  simp only [not_or, Bool.not_eq_true] at hclosed
  cases hstore : p.store with
  | pending =>
    rw [hstore] at h
    cases h
    exact ⟨.rfl, hp, by simp, by simp⟩
  | batching bs =>
    rw [hstore] at h
    cases hfetch : bs.fetch o with
    | mk requests bs' =>
      simp only [hfetch] at h
      cases h
      have hbs := hp.store
      rw [hstore] at hbs
      obtain ⟨hinv, hout, hcontent⟩ := BatchStore.fetch_spec hbs hfetch
      have hold : p.content = bs.content := by
        rw [content_of_open hclosed.1, hstore]
        rfl
      have hnew : content { p with store := .batching bs' } = bs'.content :=
        content_of_open (p := { p with store := .batching bs' }) hclosed.1
      rw [hold]
      refine ⟨⟨rfl, rfl, rfl⟩, hp.of_store hinv fun {reqID request} hr => .inl ?_, hout, hnew.trans hcontent⟩
      have hr : bs'.content.held reqID = some request := hr
      rw [hcontent] at hr
      simp only [Holdings.take, Option.ite_none_left_eq_some] at hr
      rw [hstore]
      exact hr.2

theorem deleted_eq_some {count} (h : p.deleted count = some p') : p'.store = p.store ∧ p.Frame p' := by
  simp only [deleted, Option.bind_eq_bind, Option.bind_eq_some_iff] at h
  obtain ⟨p₁, hrelease, hret⟩ := h
  cases hret
  obtain ⟨hoptions, hstore, hclosed, hstopped⟩ := release_eq_some hrelease
  exact ⟨hstore, hoptions, hclosed, hstopped⟩

section

variable (hp : p.Inv requestID)
include hp

theorem Inv.shrink (hopen : p.closed = false) {store count}
    (h : { p with store }.deleted count = some p') (hstore : store.Inv) {held} (hheld : store.content.held = held)
    (hsub : ∀ {reqID request}, held reqID = some request → p.store.content.held reqID = some request) :
    p.Frame p' ∧ p'.Inv requestID ∧ p'.content.held = held := by
  obtain ⟨hstore', hframe⟩ := deleted_eq_some h
  have hframe : p.Frame p' := ⟨hframe.options, hframe.closed, hframe.stopped⟩
  have hstore' : p'.store = store := hstore'
  refine ⟨hframe, hp.of_store (hstore' ▸ hstore) fun hr => .inl (hsub ?_), ?_⟩
  · rw [hstore', hheld] at hr
    exact hr
  · rw [content_of_open (hframe.closed.trans hopen), hstore', hheld]

/-- **`RemoveRequests`** takes the requests with these ids out of the pool, and no others. -/
theorem removeRequests_spec {requestIDs} (h : p.removeRequests requestIDs = some p') : p.Frame p' ∧ p'.Inv requestID ∧
      p'.content.held = fun reqID => if reqID ∈ requestIDs then none else p.content.held reqID := by
  unfold removeRequests at h
  split at h
  · next hclosed =>
    cases h
    exact ⟨.rfl, hp, by simp [content, hclosed, empty]⟩
  next hclosed =>
  rw [Bool.not_eq_true] at hclosed
  have hstoreInv := hp.store
  have hsub : ∀ {reqID request}, (if reqID ∈ requestIDs then none else p.content.held reqID) = some request →
      p.store.content.held reqID = some request := fun {reqID request} hr => by
    rw [content_of_open hclosed, Option.ite_none_left_eq_some] at hr
    exact hr.2
  cases hstore : p.store with
  | pending =>
    rw [hstore] at h hstoreInv
    obtain ⟨hinv, hcontent⟩ := PendingStore.removeRequests_spec hstoreInv requestIDs
    refine hp.shrink hclosed h hinv ?_ hsub
    funext reqID
    have hheld := congrArg (fun c => c.held reqID) hcontent
    rw [content_of_open hclosed, hstore]
    exact hheld.trans (held_buryAll requestIDs)
  | batching =>
    rw [hstore] at h hstoreInv
    obtain ⟨hinv, hcontent⟩ := BatchStore.removeRequests_spec hstoreInv requestIDs
    refine hp.shrink hclosed h hinv ?_ hsub
    rw [content_of_open hclosed, hstore]
    exact congrArg held hcontent

/-- **`Prune`** keeps the requests that pass. -/
theorem prune_spec {predicate} (h : p.prune predicate = some p') : p.Frame p' ∧ p'.Inv requestID ∧
      p'.content.held = fun reqID => (p.content.held reqID).filter fun request => (predicate request).isOk := by
  unfold prune at h
  split at h
  · next hclosed =>
    cases h
    exact ⟨.rfl, hp, by simp [content, hclosed, empty]⟩
  next hclosed =>
  rw [Bool.not_eq_true] at hclosed
  have hstoreInv := hp.store
  have hsub : ∀ {reqID request},
      (p.content.held reqID).filter (fun request => (predicate request).isOk) = some request →
      p.store.content.held reqID = some request := fun {reqID request} hr => by
    rw [content_of_open hclosed, Option.filter_eq_some_iff] at hr
    exact hr.1
  cases hstore : p.store with
  | pending =>
    rw [hstore] at h hstoreInv
    obtain ⟨hinv, hcontent⟩ := PendingStore.prune_spec hstoreInv predicate
    refine hp.shrink hclosed h hinv ?_ hsub
    rw [content_of_open hclosed, hstore]
    exact congrArg held hcontent
  | batching =>
    rw [hstore] at h hstoreInv
    obtain ⟨hinv, hcontent⟩ := BatchStore.prune_spec hstoreInv fun _ request => predicate request
    refine hp.shrink hclosed h hinv ?_ hsub
    rw [content_of_open hclosed, hstore]
    exact congrArg held hcontent

/-- **The work of the pending store's goroutine** changes nothing in what is held. -/
theorem tick_spec (expired : List String) :
    p.Frame (p.tick expired) ∧ (p.tick expired).Inv requestID ∧ (p.tick expired).content.held = p.content.held := by
  unfold tick
  cases hstore : p.store with
  | batching => exact ⟨.rfl, hp, rfl⟩
  | pending =>
    have hps := hp.store
    rw [hstore] at hps
    obtain ⟨hrotated, hrotate⟩ := rotateBuckets_spec hps
    obtain ⟨hswept, hsweep⟩ := garbageCollectEmptyBuckets_spec hrotated
    obtain ⟨hinv, hheld⟩ := garbageCollectProcessed_spec hswept expired
    rw [hsweep, hrotate] at hheld
    refine ⟨⟨rfl, rfl, rfl⟩, hp.of_store hinv fun {reqID request} hr => .inl ?_, ?_⟩
    · rw [hstore]
      exact (congrFun hheld reqID).symm.trans hr
    · simp only [content, hstore]
      split
      · rfl
      · exact hheld

theorem held_of_contains (h : p.contains reqID = true) : ∃ request, p.content.held reqID = some request := by
  unfold contains at h
  split at h
  · cases h
  next hclosed =>
  simp only [not_or, Bool.not_eq_true] at hclosed
  cases hstore : p.store with
  | batching =>
    rw [hstore] at h
    cases h
  | pending =>
    have hps := hp.store
    rw [hstore] at h hps
    rw [content_of_open hclosed.1, hstore]
    exact Option.ne_none_iff_exists'.mp ((PendingStore.Inv.contains_iff hps).mp h)

theorem Inv.close : p.close.Inv requestID := ⟨hp.store, hp.keyed⟩

theorem Inv.halt : p.halt.Inv requestID := ⟨hp.store, hp.keyed⟩

end

end Pool

end Arma
