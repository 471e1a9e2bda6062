import Arma.Lib.Strided
import Arma.Wire

/-!
# The verification of requests

Model of `RequestsInspectorVerifier` (`node/batcher/requests_inspector_verifier.go`) and of `DefaultRequestID`
(`node/batcher/batcher_builder.go`).

* The rules for a single request are an interface in the source, `RequestVerifier`. Its implementation reads the
  policies of the channel's config, so a verifier belongs to a configuration.
* `VerifyBatchedRequests` splits the requests of a batch among workers (`Lib/Strided.lean`), and does not verify a
  request that is in the mem pool at that moment.

`Checked.eq_ok`: if what is in the pool is valid, then a batch that passes has valid requests only, and the ids are
those of its requests. `verified_of_valid`: a batch of valid requests that is within the limits passes.
-/

namespace Arma

open Arma.Lib List

def defaultRequestID (W : Wire) (req : Bytes) : String := if req = [] then "" else hex (W.sha256 req)

/-- SHA-256 has no collisions, and a digest is never empty. -/
structure Wire.CollisionFree (W : Wire) : Prop where
  injective : Function.Injective W.sha256
  ne_nil : ∀ b, b ≠ [] → W.sha256 b ≠ []

theorem defaultRequestID_injective {W} (h : W.CollisionFree) : Function.Injective (defaultRequestID W) := by
  have hempty : hex [] = "" := rfl
  intro req req' heq
  unfold defaultRequestID at heq
  by_cases hreq : req = [] <;> by_cases hreq' : req' = []
  · rw [hreq, hreq']
  · rw [if_pos hreq, if_neg hreq', ← hempty] at heq
    exact absurd (hex_injective heq).symm (h.ne_nil req' hreq')
  · rw [if_neg hreq, if_pos hreq', ← hempty] at heq
    exact absurd (hex_injective heq) (h.ne_nil req hreq)
  · rw [if_neg hreq, if_neg hreq'] at heq
    exact h.injective (hex_injective heq)

/-- `comm.Request`. -/
structure CommRequest where
  payload : Bytes
  signature : Bytes
  identity : Bytes
  identityId : UInt32
  traceId : Bytes
  configSeq : UInt32
  deriving DecidableEq, Repr

/-- `RequestVerifier`. The type of a request is a number. -/
structure RequestVerifier where
  verify : CommRequest → Except String Unit
  verifyStructureAndClassify : CommRequest → Except String Int

/-- `RequestsInspectorVerifier`, with the encoding of requests. The mapper gives an index of a shard. -/
structure RequestsInspectorVerifier where
  batchMaxBytes : UInt32
  batchMaxSize : UInt32
  shards : List ShardID
  shardID : ShardID
  mapper : Bytes → Fin shards.length
  requestVerifier : RequestVerifier
  configSeq : UInt32
  marshal : CommRequest → Bytes
  unmarshal : Bytes → Except String CommRequest

namespace RequestsInspectorVerifier

variable (W : Wire) (r : RequestsInspectorVerifier)

def verifyRequestShard (req : CommRequest) : Except String Unit :=
  let shard := r.shards.get (r.mapper req.payload)
  if r.shards.length ≠ 1 ∧ r.shardID ≠ shard then
    .error (s!"request maps to shard {shard} but our shard is {r.shardID}; request ID " ++
      defaultRequestID W (r.marshal req))
  else .ok ()

def verifyRequestFromRouter (configSeq : UInt32) : Except String Unit :=
  if r.configSeq ≠ configSeq then
    .error (s!"mismatch config seq: request's config seq is {configSeq} while batcher's config seq is " ++
      s!"{r.configSeq}")
  else .ok ()

def verifyRequest (req : Bytes) : Except String Unit :=
  match r.unmarshal req with
  | .error _ => .error "failed to unmarshall req"
  | .ok request =>
    match r.verifyRequestShard W request with
    | .error err => .error s!"failed verifying request with id: {defaultRequestID W req}; err: {err}"
    | .ok () =>
      match r.requestVerifier.verify request with
      | .error err => .error s!"failed verifying request with id: {defaultRequestID W req}; err: {err}"
      | .ok () =>
        match r.requestVerifier.verifyStructureAndClassify request with
        | .error err => .error s!"failed verifying request 's structure with id: {defaultRequestID W req}; err: {err}"
        | .ok _ => .ok ()

/-! ## The requests of a batch -/

/-- The checks of `VerifyBatchedRequests` on the whole batch. -/
def checkLimits (reqs : BatchedRequests) : Except String Unit :=
  let size := (reqs.map List.length).sum
  if reqs.length = 0 then .error "empty batch"
  else if r.batchMaxSize.toNat < reqs.length then .error s!"batch is too big; has {reqs.length} requests"
  else if r.batchMaxBytes.toNat < size then .error s!"batch is too big; size in bytes is {size}"
  else .ok ()

/-- What a worker does for the request at an index, and the id it stores. -/
def verifyIndex (contains : String → Bool) (j : Nat) (req : Bytes) : Except String String :=
  let reqID := defaultRequestID W req
  if contains reqID then .ok reqID
  else
    match r.verifyRequest W req with
    | .error err => .error s!"failed verifying request in index {j}; req ID: {reqID}; err: {err}"
    | .ok () => .ok reqID

/-- What the work on an index can give while the pool contains these ids. -/
def MayVerify (contains : String → Bool) (reqs : BatchedRequests) (j : Nat) (x : Except String String) : Prop :=
  ∃ req, reqs[j]? = some req ∧ r.verifyIndex W contains j req = x

/-- What `VerifyBatchedRequests` returns when its workers have returned. -/
def verifyBatchedRequests {n : Nat} (reqs : BatchedRequests) (workers : Strided String String n) :
    Except String (List String) :=
  match r.checkLimits reqs with
  | .error err => .error err
  | .ok () =>
    match workers.err with
    | some err => .error s!"failed verifying batch; err: {err}"
    | none => .ok ((range reqs.length).map fun j => (workers.result j).getD "")

variable {W r} {n : Nat} {reqs : BatchedRequests} {contains : String → Bool}
  {workers workers' : Strided String String n}

structure Within (r : RequestsInspectorVerifier) (reqs : BatchedRequests) : Prop where
  ne_nil : reqs ≠ []
  size_le : reqs.length ≤ r.batchMaxSize.toNat
  bytes_le : (reqs.map List.length).sum ≤ r.batchMaxBytes.toNat

theorem checkLimits_eq_ok : r.checkLimits reqs = .ok () ↔ r.Within reqs := by
  constructor
  · intro h
    simp only [checkLimits] at h
    split at h
    · cases h
    split at h
    · cases h
    split at h
    · cases h
    next hne hsize hbytes => exact ⟨fun hnil => hne (by simp [hnil]), Nat.not_lt.mp hsize, Nat.not_lt.mp hbytes⟩
  · rintro ⟨hne, hsize, hbytes⟩
    have hlength : reqs.length ≠ 0 := by simpa using hne
    rw [checkLimits, if_neg hlength, if_neg (Nat.not_lt.mpr hsize), if_neg (Nat.not_lt.mpr hbytes)]

/-- The results so far are the ids of valid requests. -/
structure Checked (W : Wire) (r : RequestsInspectorVerifier) (reqs : BatchedRequests)
    (workers : Strided String String n) : Prop where
  inv : workers.Inv reqs.length
  results : ∀ j reqID, workers.result j = some reqID →
    ∃ req, reqs[j]? = some req ∧ defaultRequestID W req = reqID ∧ r.verifyRequest W req = .ok ()

theorem checked_start : Checked W r reqs (.start String String n) := ⟨Strided.inv_start, nofun⟩

theorem verifyIndex_eq_ok {j req reqID} (h : r.verifyIndex W contains j req = .ok reqID) :
    defaultRequestID W req = reqID ∧ (contains reqID = true ∨ r.verifyRequest W req = .ok ()) := by
  simp only [verifyIndex] at h
  split at h
  · next hcontains =>
    cases h
    exact ⟨rfl, .inl hcontains⟩
  · split at h
    · cases h
    · next hok =>
      cases h
      exact ⟨rfl, .inr hok⟩

theorem Checked.step (h : Checked W r reqs workers)
    (hstep : Strided.Step reqs.length (r.MayVerify W contains reqs) workers workers')
    (hpool : ∀ req ∈ reqs, contains (defaultRequestID W req) = true → r.verifyRequest W req = .ok ()) :
    Checked W r reqs workers' := by
  refine ⟨hstep.inv h.inv, hstep.result (fun j _ reqID hmay => ?_) h.results⟩
  obtain ⟨req, hreq, hindex⟩ := hmay
  obtain ⟨hid, hvalid⟩ := verifyIndex_eq_ok hindex
  refine ⟨req, hreq, hid, hvalid.elim (fun hcontains => hpool req (mem_of_getElem? hreq) ?_) id⟩
  rw [hid]
  exact hcontains

/-- **A batch that passes** has valid requests, and the ids are theirs. -/
theorem Checked.eq_ok (h : Checked W r reqs workers) (hn : 0 < n) (hfinished : workers.Finished) {reqIDs}
    (hok : r.verifyBatchedRequests reqs workers = .ok reqIDs) :
    reqIDs = reqs.map (defaultRequestID W) ∧ ∀ req ∈ reqs, r.verifyRequest W req = .ok () := by
  unfold verifyBatchedRequests at hok
  split at hok
  · cases hok
  split at hok
  · cases hok
  next herr =>
  cases hok
  have hresult : ∀ (j : Nat) (hj : j < reqs.length), workers.result j = some (defaultRequestID W reqs[j]) ∧
      r.verifyRequest W reqs[j] = .ok () := fun j hj => by
    obtain ⟨reqID, hreqID⟩ := h.inv.result_of_finished hn hfinished herr hj
    obtain ⟨req, hreq, hid, hvalid⟩ := h.results j reqID hreqID
    obtain rfl : reqs[j] = req := Option.some.inj ((getElem?_eq_getElem hj).symm.trans hreq)
    exact ⟨hid ▸ hreqID, hvalid⟩
  constructor
  · refine ext_getElem (by simp) fun j hj hj' => ?_
    simp [(hresult j (by simpa using hj')).1]
  · intro req hreq
    obtain ⟨j, hj, rfl⟩ := getElem_of_mem hreq
    exact (hresult j hj).2

/-- A step of a worker while the pool contains whatever it contains. -/
def VerifyStep (W : Wire) (r : RequestsInspectorVerifier) (reqs : BatchedRequests)
    (workers workers' : Strided String String n) : Prop :=
  ∃ contains, Strided.Step reqs.length (r.MayVerify W contains reqs) workers workers'

theorem checked_of_valid (hvalid : ∀ req ∈ reqs, r.verifyRequest W req = .ok ())
    (hrun : Relation.ReflTransGen (VerifyStep W r reqs) (.start String String n) workers) :
    Checked W r reqs workers ∧ workers.err = none := by
  induction hrun with
  | refl => exact ⟨checked_start, rfl⟩
  | tail _ hstep ih =>
    obtain ⟨contains, hstep⟩ := hstep
    refine ⟨ih.1.step hstep fun req hreq _ => hvalid req hreq, hstep.err_eq_none (fun j _ err hmay => ?_) ih.2⟩
    obtain ⟨req, hreq, hindex⟩ := hmay
    simp only [verifyIndex, hvalid req (mem_of_getElem? hreq)] at hindex
    split at hindex <;> cases hindex

/-- **A batch of valid requests within the limits passes**, however the workers go on, and they come to their end. -/
theorem verified_of_valid (hvalid : ∀ req ∈ reqs, r.verifyRequest W req = .ok ()) (hwithin : r.Within reqs) (hn : 0 < n)
    (hrun : Relation.ReflTransGen (VerifyStep W r reqs) (.start String String n) workers) :
    (workers.Finished → r.verifyBatchedRequests reqs workers = .ok (reqs.map (defaultRequestID W))) ∧
      ∃ workers', Relation.ReflTransGen (VerifyStep W r reqs) workers workers' ∧ workers'.Finished := by
  obtain ⟨hchecked, herr⟩ := checked_of_valid hvalid hrun
  constructor
  · intro hfinished
    have hok : r.verifyBatchedRequests reqs workers =
        .ok ((range reqs.length).map fun j => (workers.result j).getD "") := by
      simp only [verifyBatchedRequests, checkLimits_eq_ok.mpr hwithin, herr]
    rw [hok, (hchecked.eq_ok hn hfinished hok).1]
  · have hmay : ∀ j < reqs.length, ∃ x, r.MayVerify W (fun _ => false) reqs j x := fun j hj =>
      ⟨_, reqs[j], getElem?_eq_getElem hj, rfl⟩
    obtain ⟨workers', hrun', hfinished⟩ := Strided.exists_finished hmay workers
    have hstep : Strided.Step reqs.length (r.MayVerify W (fun _ => false) reqs) ≤ VerifyStep W r reqs (n := n) :=
      fun _ _ hstep => ⟨fun _ => false, hstep⟩
    exact ⟨workers', Relation.ReflTransGen.mono hstep _ _ hrun', hfinished⟩

end RequestsInspectorVerifier

end Arma
