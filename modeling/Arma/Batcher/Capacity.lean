import Arma.Batcher.Revive
import Arma.Request.Accounting

/-!
# The mem pool of a batcher over its roles

`Request/Accounting.lean` is about any calls of the mem pool. Here they are those of a batcher.

* `Reachable.pool_run`: the pool of a batcher that is not closed is a new pool after some calls, so that the accounts of
  `Request/Accounting.lean` are those of a batcher's pool.
* **`restart_of_role_accounts`**: what the `Restart` of a role leaves. A role that enters `runPrimary` when the pool is
  batching must have removed what it fetched before.
* **`fetched_batch_stranded`**: the primary has fetched a batch when two terms pass, and is the primary again. The role
  takes the first term from the channel and leaves `runPrimary`, and the term that it loads then is already the second
  one. `Restart(true)` finds the pool batching and does nothing, so that the ids of the batch stay in the index and keep
  their permits, with nothing left that could be fetched or removed.
-/

namespace Arma

open Arma.Lib

namespace BatcherNode

variable {W : Wire} {party : PartyID} {shard : ShardID} {n : Nat}
  {verifier : ConfigSequence → RequestsInspectorVerifier} {event : NodeEvent} {s s' : BatcherNode W party shard n}

/-! ## The calls of a batcher -/

/-- The pool has come from a new one by calls. -/
def Pooled (s : BatcherNode W party shard n) : Prop :=
  s.pool.closed = false → Pool.Run (defaultRequestID W) (newPool s.pool.options) s.pool

theorem Pooled.call (h : s.Pooled) (hcall : Pool.Call (defaultRequestID W) s.pool s'.pool)
    (hoptions : s'.pool.options = s.pool.options) (hclosed : s'.pool.closed = s.pool.closed) : s'.Pooled := by
  intro hopen
  rw [hoptions]
  exact (h (hclosed.symm.trans hopen)).tail hcall

variable {ledger : BatchLedgerArray W shard}

theorem Pooled.resubmission {resubmission resubmission' turn pool configSequence} (h : s.Pooled)
    (hp : s.pool.Inv (defaultRequestID W))
    (hstep : Resubmission.Step W (s.verifyRequest verifier) ledger configSequence s.pool resubmission turn pool
      resubmission') (hpool : s'.pool = pool) : s'.Pooled := by
  have hframe := (hstep.pool_spec hp).1
  cases hstep with
  | fragment | dropped =>
    unfold Pooled
    rw [hpool]
    exact h
  | submitted _ hsubmit =>
    rw [← hpool] at hsubmit hframe
    exact h.call (.submit hsubmit) hframe.options hframe.closed

theorem Step.pooled (h : Step verifier event s s') (hs : s.Pooled) (hp : s.pool.Inv (defaultRequestID W)) :
    s'.Pooled := by
  cases h with
  | restart _ _ hpool =>
    obtain ⟨-, -, hoptions, hclosed, -⟩ := Pool.restart_spec hp hpool
    exact hs.call (.restart hpool) hoptions hclosed
  | noRequests _ _ hpool | batched _ _ hpool =>
    have hframe := (Pool.nextRequests_spec hp hpool).1
    exact hs.call (.nextRequests hpool) hframe.options hframe.closed
  | sendDone _ hpool =>
    have hframe := (Pool.removeRequests_spec hp hpool).1
    exact hs.call (.removeRequests hpool) hframe.options hframe.closed
  | revive _ hstep | offer _ hstep | replicateRevive _ hstep => exact hs.resubmission hp hstep rfl
  | submit _ hsubmit =>
    have hframe := (Pool.submit_spec hp hsubmit).1
    exact hs.call (.submit hsubmit) hframe.options hframe.closed
  | tick expired =>
    have hframe := (Pool.tick_spec hp expired).1
    exact hs.call .tick hframe.options hframe.closed
  | close => exact fun hopen => absurd hopen Bool.noConfusion
  | halt => exact hs.call .halt rfl rfl
  | reconfigure _ _ _ _ _ _ _ hpool =>
    have hframe := (Pool.prune_spec hp hpool).1
    exact hs.call (.prune hpool) hframe.options hframe.closed
  | crash => exact fun _ => .refl
  | _ => exact hs

theorem Reachable.pool_run (h : Reachable verifier s) (hopen : s.pool.closed = false) :
    Pool.Run (defaultRequestID W) (newPool s.pool.options) s.pool := by
  obtain ⟨s₀, hinit, hrun⟩ := h
  have hnew : s₀.Pooled ∧ s₀.pool.Inv (defaultRequestID W) := by
    obtain ⟨config, options, hnew⟩ := hinit
    exact ⟨fun _ => .refl, Pool.inv_newPool options⟩
  have hpooled : s.Pooled ∧ s.pool.Inv (defaultRequestID W) :=
    hrun.induct (I := fun s => s.Pooled ∧ s.pool.Inv (defaultRequestID W)) hnew fun hstep _ hs =>
      ⟨hstep.pooled hs.1 hs.2, hstep.pool_inv hs.2⟩
  exact hpooled.1 hopen

/-- **What the `Restart` of a role leaves**: the permits are those of the requests that can still be taken out. -/
theorem restart_of_role_accounts {batching current} (h : Reachable verifier s)
    (hopen : s.pool.closed = false) (hroomy : s.pool.options.Roomy) (hat : s.restarting = some ⟨batching, current⟩)
    (hremoved : batching = true → s.pool.store.isBatching = true → s.pool.content.blocked = ∅) :
    ∃ s', Step verifier .other s s' ∧ s'.restarting = none ∧ s'.pool.content.held = s.pool.content.held ∧
      ∀ o, Enumerates (s'.pool.remaining o) s'.pool.content.held ∧
        s'.pool.permits = (s'.pool.remaining o).length ∧ s'.pool.size = (s'.pool.remaining o).length := by
  obtain ⟨pool, hrestart, hheld, haccounts, -⟩ :=
    ((h.pool_run hopen).sound hroomy).after_restart .same batching hremoved
  exact ⟨_, .restart .same hat hrestart, rfl, hheld, haccounts⟩

/-! ## A primary that is the primary again -/

/-- A state in some term, with nothing pending. -/
def termState (term : Nat) : State := { (default : State) with shards := [⟨1, term⟩] }

theorem restart_primaryPool (store : BatchStore Bytes) (size : Nat) :
    (primaryPool store size).restart (defaultRequestID W) .same true = some (primaryPool store size) := rfl

theorem height_of_stored {primary seq batch} (h : ledger.retrieveBatchByNumber primary seq = .ok (some batch)) :
    ∃ height, ledger.height primary = .ok height := by
  unfold BatchLedgerArray.retrieveBatchByNumber at h
  obtain ⟨part, hpart, -⟩ := Outcome.bind_eq_ok.mp h
  exact ⟨part.batches.length, by simp [BatchLedgerArray.height, hpart]⟩

/-- Party 2 is the primary, has fetched a batch and waits for its fragment to be sent when the terms 1 and 2 pass, and
is about to enter the role of the primary again. -/
theorem exists_primaryAgain : ∃ s : BatcherNode refWire 2 1 1, Reachable firstConfigOnly s ∧
    s.restarting = some ⟨true, true⟩ ∧ s.pool = primaryPool fetchedStore 2 := by
  obtain ⟨ledger, baf, batch, hbaf, s₀, hinit, hrun⟩ := exists_sendingNode
  obtain ⟨height, hheight⟩ := height_of_stored hbaf.stored
  obtain ⟨hzero, hone⟩ : (pairRole refWire 2 0).getPrimaryID 0 = .ok 2
    ∧ (pairRole refWire 2 0).getPrimaryID 1 = .ok 1 :=
    getPrimaryID_pair 0
  have htwo : (pairRole refWire 2 0).getPrimaryID 2 = .ok 2 := by
    simp [BatcherRole.getPrimaryID, BatcherRole.getPrimaryIndex, pairRole, Outcome.index]
  have hread := hrun.tail ⟨_, .readState (termState 1) rfl rfl rfl Nat.one_ne_zero hzero (by rintro _ ⟨⟩), trivial⟩
  have hnotified := hread.tail ⟨_, .notify rfl rfl rfl, trivial⟩
  have hresubmitted := hnotified.tail ⟨_, .resubmitted rfl, trivial⟩
  -- The notifier reads the next term before the role has taken this one.
  have hread' := hresubmitted.tail ⟨_, .readState (termState 2) rfl rfl rfl (Nat.succ_ne_self 1) hone
    (by rintro _ ⟨⟩), trivial⟩
  have hlooped := hread'.tail ⟨_, .role rfl rfl (.newTerm rfl rfl) rfl, trivial⟩
  have hentered := hlooped.tail ⟨_, .enterRole rfl rfl (.runPrimary rfl rfl htwo hheight) (by rintro ⟨⟩)
    (by rintro ⟨⟩), trivial⟩
  exact ⟨_, ⟨s₀, hinit, hentered⟩, rfl, rfl⟩

/-- **The requests of a fetched batch are stranded**: the `Restart` of the new role changes nothing. Two permits are in
use and two requests are counted, but none can be taken out. A request of the batch is rejected as already inserted. -/
theorem fetched_batch_stranded : ∃ s s' : BatcherNode refWire 2 1 1,
    Reachable firstConfigOnly s ∧ s.restarting = some ⟨true, true⟩ ∧ Step firstConfigOnly .other s s' ∧
      s.pool.restart (defaultRequestID refWire) .same true = some s'.pool ∧ s'.pool.options.Roomy ∧
      s'.pool.permits = 2 ∧ s'.pool.size = 2 ∧ (∀ o, s'.pool.remaining o = []) ∧
      (∀ reqID, s'.pool.content.held reqID = none ∧ ¬ s'.pool.Tombstoned reqID) ∧
      ∃ pool, s'.pool.submit (defaultRequestID refWire) [7] =
        some (.error s!"request {defaultRequestID refWire [7]} already inserted", pool) := by
  obtain ⟨s, hs, hat, hpool⟩ := exists_primaryAgain
  have hrestart : s.pool.restart (defaultRequestID refWire) .same true = some (primaryPool fetchedStore 2) := by
    rw [hpool]
    exact restart_primaryPool fetchedStore 2
  have hroomy : (primaryPool fetchedStore 2).options.Roomy := ⟨by decide, by decide, by decide⟩
  have hrun : Pool.Run (defaultRequestID refWire) (newPool roomyOptions) (primaryPool fetchedStore 2) := by
    have hcalls := hs.pool_run (by rw [hpool]; rfl)
    rw [hpool] at hcalls
    exact hcalls
  have hlist := (hrun.sound hroomy).enumerates_remaining rfl .same
  refine ⟨s, _, hs, hat, .restart .same hat hrestart, hrestart, hroomy, rfl, rfl, fun o => rfl,
    fun reqID => ⟨?_, ?_⟩, _, rfl⟩
  · refine Option.eq_none_iff_forall_ne_some.mpr fun request hheld => ?_
    exact List.not_mem_nil (hlist.mem_iff.mpr hheld)
  · rintro ⟨ps, hstore, -⟩
    cases hstore

end BatcherNode

end Arma
