import Arma.Batcher.Node

/-!
# Reviving the requests of undecided batches

After a term change a batcher puts the requests of its pending fragments back into its mem pool (`ResubmitPendingBAFs`),
while the role loop enters the new role, which restarts the pool. This file says when the requests are in the pool
once both have completed.

`Revives` is the condition, on each step of a run. When it is the turn of a request, the pool holds it already, or does
not know its id and takes it in; and no request that was resubmitted is taken out again. **`revived`**: after a term
change, in every run whose steps all meet it, the requests of every pending fragment of the batcher for the previous
primary are in the pool when `ResubmitPendingBAFs` and the `Restart` have completed.

Without it the requests can be lost (`revival_refused`). A primary keeps the ids of a batch in its batch store until
its fragment is sent, and `Submit` refuses them for as long. If the notifier resubmits them then, all are refused as
already inserted; and then the role loop takes the new term and restarts the pool, which drops the ids.
-/

namespace Arma

open Arma.Lib List Function BatchLedgerArray

namespace BatcherNode

variable {W : Wire} {party : PartyID} {shard : ShardID} {n : Nat}
  {verifier : ConfigSequence → RequestsInspectorVerifier} {event : NodeEvent} {s s' : BatcherNode W party shard n}
  {change : TermChange} {bafs : List BAF} {requests : List Bytes}

def Revives (verifier : ConfigSequence → RequestsInspectorVerifier) (s : BatcherNode W party shard n) : NodeEvent → Prop
  | .offer request reverify =>
    s.pool.content.held (defaultRequestID W request) = some request ∨
      s.pool.Accepts request ∧ ¬ s.pool.content.Known (defaultRequestID W request) ∧
        (reverify = true → s.verifyRequest verifier request = .ok ())
  | .take reqIDs =>
    ∀ change, s.change = some change → ∀ request ∈ change.offered, defaultRequestID W request ∉ reqIDs
  | _ => True

/-! ## What was resubmitted stays -/

/-- The pool holds these requests. -/
def Holds (s : BatcherNode W party shard n) (requests : List Bytes) : Prop :=
  ∀ request ∈ requests, s.pool.content.held (defaultRequestID W request) = some request

theorem Holds.of_held (h : s.Holds requests) (hheld : s'.pool.content.held = s.pool.content.held) :
    s'.Holds requests := by
  intro request hrequest
  rw [hheld]
  exact h request hrequest

theorem Holds.update {request} (h : s.Holds requests) (hnone : s.pool.content.held (defaultRequestID W request) = none)
    (hheld : s'.pool.content.held =
      update s.pool.content.held (defaultRequestID W request) (some request)) : s'.Holds requests := by
  intro other hother
  have hne : defaultRequestID W other ≠ defaultRequestID W request := by
    intro heq
    have := h other hother
    rw [heq, hnone] at this
    cases this
  rw [hheld, update_of_ne hne]
  exact h other hother

theorem Holds.take {reqIDs : List String} (h : s.Holds requests)
    (hout : ∀ request ∈ requests, defaultRequestID W request ∉ reqIDs)
    (hheld : s'.pool.content.held = fun reqID => if reqID ∈ reqIDs then none else s.pool.content.held reqID) :
    s'.Holds requests := by
  intro request hrequest
  rw [hheld]
  simp only [if_neg (hout request hrequest)]
  exact h request hrequest

theorem Holds.resubmission {resubmission resubmission' turn pool}
    (h : s.Holds requests) (hp : s.pool.Inv (defaultRequestID W))
    (hstep : Resubmission.Step W (s.verifyRequest verifier) s.role.ledger s.role.configSequence s.pool resubmission
      turn pool resubmission') (hpool : s'.pool = pool) : s'.Holds requests := by
  subst hpool
  obtain ⟨-, -, hsame | ⟨request, -, -, -, hnone, hheld⟩⟩ := hstep.pool_spec hp
  · exact h.of_held hsame
  · exact h.update hnone hheld

theorem held_of_offer {resubmission resubmission' request pool}
    (hp : s.pool.Inv (defaultRequestID W)) (hok : s.Revives verifier (.offer request resubmission.reverify))
    (hstep : Resubmission.Step W (s.verifyRequest verifier) s.role.ledger s.role.configSequence s.pool resubmission
      (some request) pool resubmission') : pool.content.held (defaultRequestID W request) = some request := by
  cases hstep with
  | dropped herr =>
    rcases hok with hheld | ⟨-, -, hverified⟩
    · exact hheld
    · rw [hverified rfl] at herr
      cases herr
  | submitted _ hsubmit =>
    obtain ⟨-, -, hcontent, haccepts⟩ := Pool.submit_spec hp hsubmit
    rcases hok with hheld | ⟨hroom, hnew, -⟩
    · rcases hcontent with hsame | ⟨hnew, -⟩
      · rw [hsame]
        exact hheld
      · exact absurd (.inl (by simp [hheld])) hnew
    · rw [haccepts hroom hnew]
      exact update_self ..

/-! ## Which requests are left -/

/-- Of the pending fragments for the previous primary, those in `bafs` have not been looked at yet. The requests of the
others were resubmitted, or are among `requests`. -/
def Covers (s : BatcherNode W party shard n) (change : TermChange) (bafs : List BAF) (requests : List Bytes) : Prop :=
  ∀ baf ∈ pendingBAFs party shard change.prevPrimary change.state, baf ∈ bafs ∨
    ∃ batch, s.role.ledger.retrieveBatchByNumber baf.primary baf.seq = .ok (some batch) ∧
      ∀ request ∈ batch.requests, request ∈ change.offered ∨ request ∈ requests

theorem Covers.step (h : s.Covers change bafs requests)
    (hledger : ∀ primary, s.role.ledger.batches primary <+: s'.role.ledger.batches primary) :
    s'.Covers change bafs requests := by
  intro baf hbaf
  refine (h baf hbaf).imp_right ?_
  rintro ⟨batch, hbatch, hrequests⟩
  exact ⟨batch, retrieveBatchByNumber_of_prefix (hledger baf.primary) hbatch, hrequests⟩

theorem Covers.fragment {baf batch} (h : s.Covers change (baf :: bafs) [])
    (hbatch : s.role.ledger.retrieveBatchByNumber baf.primary baf.seq = .ok (some batch)) :
    s.Covers change bafs batch.requests := by
  intro other hother
  rcases h other hother with hin | ⟨batch', hbatch', hrequests⟩
  · rcases mem_cons.mp hin with rfl | hin
    · exact .inr ⟨batch, hbatch, fun request hrequest => .inr hrequest⟩
    · exact .inl hin
  · exact .inr ⟨batch', hbatch', fun request hrequest => .inl (by simpa using hrequests request hrequest)⟩

theorem Covers.mono {requests'} (h : s.Covers change bafs requests) (hsub : requests ⊆ requests') :
    s.Covers change bafs requests' := by
  intro baf hbaf
  refine (h baf hbaf).imp_right ?_
  rintro ⟨batch, hbatch, hrequests⟩
  exact ⟨batch, hbatch, fun request hrequest => (hrequests request hrequest).imp_right fun hin => hsub hin⟩

theorem Covers.offer {request} (h : s.Covers change bafs (request :: requests)) :
    s.Covers { change with offered := change.offered ++ [request] } bafs requests := by
  intro baf hbaf
  refine (h baf hbaf).imp_right ?_
  rintro ⟨batch, hbatch, hrequests⟩
  refine ⟨batch, hbatch, fun other hother => ?_⟩
  rcases hrequests other hother with hin | hin
  · exact .inl (mem_append_left _ hin)
  · rcases mem_cons.mp hin with rfl | hin
    · exact .inl (mem_append_right _ mem_cons_self)
    · exact .inr hin

/-! ## The invariant -/

/-- What holds from the term change on. -/
structure Reviving (s : BatcherNode W party shard n) : Prop where
  pool : s.pool.Inv (defaultRequestID W)
  sending : s.Sending
  holds : ∀ change, s.change = some change → s.pool.closed = false → s.Holds change.offered
  going : ∀ change resubmission, s.change = some change → s.notifying = some resubmission →
    s.Covers change resubmission.bafs resubmission.requests
  done : ∀ change, s.change = some change → change.resubmitted = true → s.Covers change [] []

theorem Reviving.keep (hs : s.Reviving) (h : Step verifier event s s') (hchange : ∀ change', s'.change = some change' →
      ∃ change restarted, s.change = some change ∧ change' = { change with restarted })
    (hnotifying : s'.notifying = s.notifying)
    (hholds : ∀ change, s.change = some change → s'.pool.closed = false → s.Holds change.offered →
      s'.Holds change.offered) (hclosed : s'.pool.closed = false → s.pool.closed = false) : s'.Reviving where
  pool := h.pool_inv hs.pool
  sending := h.sending hs.sending
  holds change' hat hopen := by
    obtain ⟨change, restarted, hsome, rfl⟩ := hchange change' hat
    exact hholds change hsome hopen (hs.holds change hsome (hclosed hopen))
  going change' resubmission hat hgoing := by
    obtain ⟨change, restarted, hsome, rfl⟩ := hchange change' hat
    rw [hnotifying] at hgoing
    exact (hs.going change resubmission hsome hgoing).step (h.batches_prefix hs.sending)
  done change' hat hdone := by
    obtain ⟨change, restarted, hsome, rfl⟩ := hchange change' hat
    exact (hs.done change hsome hdone).step (h.batches_prefix hs.sending)

theorem change_same (hchange : s'.change = s.change) (change' : TermChange) (hat : s'.change = some change') :
    ∃ change restarted, s.change = some change ∧ change' = { change with restarted } :=
  ⟨change', change'.restarted, hchange.symm.trans hat, rfl⟩

theorem Reviving.call (hs : s.Reviving) (h : Step verifier event s s') (hchange : s'.change = s.change)
    (hnotifying : s'.notifying = s.notifying) (hframe : s.pool.Frame s'.pool)
    (hholds : ∀ change, s.change = some change → s.Holds change.offered → s'.Holds change.offered) : s'.Reviving :=
  hs.keep h (change_same hchange) hnotifying (fun change hat _ => hholds change hat)
    fun hopen => hframe.closed.symm.trans hopen

theorem Reviving.forget (hs : s.Reviving) (h : Step verifier event s s') (hchange : s'.change = none) :
    s'.Reviving where
  pool := h.pool_inv hs.pool
  sending := h.sending hs.sending
  holds change hat := by simp [hchange] at hat
  going change resubmission hat := by simp [hchange] at hat
  done change hat := by simp [hchange] at hat

theorem Step.reviving_of_termChange (h : Step verifier .termChange s s') (hp : s.pool.Inv (defaultRequestID W))
    (hs : s.Sending) : s'.Reviving := by
  refine ⟨h.pool_inv hp, h.sending hs, ?_, ?_, ?_⟩
  all_goals cases h with | readState state hat hidle hterm hne hprev hown => ?_
  · rintro change ⟨⟩ _ request hrequest
    cases hrequest
  · intro change resubmission _ hgoing
    cases hidle.symm.trans hgoing
  · rintro change ⟨⟩ hdone
    cases hdone

/-- **Where a step meets the condition, it keeps the invariant.** -/
theorem Step.reviving (h : Step verifier event s s') (hok : s.Revives verifier event) (hs : s.Reviving) :
    s'.Reviving := by
  cases id h with
  | restart _ _ hpool =>
    obtain ⟨-, hheld, -, hclosed, -⟩ := Pool.restart_spec hs.pool hpool
    refine hs.keep h ?_ rfl (fun change _ _ hholds => hholds.of_held hheld) fun hopen => hclosed.symm.trans hopen
    intro change' hchange'
    obtain ⟨change, hchange, heq⟩ := Option.map_eq_some_iff.mp hchange'
    exact ⟨change, _, hchange, heq.symm⟩
  | noRequests _ _ hpool =>
    obtain ⟨hframe, -, -, hcontent⟩ := Pool.nextRequests_spec hs.pool hpool
    rw [map_nil, Holdings.take_nil] at hcontent
    exact hs.call h rfl rfl hframe fun change _ hholds => hholds.of_held (congrArg Holdings.held hcontent)
  | batched _ _ hpool =>
    obtain ⟨hframe, -, -, hcontent⟩ := Pool.nextRequests_spec hs.pool hpool
    refine hs.call h rfl rfl hframe fun change hchange hholds => ?_
    exact hholds.take (hok change hchange) (congrArg Holdings.held hcontent)
  | sendDone _ hpool =>
    obtain ⟨hframe, -, hheld⟩ := Pool.removeRequests_spec hs.pool hpool
    refine hs.call h rfl rfl hframe fun change hchange hholds => ?_
    exact hholds.take (hok change hchange) hheld
  | readState => exact h.reviving_of_termChange hs.pool hs.sending
  | notify _ _ hchange =>
    refine ⟨hs.pool, h.sending hs.sending, hs.holds, ?_, hs.done⟩
    rintro change' _ hchange' ⟨⟩
    cases hchange.symm.trans hchange'
    exact fun baf hbaf => .inl hbaf
  | revive hat hstep =>
    obtain ⟨hframe, hinv, -⟩ := hstep.pool_spec hs.pool
    refine ⟨hinv, h.sending hs.sending, fun change hchange hopen => ?_, ?_, hs.done⟩
    · exact (hs.holds change hchange (hframe.closed.symm.trans hopen)).resubmission hs.pool hstep rfl
    · rintro change _ hchange ⟨⟩
      cases hstep with
      | fragment hbatch => exact (hs.going change _ hchange hat).fragment hbatch
  | @offer _ _ _ _ request hat hstep =>
    obtain ⟨hframe, hinv, -⟩ := hstep.pool_spec hs.pool
    refine ⟨hinv, h.sending hs.sending, ?_, ?_, ?_⟩
    · intro change' hchange' hopen other hother
      obtain ⟨change, hchange, rfl⟩ := Option.map_eq_some_iff.mp hchange'
      have hholds := hs.holds change hchange (hframe.closed.symm.trans hopen)
      rcases mem_append.mp hother with hother | hother
      · exact hholds.resubmission hs.pool hstep rfl other hother
      · obtain rfl := mem_singleton.mp hother
        exact held_of_offer hs.pool hok hstep
    · rintro change' _ hchange' ⟨⟩
      obtain ⟨change, hchange, rfl⟩ := Option.map_eq_some_iff.mp hchange'
      have hcovers := hs.going change _ hchange hat
      cases hstep with
      | dropped | submitted => exact hcovers.offer
    · intro change' hchange' hdone
      obtain ⟨change, hchange, rfl⟩ := Option.map_eq_some_iff.mp hchange'
      exact ((hs.done change hchange hdone).mono (nil_subset [request])).offer
  | resubmitted hat =>
    refine ⟨hs.pool, h.sending hs.sending, ?_, ?_, ?_⟩
    · intro change' hchange' hopen
      obtain ⟨change, hchange, rfl⟩ := Option.map_eq_some_iff.mp hchange'
      exact hs.holds change hchange hopen
    · intro _ resubmission _ hgoing
      cases hgoing
    · intro change' hchange' _
      obtain ⟨change, hchange, rfl⟩ := Option.map_eq_some_iff.mp hchange'
      exact hs.going change _ hchange hat
  | replicateRevive _ hstep =>
    obtain ⟨hframe, -, -⟩ := hstep.pool_spec hs.pool
    exact hs.call h rfl rfl hframe fun change _ hholds => hholds.resubmission hs.pool hstep rfl
  | submit _ hsubmit =>
    obtain ⟨hframe, -, hcontent, -⟩ := Pool.submit_spec hs.pool hsubmit
    refine hs.call h rfl rfl hframe fun change _ hholds => ?_
    rcases hcontent with hsame | ⟨hnew, hstored⟩
    · exact hholds.of_held (congrArg Holdings.held hsame)
    · exact hholds.update (not_not.mp fun h => hnew (.inl h)) (congrArg Holdings.held hstored)
  | tick expired =>
    obtain ⟨hframe, -, hheld⟩ := Pool.tick_spec hs.pool expired
    exact hs.call h rfl rfl hframe fun change _ hholds => hholds.of_held hheld
  | close => exact hs.keep h (change_same rfl) rfl (fun _ _ hopen => by cases hopen) fun hopen => by cases hopen
  | halt => exact hs.keep h (change_same rfl) rfl (fun change _ _ hholds => hholds) id
  | reconfigure | crash => exact hs.forget h rfl
  | _ => exact hs.keep h (change_same rfl) rfl (fun change _ _ hholds => hholds) id

/-! ## A primary that loses its term -/

/-- What `Insert` makes of a store with room for a new request. -/
def inserted (store : BatchStore Bytes) (request : Bytes) : BatchStore Bytes :=
  let reqID := defaultRequestID refWire request
  ((store.addSize 1).setKey reqID store.currentBatch).putRequest store.currentBatch reqID request

def heldStore : BatchStore Bytes := inserted (inserted (newBatchStore 10 100) [8]) [7]

/-- And after the requests were fetched. -/
def fetchedStore : BatchStore Bytes := (heldStore.fetch .same).2

/-- The pool of a primary, in which `size` requests were submitted and not removed. -/
def primaryPool (store : BatchStore Bytes) (size : Nat) : Pool :=
  ⟨roomyOptions, .batching store, size, size, false, false⟩

theorem restart_newPool : (newPool roomyOptions).restart (defaultRequestID refWire) .same true =
    some (primaryPool (newBatchStore 10 100) 0) := rfl

theorem submit_primaryPool : (primaryPool (newBatchStore 10 100) 0).submit (defaultRequestID refWire) [8] =
        some (.ok (), primaryPool (inserted (newBatchStore 10 100) [8]) 1) ∧
      (primaryPool (inserted (newBatchStore 10 100) [8]) 1).submit (defaultRequestID refWire) [7] =
        some (.ok (), primaryPool heldStore 2) := ⟨rfl, rfl⟩

theorem nextRequests_heldStore : (primaryPool heldStore 2).nextRequests .same =
    (twoRequests.map fun request => (defaultRequestID refWire request, request), primaryPool fetchedStore 2) := rfl

/-- `Submit` refuses the requests while their batch is being sent, and the move to the pending store drops their ids. -/
theorem submit_fetchedStore : (∃ err, (primaryPool fetchedStore 2).submit (defaultRequestID refWire) [7] =
        some (.error err, primaryPool (fetchedStore.addSize 1) 2)) ∧
      ∃ err, (primaryPool (fetchedStore.addSize 1) 2).submit (defaultRequestID refWire) [8] =
        some (.error err, primaryPool ((fetchedStore.addSize 1).addSize 1) 2) := ⟨⟨_, rfl⟩, _, rfl⟩

theorem restart_fetchedStore : (primaryPool ((fetchedStore.addSize 1).addSize 1) 2).restart
    (defaultRequestID refWire) .same false = some (newPool roomyOptions) := rfl

/-- The store after the batch was sent, and with the requests in it again. -/
def removedStore : BatchStore Bytes :=
  ((fetchedStore.remove (defaultRequestID refWire [7])).2.remove (defaultRequestID refWire [8])).2

def againStore : BatchStore Bytes := inserted (inserted removedStore [7]) [8]

theorem removeRequests_fetchedStore : (primaryPool fetchedStore 2).removeRequests
    (twoRequests.map (defaultRequestID refWire)) = some (primaryPool removedStore 0) := rfl

theorem submit_removedStore : (primaryPool removedStore 0).submit (defaultRequestID refWire) [7] =
        some (.ok (), primaryPool (inserted removedStore [7]) 1) ∧
      (primaryPool (inserted removedStore [7]) 1).submit (defaultRequestID refWire) [8] =
        some (.ok (), primaryPool againStore 2) := ⟨rfl, rfl⟩

theorem restart_againStore : ∃ pool, (primaryPool againStore 2).restart (defaultRequestID refWire) .same false =
    some pool ∧ pool.closed = false := ⟨_, rfl, rfl⟩

/-- Party 2 was the primary in term 0 and has sent the fragment of its first batch, or is about to. -/
def sendingNode (ledger : BatchLedgerArray refWire 1) (baf : BAF) (pool : Pool) (control : Control)
    (seq : BatchSequence) : BatcherNode refWire 2 1 1 :=
  { boot { pairRole refWire 2 0 with primary := 2, seq, ledger, control } roomyOptions [baf] [] with
    pool
    reqIDs := twoRequests.map (defaultRequestID refWire) }

/-- The fragment and the batch of the two requests. -/
structure FirstBatch (ledger : BatchLedgerArray refWire 1) (baf : BAF) (batch : FabricBatch) : Prop where
  shard_eq : baf.shard = 1
  signer_eq : baf.signer = 2
  primary_eq : baf.primary = 2
  seq_eq : baf.seq = 0
  configSequence_eq : baf.configSequence = 0
  stored : ledger.retrieveBatchByNumber 2 0 = .ok (some batch)
  requests_eq : batch.requests = twoRequests
  height : ledger.height 1 = .ok 0

theorem exists_sendingNode : ∃ ledger baf batch, FirstBatch ledger baf batch ∧
    Reachable firstConfigOnly (sendingNode ledger baf (primaryPool fetchedStore 2) (.awaitSend baf) 0) := by
  have hpart : (pairRole refWire 2 0).ledger.part 2 = .ok (newBatchLedgerPart refWire (.empty 1 2)) := rfl
  have hbaf : ∃ baf, (pairRole refWire 2 0).createBAF (fun _ => .ok []) 0 2 (twoRequests.digest refWire.sha256) 2 [] =
      .ok baf ∧ baf.shard = 1 ∧ baf.signer = 2 ∧ baf.primary = 2 ∧ baf.seq = 0 ∧ baf.configSequence = 0 :=
    ⟨_, rfl, rfl, rfl, rfl, rfl, rfl⟩
  obtain ⟨baf, hbaf, hshard, hsigner, hprimary, hseq, hconfig⟩ := hbaf
  obtain ⟨ledger, happend⟩ := exists_append hpart rfl 0 twoRequests (twoRequests.digest refWire.sha256) baf.signature
  have hentered : Run firstConfigOnly (fun _ _ => True) (pairNode refWire 2) _ :=
    .single ⟨_, .enterRole rfl rfl (.runPrimary rfl rfl (getPrimaryID_pair 0).1 (height_pair (by decide) 0)) nofun
      nofun, trivial⟩
  have hrestarted := hentered.tail ⟨_, .restart .same rfl restart_newPool, trivial⟩
  have hforwarded := hrestarted.tail ⟨_, .forwarded (verifyRequest_firstConfigOnly [8]).1, trivial⟩
  have hsubmitted := hforwarded.tail ⟨_, .submit mem_cons_self submit_primaryPool.1, trivial⟩
  have hforwarded' := hsubmitted.tail ⟨_, .forwarded (verifyRequest_firstConfigOnly [7]).1, trivial⟩
  have hsubmitted' := hforwarded'.tail ⟨_, .submit mem_cons_self submit_primaryPool.2, trivial⟩
  have hready := hsubmitted'.tail ⟨_, .role rfl rfl (.secondariesReady rfl) rfl, trivial⟩
  have hbatched := hready.tail ⟨_, .batched .same rfl nextRequests_heldStore (cons_ne_nil _ _), trivial⟩
  have hsigned := hbatched.tail ⟨_, .signOwn rfl (fun _ => .ok []) hbaf, trivial⟩
  have hstored := hsigned.tail ⟨_, .role rfl rfl (.appendOwn rfl happend) rfl, trivial⟩
  have hsending := hstored.tail ⟨_, .startSend rfl, trivial⟩
  obtain ⟨-, batch, -, hrequests, hbatches⟩ := append_eq_ok happend
  have hbatch : ledger.retrieveBatchByNumber 2 0 = .ok (some batch) := by
    rw [retrieveBatchByNumber_eq_some, hbatches, update_self]
    rfl
  have hheight : ledger.height 1 = .ok 0 :=
    (height_append (by decide) happend).trans (height_pair (by decide) 0)
  exact ⟨ledger, baf, batch, ⟨hshard, hsigner, hprimary, hseq, hconfig, hbatch, hrequests, hheight⟩,
    ⟨_, init_pairNode (by decide), hsending⟩⟩

/-- A state in term 1 with one pending fragment. -/
def pendingState (baf : BAF) : State := { (default : State) with shards := [⟨1, 1⟩], pending := [baf] }

/-- The notifier has read that state. -/
def changedNode (ledger : BatchLedgerArray refWire 1) (baf : BAF) (pool : Pool) (control : Control)
    (seq : BatchSequence) : BatcherNode refWire 2 1 1 :=
  { sendingNode ledger baf pool control seq with
    role := { pairRole refWire 2 0 with primary := 2, seq, ledger, control, term := 1, notifier := .notifying 1 }
    change := some ⟨pendingState baf, 2, [], false, false⟩ }

/-- The term changes, the requests of the fragment are resubmitted, and the batcher becomes a secondary. -/
theorem exists_revival {ledger baf batch} (hbaf : FirstBatch ledger baf batch) (control : Control) (seq : BatchSequence)
    (hcontrol : control.selects = true ∧ control.poolFree = true) {pool pool₁ pool₂ pool' result result'}
    (hsubmit : pool.submit (defaultRequestID refWire) [7] = some (result, pool₁))
    (hsubmit' : pool₁.submit (defaultRequestID refWire) [8] = some (result', pool₂))
    (hrestart : pool₂.restart (defaultRequestID refWire) .same false = some pool')
    (ok : BatcherNode refWire 2 1 1 → NodeEvent → Prop) (hok : ∀ s, s.pool ∈ [pool, pool₁, pool₂] → ok s .other)
    (hoffer : ∀ s, s.pool = pool → ok s (.offer [7] false))
    (hoffer' : ∀ s, s.pool = pool₁ → ok s (.offer [8] false)) :
    ∃ s₁ s, Step firstConfigOnly .termChange (sendingNode ledger baf pool control seq) s₁ ∧
      Run firstConfigOnly ok s₁ s ∧ s.pool = pool' ∧ s.role.ledger = ledger ∧
      s.change = some ⟨pendingState baf, 2, twoRequests, true, true⟩ := by
  have hpending : pendingBAFs 2 1 2 (pendingState baf) = [baf] := by
    simp [pendingBAFs, pendingState, hbaf.shard_eq, hbaf.signer_eq, hbaf.primary_eq]
  have hstored : ledger.retrieveBatchByNumber baf.primary baf.seq = .ok (some batch) := by
    rw [hbaf.primary_eq, hbaf.seq_eq]
    exact hbaf.stored
  have hfragment : Resubmission.Step refWire ((firstConfigOnly 0).verifyRequest refWire) ledger 0 pool
      ⟨[baf], [], false⟩ none pool ⟨[], batch.requests, decide (baf.configSequence < 0)⟩ := .fragment hstored
  rw [hbaf.requests_eq, hbaf.configSequence_eq] at hfragment
  obtain ⟨hprev, hnext⟩ : (pairRole refWire 2 0).getPrimaryID 0 = .ok 2
    ∧ (pairRole refWire 2 0).getPrimaryID 1 = .ok 1 :=
    getPrimaryID_pair 0
  have hread : Step firstConfigOnly .termChange (sendingNode ledger baf pool control seq)
      (changedNode ledger baf pool control seq) :=
    .readState (pendingState baf) rfl rfl rfl Nat.one_ne_zero hprev fun other hother _ _ => hother
  obtain ⟨h₀, h₁, h₂⟩ : pool ∈ [pool, pool₁, pool₂] ∧ pool₁ ∈ [pool, pool₁, pool₂] ∧ pool₂ ∈ [pool, pool₁, pool₂] := by
    simp
  have hnotified : Run firstConfigOnly ok (changedNode ledger baf pool control seq) _ :=
    .single ⟨_, .notify rfl rfl rfl, hok _ h₀⟩
  rw [show pendingBAFs 2 1 2 (pendingState baf) = [baf] from hpending] at hnotified
  have hfound := hnotified.tail ⟨_, .revive rfl hfragment, hok _ h₀⟩
  have hoffered := hfound.tail ⟨_, .offer rfl (.submitted nofun hsubmit), hoffer _ rfl⟩
  have hoffered' := hoffered.tail ⟨_, .offer rfl (.submitted nofun hsubmit'), hoffer' _ rfl⟩
  have hresubmitted := hoffered'.tail ⟨_, .resubmitted rfl, hok _ h₂⟩
  have hlooped := hresubmitted.tail ⟨_, .role rfl hcontrol.2 (.newTerm hcontrol.1 rfl) rfl, hok _ h₂⟩
  have hentered := hlooped.tail ⟨_, .enterRole rfl rfl (.runSecondary rfl rfl hnext (by decide) hbaf.height) nofun
    nofun, hok _ h₂⟩
  have hrestarted := hentered.tail ⟨_, .restart .same rfl hrestart, hok _ h₂⟩
  exact ⟨_, _, hread, hrestarted, rfl, rfl, rfl⟩

/-! ## When the requests are revived -/

/-- **The requests of undecided batches are revived**: after a term change, in every run whose steps all meet the
condition, the pool holds every request of every batch that this batcher has attested to and whose fragment for the
previous primary is pending, once `ResubmitPendingBAFs` and the `Restart` of the new role have completed. -/
theorem revived {s₀ s₁ : BatcherNode W party shard n} (h₀ : Reachable verifier s₀)
    (hread : Step verifier .termChange s₀ s₁) (hrun : Run verifier (Revives verifier) s₁ s)
    (hchange : s.change = some change) (hdone : change.resubmitted = true ∧ change.restarted = true)
    (hopen : s.pool.closed = false) :
    ∀ baf ∈ change.state.pending, baf.shard = shard → baf.signer = party → baf.primary = change.prevPrimary →
      ∃ batch, s.role.ledger.retrieveBatchByNumber baf.primary baf.seq = .ok (some batch) ∧
        ∀ request ∈ batch.requests, s.pool.content.held (defaultRequestID W request) = some request := by
  intro baf hbaf hshard hsigner hprimary
  have hs : s.Reviving :=
    hrun.induct (hread.reviving_of_termChange h₀.pool_inv h₀.sending) fun hstep hok => hstep.reviving hok
  have hpending : baf ∈ pendingBAFs party shard change.prevPrimary change.state :=
    mem_filter.mpr ⟨hbaf, by simp [hshard, hsigner, hprimary]⟩
  rcases hs.done change hchange hdone.1 baf hpending with hleft | ⟨batch, hbatch, hrequests⟩
  · cases hleft
  · refine ⟨batch, hbatch, fun request hrequest => hs.holds change hchange hopen request ?_⟩
    exact (hrequests request hrequest).resolve_right not_mem_nil

/-- A primary whose fragment was sent in time: the requests are taken in again. -/
theorem revived_afterSend : ∃ (s : BatcherNode refWire 2 1 1) (baf : BAF) (batch : FabricBatch),
    s.change = some ⟨pendingState baf, 2, twoRequests, true, true⟩ ∧
      s.role.ledger.retrieveBatchByNumber baf.primary baf.seq = .ok (some batch) ∧
      ∀ request ∈ batch.requests, s.pool.content.held (defaultRequestID refWire request) = some request := by
  obtain ⟨ledger, baf, batch, hbaf, s₀, hinit, hrun⟩ := exists_sendingNode
  have hdone : Reachable firstConfigOnly (sendingNode ledger baf (primaryPool removedStore 0)
      .waitForSecondaries 1) := ⟨s₀, hinit, hrun.tail ⟨_, .sendDone rfl removeRequests_fetchedStore, trivial⟩⟩
  have hnew : ¬ (primaryPool removedStore 0).content.Known (defaultRequestID refWire [7]) := by
    intro hknown
    exact (Shelves.Ok.known_iff hdone.pool_inv.store.ok).mp hknown rfl
  obtain ⟨hsubmit, hsubmit'⟩ := submit_removedStore
  obtain ⟨-, hinv, -⟩ := Pool.submit_spec hdone.pool_inv hsubmit
  have hnew' : ¬ (primaryPool (inserted removedStore [7]) 1).content.Known (defaultRequestID refWire [8]) := by
    intro hknown
    exact (Shelves.Ok.known_iff hinv.store.ok).mp hknown rfl
  obtain ⟨pool, hrestart, hopen⟩ := restart_againStore
  obtain ⟨s₁, s, hread, hrun', rfl, hledger, hchange⟩ := exists_revival hbaf .waitForSecondaries 1
    ⟨rfl, rfl⟩ hsubmit hsubmit' hrestart (Revives firstConfigOnly) (fun _ _ => trivial)
    (fun s hs => .inr (hs.symm ▸ ⟨⟨rfl, rfl, by decide, by decide⟩, hnew, nofun⟩))
    (fun s hs => .inr (hs.symm ▸ ⟨⟨rfl, rfl, by decide, by decide⟩, hnew', nofun⟩))
  obtain ⟨batch', hbatch', hheld⟩ := revived hdone hread hrun' hchange ⟨rfl, rfl⟩ hopen baf mem_cons_self
    hbaf.shard_eq hbaf.signer_eq hbaf.primary_eq
  exact ⟨s, baf, batch', hchange, hbatch', hheld⟩

/-- The pool is open and not full. -/
def Roomy (s : BatcherNode W party shard n) (_ : NodeEvent) : Prop :=
  s.pool.closed = false ∧ s.pool.permits < s.pool.options.maxSize

/-- **The requests of a pending fragment are lost**: party 2 is the primary and has stored a batch, and its fragment has
reached the consenters but `SendBAF` has not returned. It is term 1 in the state that the notifier reads, and the
fragment is pending. The requests are refused as already inserted. Then the role loop takes the term, and the pool
drops the ids. Both have completed, the pool was neither full nor closed, and it holds none of the requests. -/
theorem revival_refused : ∃ (s₀ s₁ s : BatcherNode refWire 2 1 1) (change : TermChange) (baf : BAF)
    (batch : FabricBatch), Reachable firstConfigOnly s₀ ∧ Step firstConfigOnly .termChange s₀ s₁ ∧
      Run firstConfigOnly Roomy s₁ s ∧ s.change = some change ∧ change.resubmitted = true ∧
      change.restarted = true ∧ s.pool.closed = false ∧ baf ∈ change.state.pending ∧ baf.shard = 1 ∧
      baf.signer = 2 ∧ baf.primary = change.prevPrimary ∧
      s.role.ledger.retrieveBatchByNumber baf.primary baf.seq = .ok (some batch) ∧ batch.requests = twoRequests ∧
      ∀ request ∈ twoRequests, s.pool.content.held (defaultRequestID refWire request) = none := by
  obtain ⟨ledger, baf, batch, hbaf, hsending⟩ := exists_sendingNode
  obtain ⟨⟨err, hsubmit⟩, err', hsubmit'⟩ := submit_fetchedStore
  have htwo : 2 < roomyOptions.maxSize := by decide
  obtain ⟨s₁, s, hread, hrun, hpool, hledger, hchange⟩ := exists_revival hbaf (.awaitSend baf) 0 ⟨rfl, rfl⟩ hsubmit
    hsubmit' restart_fetchedStore Roomy
    (fun s hs => by
      simp only [mem_cons, not_mem_nil, or_false] at hs
      rcases hs with hs | hs | hs <;> rw [Roomy, hs] <;> exact ⟨rfl, htwo⟩)
    (fun s hs => by rw [Roomy, hs]; exact ⟨rfl, htwo⟩) (fun s hs => by rw [Roomy, hs]; exact ⟨rfl, htwo⟩)
  refine ⟨_, s₁, s, _, baf, batch, hsending, hread, hrun, hchange, rfl, rfl, ?_, mem_cons_self, hbaf.shard_eq,
    hbaf.signer_eq, hbaf.primary_eq, ?_, hbaf.requests_eq, fun request _ => ?_⟩
  · rw [hpool]
    rfl
  · rw [hledger, hbaf.primary_eq, hbaf.seq_eq]
    exact hbaf.stored
  · rw [hpool]
    rfl

end BatcherNode

end Arma
