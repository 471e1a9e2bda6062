import Arma.Batcher.Attest
import Arma.Batcher.Requests
import Arma.Request.Pool

/-!
# A batcher with its mem pool

The role (`Batcher/Role.lean`) together with the mem pool (`Request/Pool.lean`), the request verifier
(`Batcher/Requests.lean`) and the goroutines that use them (`node/batcher/batcher_role.go`, `batcher.go`):

* the role loop, which restarts the pool when it enters a role, takes batches out of it as the primary, and removes the
  requests of a batch whose fragment it has sent;
* the term notifier, which after a term change resubmits the requests of this batcher's pending fragments;
* `replicateDecision`, which resubmits those of fragments of an older config;
* the handlers of `Submit`, `SubmitStream` and `FwdRequestStream`. A handler verifies a request first and submits it
  afterwards, and nothing stops a reconfiguration in between: `Net.Stop` does not wait for the handlers;
* a soft stop with a reconfiguration, which keeps the pool and prunes it, and a crash with a restart.

A call of the pool is one step, and so is whatever a goroutine does between two such calls. The configurations of the
channel are a parameter: `verifier` gives the request verifier of each config sequence. A fragment of a state that names
this batcher as its signer was sent by it.
-/

namespace Arma

open Arma.Lib List

/-! ## Resubmitting requests -/

/-- A call of `ResubmitPendingBAFs` or `ResubmitStaleConfigBAFs` that is going on: the fragments still to be looked at,
the requests of the batch at hand still to be submitted, and whether they have to be verified again. -/
structure Resubmission where
  bafs : List BAF
  requests : List Bytes
  reverify : Bool

/-- One step of `reviveBAFRequests`. It shows the request whose turn it is. -/
inductive Resubmission.Step {shard : ShardID} (W : Wire) (verifyRequest : Bytes → Except String Unit)
    (ledger : BatchLedgerArray W shard) (configSequence : ConfigSequence) (pool : Pool) : Resubmission
    → Option Bytes → Pool → Resubmission → Prop
  | fragment {baf bafs reverify batch}
      (hbatch : ledger.retrieveBatchByNumber baf.primary baf.seq = .ok (some batch)) :
      Step W verifyRequest ledger configSequence pool ⟨baf :: bafs, [], reverify⟩ none pool
        ⟨bafs, batch.requests, decide (baf.configSequence < configSequence)⟩
  | dropped {bafs request requests err} (herr : verifyRequest request = .error err) :
      Step W verifyRequest ledger configSequence pool ⟨bafs, request :: requests, true⟩ (some request) pool
        ⟨bafs, requests, true⟩
  /-- A request is submitted. An error is only logged. -/
  | submitted {pool' bafs request requests reverify result} (hok : reverify = true → verifyRequest request = .ok ())
      (hsubmit : pool.submit (defaultRequestID W) request = some (result, pool')) :
      Step W verifyRequest ledger configSequence pool ⟨bafs, request :: requests, reverify⟩ (some request) pool'
        ⟨bafs, requests, reverify⟩

/-- What a step of a resubmission does to the pool: it may take in the request whose turn it is. -/
theorem Resubmission.Step.pool_spec {W : Wire} {shard : ShardID} {verifyRequest}
    {ledger : BatchLedgerArray W shard} {configSequence pool pool' resubmission resubmission' turn}
    (h : Resubmission.Step W verifyRequest ledger configSequence pool resubmission turn pool'
      resubmission') (hp : pool.Inv (defaultRequestID W)) : pool.Frame pool' ∧ pool'.Inv (defaultRequestID W) ∧
      (pool'.content.held = pool.content.held ∨ ∃ request, turn = some request ∧
        request ∈ resubmission.requests ∧ (resubmission.reverify = true → verifyRequest request = .ok ()) ∧
        pool.content.held (defaultRequestID W request) = none ∧ pool'.content.held =
          Function.update pool.content.held (defaultRequestID W request) (some request)) := by
  cases h with
  | fragment | dropped => exact ⟨.rfl, hp, .inl rfl⟩
  | submitted hok hsubmit =>
    obtain ⟨hframe, hinv, hcontent, -⟩ := Pool.submit_spec hp hsubmit
    refine ⟨hframe, hinv, ?_⟩
    rcases hcontent with hsame | ⟨hnew, hstored⟩
    · exact .inl (congrArg _ hsame)
    · exact .inr ⟨_, rfl, mem_cons_self, hok, not_not.mp fun h => hnew (.inl h), congrArg _ hstored⟩

/-- The fragments that `ResubmitPendingBAFs` looks at after a term change. -/
def pendingBAFs (party : PartyID) (shard : ShardID) (prevPrimary : PartyID) (state : State) : List BAF :=
  state.pending.filter fun baf => baf.shard = shard ∧ baf.signer = party ∧ baf.primary = prevPrimary

/-! ## The batcher -/

/-- A `Restart` of the pool that the role loop is about to call: whether it enters the primary's role, and whether it
has read the term after the last term change was stored. -/
structure PoolRestart where
  batching : Bool
  current : Bool
  deriving DecidableEq, Repr

/-- A term change that the notifier has read: the state, the primary before it, the requests that were resubmitted so
far, and whether `ResubmitPendingBAFs` and the pool's `Restart` of the new role have completed. -/
structure TermChange where
  state : State
  prevPrimary : PartyID
  offered : List Bytes
  resubmitted : Bool
  restarted : Bool

/-- A handler that has verified a request under a config sequence. -/
structure Handler where
  request : Bytes
  configSequence : ConfigSequence
  deriving DecidableEq, Repr

/-- A batch that was attested to as a secondary: the ids that `verifyBatch` gave for it and the config sequence then. -/
structure Attestation where
  batch : FabricBatch
  reqIDs : List String
  configSequence : ConfigSequence

/-- A batcher with its mem pool. `sent` are the fragments that
were handed to `SendBAF` so far and `attested` the batches that were attested to; `n` is the number of CPUs. -/
structure BatcherNode (W : Wire) (party : PartyID) (shard : ShardID) (n : Nat) where
  role : BatcherRole W party shard
  pool : Pool
  restarting : Option PoolRestart
  reqIDs : List String
  verification : Option (Strided String String n)
  notifying : Option Resubmission
  replicating : Option Resubmission
  handlers : List Handler
  change : Option TermChange
  sent : List BAF
  attested : List Attestation

/-- What a step shows of itself. -/
inductive NodeEvent where
  | other
  | termChange
  /-- In the notifier's `ResubmitPendingBAFs` it is the turn of this request. -/
  | offer (request : Bytes) (reverify : Bool)
  /-- `NextRequests` or `RemoveRequests` takes the requests with these ids. -/
  | take (reqIDs : List String)
  /-- A handler submits a request that it has verified under this config sequence. -/
  | submit (configSequence : ConfigSequence)

/-- The points of `run` from which it goes on without the pool, the verifier and the signer. -/
def Control.poolFree : Control → Bool
  | .waitForSecondaries | .appendOwn .. | .pullBatches | .receive | .appendPulled _ | .awaitSend _ => true
  | _ => false

namespace BatcherNode

variable {W : Wire} {party : PartyID} {shard : ShardID} {n : Nat}
  {verifier : ConfigSequence → RequestsInspectorVerifier}

/-- A new process on the chains that are on the disk. -/
def boot (role : BatcherRole W party shard) (options : PoolOptions) (sent : List BAF) (attested : List Attestation) :
    BatcherNode W party shard n where
  role
  pool := newPool options
  restarting := none
  reqIDs := []
  verification := none
  notifying := none
  replicating := none
  handlers := []
  change := none
  sent
  attested

/-- The verifier of a single request, in the configuration of the moment. -/
def verifyRequest (verifier : ConfigSequence → RequestsInspectorVerifier) (s : BatcherNode W party shard n) :
    Bytes → Except String Unit :=
  (verifier s.role.configSequence).verifyRequest W

/-- One step of a batcher. Where a call does not return there is no step. -/
inductive Step (verifier : ConfigSequence → RequestsInspectorVerifier) :
    NodeEvent → BatcherNode W party shard n → BatcherNode W party shard n → Prop
  | role {s r} (hidle : s.restarting = none)
      (hat : s.role.control.poolFree = true) (hstep : s.role.Step r) (hnotifier : r.notifier = s.role.notifier) :
      Step verifier .other s { s with role := r }
  | runReturn {s} (hat : s.role.control = .loop) (hstop : s.role.stopChan = true) :
      Step verifier .other s { s with role := { s.role with control := .returned } }
  /-- `run` enters a role, which begins with a `Restart` of the pool. -/
  | enterRole {s r} (hidle : s.restarting = none)
      (hat : s.role.control = .loop) (hstep : s.role.Step r) (hloop : r.control ≠ .loop)
      (hreturned : r.control ≠ .returned) :
      Step verifier .other s { s with role := r, restarting := some ⟨decide (r.primary = party), true⟩ }
  | restart {s batching current pool} (o : RangeOrder String Bytes) (hat : s.restarting = some ⟨batching, current⟩)
      (hpool : s.pool.restart (defaultRequestID W) o batching = some pool) :
      Step verifier .other s { s with
        pool
        restarting := none
        change := s.change.map fun change => { change with restarted := change.restarted || current } }
  | noRequests {s pool} (o : RangeOrder String Bytes)
      (hat : s.role.control = .nextRequests) (hpool : s.pool.nextRequests o = ([], pool)) :
      Step verifier (.take []) s { s with pool, role := { s.role with control := .waitForSecondaries } }
  | batched {s pool out} (o : RangeOrder String Bytes)
      (hat : s.role.control = .nextRequests) (hpool : s.pool.nextRequests o = (out, pool)) (hout : out ≠ []) :
      Step verifier (.take (out.map Prod.fst)) s { s with
        pool
        role := { s.role with
          control := .createBAF (out.map Prod.snd) (BatchedRequests.digest W.sha256 (out.map Prod.snd)) }
        reqIDs := out.map Prod.fst }
  | signOwn {s currentBatch digest baf}
      (hat : s.role.control = .createBAF currentBatch digest) (sign : Bytes → Except String Bytes)
      (hbaf : s.role.createBAF sign s.role.seq party digest (UInt64.ofNat currentBatch.length) [] = .ok baf) :
      Step verifier .other s { s with role := { s.role with control := .appendOwn currentBatch digest baf } }
  | startVerify {s batch} (hat : s.role.control = .verify batch)
      (hnone : s.verification = none) : Step verifier .other s { s with verification := some (.start _ _ _) }
  | verifyWork {s batch workers workers'}
      (hat : s.role.control = .verify batch) (hworkers : s.verification = some workers)
      (hstep : Strided.Step batch.requests.length
        ((verifier s.role.configSequence).MayVerify W s.pool.contains batch.requests) workers workers') :
      Step verifier .other s { s with verification := some workers' }
  /-- The batch is bad: the secondary complains and pulls again. -/
  | complain {s batch workers err}
      (hat : s.role.control = .verify batch) (hworkers : s.verification = some workers) (hfinished : workers.Finished)
      (herr : s.role.verifyBatch (fun reqs => (verifier s.role.configSequence).verifyBatchedRequests reqs workers)
        batch = .error (.err err)) :
      Step verifier .other s { s with role := { s.role with control := .pullBatches }, verification := none }
  | verified {s batch workers reqIDs} (hat : s.role.control = .verify batch) (hworkers : s.verification = some workers)
      (hfinished : workers.Finished)
      (hok : s.role.verifyBatch (fun reqs => (verifier s.role.configSequence).verifyBatchedRequests reqs workers)
        batch = .ok reqIDs) :
      Step verifier .other s { s with
        role := { s.role with control := .appendPulled batch }
        verification := none
        reqIDs }
  | signPulled {s batch baf} (hat : s.role.control = .attest batch) (sign : Bytes → Except String Bytes)
      (hbaf : s.role.createBAF sign s.role.seq s.role.primary batch.digest (UInt64.ofNat batch.requests.length)
        batch.primarySignature = .ok baf) :
      Step verifier .other s { s with
        role := { s.role with control := .startSend baf }
        attested := s.attested ++ [⟨batch, s.reqIDs, s.role.configSequence⟩] }
  | startSend {s baf} (hat : s.role.control = .startSend baf) :
      Step verifier .other s { s with role := { s.role with control := .awaitSend baf }, sent := baf :: s.sent }
  /-- `SendBAF` has returned: the requests of the batch are removed. -/
  | sendDone {s baf pool} (hat : s.role.control = .awaitSend baf)
      (hpool : s.pool.removeRequests s.reqIDs = some pool) :
      Step verifier (.take s.reqIDs) s { s with
        pool
        role := { s.role with
          seq := s.role.seq + 1
          control := if s.role.primary = party then .waitForSecondaries else .receive } }
  /-- The notifier reads a state with another term, and stores it. -/
  | readState {s newTerm prevPrimary} (state : State)
      (hat : s.role.notifier = .listening) (hidle : s.notifying = none)
      (hterm : BatcherRole.getTerm shard state = .ok newTerm) (hne : newTerm ≠ s.role.term)
      (hprev : s.role.getPrimaryID s.role.term = .ok prevPrimary)
      (hown : ∀ baf ∈ state.pending, baf.shard = shard → baf.signer = party → baf ∈ s.sent) :
      Step verifier .termChange s { s with
        role := { s.role with term := newTerm, notifier := .notifying newTerm }
        restarting := s.restarting.map fun restarting => { restarting with current := false }
        change := some ⟨state, prevPrimary, [], false, false⟩ }
  /-- The notifier puts the term into the channel, once there is room, and calls `ResubmitPendingBAFs`. -/
  | notify {s newTerm change}
      (hat : s.role.notifier = .notifying newTerm) (hroom : s.role.termChan = none) (hchange : s.change = some change) :
      Step verifier .other s { s with
        role := { s.role with termChan := some newTerm, notifier := .listening }
        notifying := some ⟨pendingBAFs party shard change.prevPrimary change.state, [], false⟩ }
  | revive {s pool resubmission resubmission'} (hat : s.notifying = some resubmission)
      (hstep : Resubmission.Step W (s.verifyRequest verifier) s.role.ledger s.role.configSequence s.pool resubmission
        none pool resubmission') : Step verifier .other s { s with pool, notifying := some resubmission' }
  /-- It is the turn of a request in `ResubmitPendingBAFs`. -/
  | offer {s pool resubmission resubmission' request} (hat : s.notifying = some resubmission)
      (hstep : Resubmission.Step W (s.verifyRequest verifier) s.role.ledger s.role.configSequence s.pool resubmission
        (some request) pool resubmission') :
      Step verifier (.offer request resubmission.reverify) s { s with
        pool
        notifying := some resubmission'
        change := s.change.map fun change => { change with offered := change.offered ++ [request] } }
  | resubmitted {s reverify} (hat : s.notifying = some ⟨[], [], reverify⟩) : Step verifier .other s { s with
        notifying := none
        change := s.change.map fun change => { change with resubmitted := true } }
  | notifierReturn {s} (hat : s.role.notifier = .listening) (hidle : s.notifying = none)
      (hstop : s.role.stopChan = true) :
      Step verifier .other s { s with role := { s.role with notifier := .returned } }
  /-- `replicateDecision` resubmits the requests of fragments of this batcher. -/
  | replicate {s bafs} (hidle : s.replicating = none)
      (hown : ∀ baf ∈ bafs, baf ∈ s.sent) : Step verifier .other s { s with replicating := some ⟨bafs, [], false⟩ }
  | replicateRevive {s pool resubmission resubmission' turn} (hat : s.replicating = some resubmission)
      (hstep : Resubmission.Step W (s.verifyRequest verifier) s.role.ledger s.role.configSequence s.pool resubmission
        turn pool resubmission') : Step verifier .other s { s with pool, replicating := some resubmission' }
  | replicated {s reverify} (hat : s.replicating = some ⟨[], [], reverify⟩) :
      Step verifier .other s { s with replicating := none }
  /-- A request of the party's own router, which has verified it under the config sequence that it carries. -/
  | fromRouter {s request configSeq}
      (hok : (verifier s.role.configSequence).verifyRequestFromRouter configSeq = .ok ())
      (hrouter : ∀ c, (verifier c).configSeq = configSeq → (verifier c).verifyRequest W request = .ok ()) :
      Step verifier .other s { s with handlers := ⟨request, s.role.configSequence⟩ :: s.handlers }
  /-- A request that another batcher has forwarded. -/
  | forwarded {s request} (hok : s.verifyRequest verifier request = .ok ()) :
      Step verifier .other s { s with handlers := ⟨request, s.role.configSequence⟩ :: s.handlers }
  | submit {s handler pool result} (hat : handler ∈ s.handlers)
      (hsubmit : s.pool.submit (defaultRequestID W) handler.request = some (result, pool)) :
      Step verifier (.submit handler.configSequence) s { s with pool, handlers := s.handlers.erase handler }
  | tick {s} (expired : List String) : Step verifier .other s { s with pool := s.pool.tick expired }
  /-- A stop or a soft stop closes the stop channel. -/
  | stop {s} : Step verifier .other s { s with role := { s.role with stopChan := true } }
  | close {s} (hstop : s.role.stopChan = true) : Step verifier .other s { s with pool := s.pool.close }
  /-- `SoftStop` halts the pool when the goroutines of the role have returned. -/
  | halt {s} (hrun : s.role.control = .returned) (hnotifier : s.role.notifier = .returned) :
      Step verifier .other s { s with pool := s.pool.halt }
  /-- `stopAndReconfigure`: a new role with another configuration, and the pool is pruned. -/
  | reconfigure {s r pool}
      (config : BatcherNodeConfig) (hrun : s.role.control = .returned) (hnotifier : s.role.notifier = .returned)
      (hreplicated : s.replicating = none) (hhalted : s.pool.stopped = true)
      (hconfig : s.role.configSequence ≤ config.configSequence)
      (hnew : configureBatcher W party config s.role.ledger.disk = .ok r)
      (hpool : s.pool.prune ((verifier config.configSequence).verifyRequest W) = some pool) :
      Step verifier .other s { s with
        role := r
        pool
        restarting := none
        reqIDs := []
        verification := none
        notifying := none
        change := none }
  | crash {s r} (config : BatcherNodeConfig)
      (options : PoolOptions) (hconfig : s.role.configSequence ≤ config.configSequence)
      (hnew : configureBatcher W party config s.role.ledger.disk = .ok r) :
      Step verifier .other s (boot r options s.sent s.attested)

/-- A batcher that is started for the first time. -/
inductive Init : BatcherNode W party shard n → Prop
  | init {r} (config : BatcherNodeConfig) (options : PoolOptions)
      (hnew : configureBatcher W party config (.blank shard) = .ok r) : Init (boot r options [] [])

/-- A run in which every step meets a condition. -/
def Run (verifier : ConfigSequence → RequestsInspectorVerifier) (ok : BatcherNode W party shard n → NodeEvent → Prop) :
    BatcherNode W party shard n → BatcherNode W party shard n → Prop :=
  Relation.ReflTransGen fun s s' => ∃ event, Step verifier event s s' ∧ ok s event

/-- What a batcher can come to. -/
def Reachable (verifier : ConfigSequence → RequestsInspectorVerifier) (s : BatcherNode W party shard n) : Prop :=
  ∃ s₀, Init s₀ ∧ Run verifier (fun _ _ => True) s₀ s

/-! ## The batcher without its pool -/

variable {event : NodeEvent} {s s' : BatcherNode W party shard n}

/-- What `Batcher/Role.lean` sees of a batcher, with every fragment sent as soon as it is handed over. -/
def batcher (s : BatcherNode W party shard n) : Batcher W party shard := ⟨.up s.role, [], s.sent⟩

/-- A fragment that the role waits for was handed over. -/
def Sending (s : BatcherNode W party shard n) : Prop := ∀ baf, s.role.control = .awaitSend baf → baf ∈ s.sent

theorem Sending.of_eq (hs : s.Sending) (hcontrol : s'.role.control = s.role.control) (hsent : s'.sent = s.sent) :
    s'.Sending := by
  unfold Sending
  rw [hcontrol, hsent]
  exact hs

theorem sending_of_ne (h : ∀ baf, s.role.control ≠ .awaitSend baf) : s.Sending :=
  fun baf hat => absurd hat (h baf)

theorem Step.sending (h : Step verifier event s s') (hs : s.Sending) : s'.Sending := by
  cases h with
  | role _ _ hstep | enterRole _ _ hstep =>
    cases hstep with
    | readState | notify | notifierReturn | stop => exact hs
    | _ => exact sending_of_ne nofun
  | startSend =>
    intro baf h
    obtain rfl : _ = baf := Control.awaitSend.inj h
    exact mem_cons_self
  | @sendDone baf =>
    refine sending_of_ne fun baf => ?_
    by_cases hp : s.role.primary = party <;> simp [hp]
  | runReturn | noRequests | batched | signOwn | complain | verified | signPulled => exact sending_of_ne nofun
  | reconfigure _ _ _ _ _ _ hnew =>
    exact sending_of_ne (by simp [(configureBatcher_eq_ok hnew).control])
  | crash _ _ _ hnew =>
    exact sending_of_ne (by simp [boot, (configureBatcher_eq_ok hnew).control])
  | _ => exact hs.of_eq rfl rfl

/-- **A step of the batcher with its pool is a step, or a few, of the batcher.** -/
theorem Step.simulates (h : Step verifier event s s') (hs : s.Sending) :
    Relation.ReflTransGen Batcher.Step s.batcher s'.batcher := by
  cases h with
  | role _ _ hstep | enterRole _ _ hstep => exact .single (.role hstep)
  | runReturn hat hstop => exact .single (.role (.runReturn hat hstop))
  | noRequests _ hat => exact .single (.role (.noRequests hat))
  | batched _ hat _ hout => exact .single (.role (.batched hat _ (by simpa using hout)))
  | signOwn hat sign hbaf => exact .single (.role (.signOwn hat sign hbaf))
  | complain hat _ _ herr => exact .single (.role (.complain hat _ herr))
  | verified hat _ _ hok => exact .single (.role (.verified hat _ hok))
  | signPulled hat sign hbaf => exact .single (.role (.signPulled hat sign hbaf))
  | startSend hat =>
    have hstart : Relation.ReflTransGen Batcher.Step s.batcher
        ⟨.up { s.role with control := .awaitSend _ }, [_], s.sent⟩ := .single (.startSend hat)
    have hsent := hstart.tail (.sendBAF mem_cons_self)
    rw [erase_cons_head] at hsent
    exact hsent
  | sendDone hat => exact .single (.sendDone hat (hs _ hat))
  | readState state hat _ hterm hne => exact .single (.role (.readState hat state hterm hne))
  | notify hat hroom => exact .single (.role (.notify hat hroom))
  | notifierReturn hat _ hstop => exact .single (.role (.notifierReturn hat hstop))
  | stop => exact .single (.role .stop)
  | reconfigure config hrun hnotifier _ _ _ hnew =>
    exact .single (.reconfigure config hrun hnotifier hnew)
  | crash config _ _ hnew =>
    have hcrash : Relation.ReflTransGen Batcher.Step s.batcher ⟨.down s.role.ledger.disk, [], s.sent⟩ := .single .crash
    exact hcrash.tail (.restart config hnew)
  | _ => exact .refl

theorem Init.sending (h : s.Init) : s.Sending := by
  obtain ⟨config, options, hnew⟩ := h
  exact sending_of_ne (by simp [boot, (configureBatcher_eq_ok hnew).control])

/-- An invariant of the batcher that every step keeps, where the steps meet a condition. -/
theorem Run.induct {ok : BatcherNode W party shard n → NodeEvent → Prop} {I : BatcherNode W party shard n → Prop}
    (hrun : Run verifier ok s s') (hs : I s)
    (hstep : ∀ {s s' event}, Step verifier event s s' → ok s event → I s → I s') : I s' := by
  induction hrun with
  | refl => exact hs
  | tail _ h ih =>
    obtain ⟨event, h, hok⟩ := h
    exact hstep h hok ih

/-! ## The pool -/

theorem Step.pool_inv (h : Step verifier event s s') (hp : s.pool.Inv (defaultRequestID W)) :
    s'.pool.Inv (defaultRequestID W) := by
  cases h with
  | restart _ _ hpool => exact (Pool.restart_spec hp hpool).1
  | noRequests _ _ hpool | batched _ _ hpool => exact (Pool.nextRequests_spec hp hpool).2.1
  | sendDone _ hpool => exact (Pool.removeRequests_spec hp hpool).2.1
  | revive _ hstep | offer _ hstep | replicateRevive _ hstep => exact (hstep.pool_spec hp).2.1
  | submit _ hsubmit => exact (Pool.submit_spec hp hsubmit).2.1
  | tick expired => exact (Pool.tick_spec hp expired).2.1
  | close => exact hp.close
  | halt => exact hp.halt
  | reconfigure _ _ _ _ _ _ _ hpool => exact (Pool.prune_spec hp hpool).2.1
  | crash _ options => exact Pool.inv_newPool options
  | _ => exact hp

theorem Reachable.sending (h : Reachable verifier s) : s.Sending := by
  obtain ⟨s₀, hinit, hrun⟩ := h
  exact hrun.induct hinit.sending fun hstep _ => hstep.sending

theorem Reachable.pool_inv (h : Reachable verifier s) : s.pool.Inv (defaultRequestID W) := by
  obtain ⟨s₀, hinit, hrun⟩ := h
  refine hrun.induct ?_ fun hstep _ => hstep.pool_inv
  obtain ⟨config, options, hnew⟩ := hinit
  exact Pool.inv_newPool options

theorem Step.batches_prefix (h : Step verifier event s s') (hs : s.Sending) (primary : PartyID) :
    s.role.ledger.batches primary <+: s'.role.ledger.batches primary :=
  Batcher.batches_prefix_of_run (h.simulates hs) primary

/-! ## A shard with two batchers -/

/-- Parties 1 and 2 with a batcher in shard 1 and a consenter each. -/
def pairConfig (configSequence : ConfigSequence) : BatcherNodeConfig where
  shards := [⟨1, [1, 2]⟩]
  consenters := [1, 2]
  configSequence
  verifySignature := BatcherRole.taggedVerify

/-- The first role of one of them. -/
def pairRole (W : Wire) (party : PartyID) (configSequence : ConfigSequence) : BatcherRole W party 1 where
  batchers := [1, 2]
  n := 2
  configSequence
  verifySignature := BatcherRole.taggedVerify
  ledger := ⟨fun primary => if primary ∈ [1, 2] then some (newBatchLedgerPart W (.empty 1 primary)) else none⟩
  primary := 0
  seq := 0
  term := 0
  termChan := none
  stopChan := false
  control := .loop
  notifier := .listening

theorem batchersFromConfig_pair (configSequence : ConfigSequence) :
    batchersFromConfig (pairConfig configSequence) 1 = [1, 2] := by
  have hsorted : Pairwise (fun a b : PartyID => decide (a ≤ b) = true) [1, 2] := by decide
  exact mergeSort_of_pairwise hsorted

theorem configureBatcher_pair (hparty : party ∈ [1, 2]) (configSequence : ConfigSequence) :
    configureBatcher W party (pairConfig configSequence) (.blank 1) = .ok (pairRole W party configSequence) := by
  have hparties : (pairConfig configSequence).parties 1 = [1, 2] := rfl
  simp only [configureBatcher, batchersFromConfig_pair, hparties, newBatchLedgerArray, hparty, not_true, if_false]
  rfl

theorem getPrimaryID_pair (configSequence : ConfigSequence) : (pairRole W party configSequence).getPrimaryID 0 = .ok 2 ∧
      (pairRole W party configSequence).getPrimaryID 1 = .ok 1 := by
  simp [BatcherRole.getPrimaryID, BatcherRole.getPrimaryIndex, pairRole, Outcome.index]

theorem height_pair {primary} (hprimary : primary ∈ [1, 2]) (configSequence : ConfigSequence) :
    (pairRole W party configSequence).ledger.height primary = .ok 0 := by
  have hpart : (pairRole W party configSequence).ledger.part primary = .ok (newBatchLedgerPart W (.empty 1 primary)) :=
    BatchLedgerArray.part_eq_ok.mpr (if_pos hprimary)
  simp [BatchLedgerArray.height, hpart, newBatchLedgerPart, BatchChain.empty]

/-- Every request is valid under config sequence 0 and none later. -/
def firstConfigOnly (configSequence : ConfigSequence) : RequestsInspectorVerifier where
  batchMaxBytes := 100
  batchMaxSize := 10
  shards := [1]
  shardID := 1
  mapper _ := ⟨0, Nat.one_pos⟩
  requestVerifier :=
    ⟨fun _ => if configSequence = 0 then .ok () else .error "signature did not satisfy policy", fun _ => .ok 0⟩
  configSeq := configSequence.toUInt32
  marshal _ := []
  unmarshal _ := .ok ⟨[], [], [], 0, [], 0⟩

theorem verifyRequest_firstConfigOnly (request : Bytes) :
    (firstConfigOnly 0).verifyRequest W request = .ok () ∧ (firstConfigOnly 1).verifyRequest W request ≠ .ok () :=
  ⟨rfl, nofun⟩

def roomyOptions : PoolOptions := ⟨10, 10, 100, 100⟩

/-- A batcher of the shard on one CPU, at its start. -/
def pairNode (W : Wire) (party : PartyID) : BatcherNode W party 1 1 := boot (pairRole W party 0) roomyOptions [] []

theorem init_pairNode (hparty : party ∈ [1, 2]) : (pairNode W party).Init :=
  ⟨pairConfig 0, roomyOptions, configureBatcher_pair hparty 0⟩

end BatcherNode

end Arma
