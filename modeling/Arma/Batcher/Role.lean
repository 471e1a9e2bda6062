import Arma.Ledger
import Arma.State.Events

/-!
# The batcher's role

Model of `BatcherRole` (`node/batcher/batcher_role.go`), with what `Batcher` (`batcher.go`,
`batcher_builder.go`) gives it: its configuration, and the fragments that it signs and sends.

* `run` is one goroutine. It takes the primary of the current term and continues that primary's chain, as the
  primary itself or as a secondary, until the term changes or the role is stopped. `Control` is where it
  stands: the code between two of its points touches nothing that another goroutine or the disk can see.
* `getTermAndNotifyChange` is another goroutine: it stores a new term first and puts it into the term channel,
  which holds one term, afterwards. `Notifier` is where it stands.
* The mem pool, the acker and the puller are not modelled. What they hand to the role is arbitrary: any
  requests, any batch at any time, and any answer of the request verifier. The batches may come from a primary
  that is not honest. The signer is arbitrary too.
* A batcher is the batcher of one party and one shard, `party` and `shard`, for all its life.
-/

namespace Arma

open Arma.Lib Outcome

/-! ## Fragments -/

/-- `NewSimpleBatchAttestationFragment`: a fragment that is not signed yet. -/
def newSimpleBatchAttestationFragment (shard : ShardID) (primary : PartyID) (seq : BatchSequence) (digest : Bytes)
    (signer : PartyID) (configSequence : ConfigSequence) (txCount : UInt64) (primarySignature : Bytes) : BAF :=
  { shard, primary, seq, digest, signer, signature := [], primarySignature, configSequence, txCount }

def createBAF (W : Wire) (sign : Bytes → Except String Bytes) (id : PartyID) (shard : ShardID) (digest : Bytes)
    (primary : PartyID) (seq : BatchSequence) (configSeq : ConfigSequence) (txCount : UInt64)
    (primarySignature : Bytes) : Outcome BAF := do
  let baf := newSimpleBatchAttestationFragment shard primary seq digest id configSeq txCount primarySignature
  let signature ← ofExcept (sign (baf.toBeSigned W))
  return { baf with signature }

/-! ## Configuration -/

/-- `ShardInfo`, of which the parties of the batchers are read. -/
structure ShardInfo where
  shardId : ShardID
  batchers : List PartyID
  deriving DecidableEq, Repr

/-- `BatcherNodeConfig`, with what the role reads of it. The signature verifier is built from the batchers'
public keys. -/
structure BatcherNodeConfig where
  shards : List ShardInfo
  consenters : List PartyID
  configSequence : ConfigSequence
  verifySignature : NodeIdentity → Bytes → Bytes → Except String Unit

/-- The parties that `configureBatcher` opens the ledger for: those of the first entry of the shard. -/
def BatcherNodeConfig.parties (config : BatcherNodeConfig) (shard : ShardID) : List PartyID :=
  match config.shards.find? fun info => info.shardId = shard with
  | some info => info.batchers
  | none => []

/-- `batchersFromConfig`: those of the last entry of the shard, sorted. -/
def batchersFromConfig (config : BatcherNodeConfig) (shard : ShardID) : List PartyID :=
  (config.shards.foldl (fun batchers info => if info.shardId = shard then info.batchers else batchers) []).mergeSort

/-! ## The role -/

/-- Where `run` stands. -/
inductive Control where
  /-- Head of the loop of `run`. -/
  | loop
  /-- `runPrimary`: waiting for the acker, a new term or the end. -/
  | waitForSecondaries
  /-- `runPrimary`: before `NextRequests`. -/
  | nextRequests
  /-- `runPrimary`: a batch was taken and hashed. -/
  | createBAF (currentBatch : BatchedRequests) (digest : Bytes)
  /-- `runPrimary`: its fragment was signed, it is not stored. -/
  | appendOwn (currentBatch : BatchedRequests) (digest : Bytes) (baf : BAF)
  | pullBatches
  | receive
  | verify (batch : FabricBatch)
  /-- `runSecondary`: it was verified, it is not stored. -/
  | appendPulled (batch : FabricBatch)
  /-- `runSecondary`: it was stored, its fragment is not signed. -/
  | attest (batch : FabricBatch)
  /-- Both: before the goroutine that sends the fragment is started. -/
  | startSend (baf : BAF)
  /-- Both: waiting for that goroutine, a new term or the end. -/
  | awaitSend (baf : BAF)
  | returned
  deriving DecidableEq, Repr

/-- The points where `run` waits in a `select` that listens to the term and stop channels. -/
def Control.selects : Control → Bool
  | .waitForSecondaries | .receive | .awaitSend _ => true
  | _ => false

/-- Where `getTermAndNotifyChange` stands. -/
inductive Notifier where
  | listening
  /-- The term is stored, and not yet in the channel. -/
  | notifying (newTerm : Nat)
  | returned
  deriving DecidableEq, Repr

structure BatcherRole (W : Wire) (party : PartyID) (shard : ShardID) where
  batchers : List PartyID
  n : UInt16
  configSequence : ConfigSequence
  verifySignature : NodeIdentity → Bytes → Bytes → Except String Unit
  ledger : BatchLedgerArray W shard
  primary : PartyID
  seq : BatchSequence
  term : Nat
  /-- The term channel, which holds one term. -/
  termChan : Option Nat
  stopChan : Bool
  control : Control
  notifier : Notifier

/-- `configureBatcher` and `Start`: a new role on the chains that are on the disk. It begins in term 0. -/
def configureBatcher (W : Wire) (party : PartyID) {shard : ShardID} (config : BatcherNodeConfig)
    (disk : Disk shard) : Outcome (BatcherRole W party shard) := do
  let ledger ← (newBatchLedgerArray W party (config.parties shard) disk).orPanic fun e =>
    s!"Failed creating BatchLedgerArray: {e}"
  let batchers := batchersFromConfig config shard
  if batchers = [] then .error (.panic s!"Failed locating the configuration of our shard ({shard})")
  else
    return {
      batchers
      n := UInt16.ofNat config.consenters.length
      configSequence := config.configSequence
      verifySignature := config.verifySignature
      ledger
      primary := 0
      seq := 0
      term := 0
      termChan := none
      stopChan := false
      control := .loop
      notifier := .listening }

namespace BatcherRole

variable {W : Wire} {party : PartyID} {shard : ShardID} (r : BatcherRole W party shard)

def getPrimaryIndex (term : Nat) : Outcome Nat :=
  if r.n = 0 then .error (.panic "runtime error: integer divide by zero")
  else .ok ((shard.toNat + term) % r.n.toNat)

def getPrimaryID (term : Nat) : Outcome PartyID := do
  let primaryIndex ← r.getPrimaryIndex term
  index r.batchers primaryIndex

/-- The text of a shard's term in a list of them. -/
def shardTermText (st : ShardTerm) : String := s!"\x7b{st.shard} {st.term}\x7d"

/-- `getTerm`: of several entries of the shard the last one counts. -/
def getTerm (shard : ShardID) (state : State) : Outcome Nat :=
  match (state.shards.filter fun st => st.shard = shard).getLast? with
  | some st => .ok st.term
  | none => .error (.panic (s!"Could not find our shard ({shard}) within the shards: " ++
      sliceText (state.shards.map shardTermText)))

/-- `Batcher.CreateBAF`, called for a batch of `primary`. -/
def createBAF (sign : Bytes → Except String Bytes) (seq : BatchSequence) (primary : PartyID) (digest : Bytes)
    (txCount : UInt64) (primarySignature : Bytes) : Outcome BAF :=
  (Arma.createBAF W sign party shard digest primary seq r.configSequence txCount primarySignature).orPanic
    fun e => s!"Failed creating batch attestation fragment: {e}"

/-- The fragment that the primary has to have signed for a batch. -/
def primaryBAF (batch : FabricBatch) : BAF :=
  newSimpleBatchAttestationFragment batch.shard batch.primary batch.seq batch.digest batch.primary
    batch.configSequence (UInt64.ofNat batch.requests.length) []

/-- `verifyBatch`: the ids of the requests. A config sequence that differs from the batcher's is only logged. -/
def verifyBatch (verifyBatchedRequests : BatchedRequests → Except String (List String)) (batch : FabricBatch) :
    Outcome (List String) := do
  require (batch.primary = r.primary)
    s!"batch primary ({batch.primary}) not equal to expected primary ({r.primary})"
  require (batch.shard = shard)
    s!"batch shard ({batch.shard}) not equal to expected shard ({shard})"
  require (batch.seq = r.seq)
    s!"batch seq ({batch.seq}) not equal to expected seq ({r.seq})"
  require (batch.requests.length ≠ 0) "empty batch"
  let computedDigest := batch.requests.digest W.sha256
  require (batch.digest = computedDigest)
    s!"batch digest ({sliceText batch.digest}) is not equal to calculated digest ({sliceText computedDigest})"
  (ofExcept (r.verifySignature (newBatcherIdentity batch.primary batch.shard)
    ((primaryBAF batch).toBeSigned W) batch.primarySignature)).wrap
      s!"failed verifying primary signature for batch seq {r.seq}"
  match verifyBatchedRequests batch.requests with
  | .ok reqIDs => return reqIDs
  | .error err => .error (.err s!"failed verifying requests for batch seq {r.seq}; err: {err}")

/-- One step of the two goroutines of a role, or the closing of its stop channel. Where a call panics there is
no step: the process dies. -/
inductive Step (r : BatcherRole W party shard) : BatcherRole W party shard → Prop
  | runReturn (hat : r.control = .loop) (hstop : r.stopChan = true) : Step r { r with control := .returned }
  | runPrimary {seq : BatchSequence} (hat : r.control = .loop)
      (hstop : r.stopChan = false) (hprimary : r.getPrimaryID r.term = .ok party)
      (hseq : r.ledger.height party = .ok seq) :
      Step r { r with primary := party, seq, control := .waitForSecondaries }
  | runSecondary {primary : PartyID} {seq : BatchSequence}
      (hat : r.control = .loop) (hstop : r.stopChan = false) (hprimary : r.getPrimaryID r.term = .ok primary)
      (hne : primary ≠ party) (hseq : r.ledger.height primary = .ok seq) :
      Step r { r with primary, seq, control := .pullBatches }
  /-- A `select` takes a new term: back to `run`. -/
  | newTerm {newTerm} (hat : r.control.selects = true)
      (hterm : r.termChan = some newTerm) : Step r { r with termChan := none, control := .loop }
  /-- A `select` takes the end: back to `run`. -/
  | stopped (hat : r.control.selects = true) (hstop : r.stopChan = true) : Step r { r with control := .loop }
  | secondariesReady (hat : r.control = .waitForSecondaries) : Step r { r with control := .nextRequests }
  | noRequests (hat : r.control = .nextRequests) : Step r { r with control := .waitForSecondaries }
  | batched (hat : r.control = .nextRequests) (currentBatch : BatchedRequests) (hne : currentBatch ≠ []) :
      Step r { r with control := .createBAF currentBatch (currentBatch.digest W.sha256) }
  | signOwn {currentBatch digest baf}
      (hat : r.control = .createBAF currentBatch digest) (sign : Bytes → Except String Bytes)
      (hbaf : r.createBAF sign r.seq party digest (UInt64.ofNat currentBatch.length) [] = .ok baf) :
      Step r { r with control := .appendOwn currentBatch digest baf }
  | appendOwn {currentBatch digest baf ledger} (hat : r.control = .appendOwn currentBatch digest baf)
      (happend : r.ledger.append party r.seq r.configSequence currentBatch digest baf.signature = .ok ledger) :
      Step r { r with ledger, control := .startSend baf }
  | pull (hat : r.control = .pullBatches) : Step r { r with control := .receive }
  | received (hat : r.control = .receive) (batch : FabricBatch) : Step r { r with control := .verify batch }
  /-- The batch is bad: the secondary complains and pulls again. -/
  | complain {batch err} (hat : r.control = .verify batch)
      (verifyBatchedRequests : BatchedRequests → Except String (List String))
      (herr : r.verifyBatch verifyBatchedRequests batch = .error (.err err)) :
      Step r { r with control := .pullBatches }
  | verified {batch reqIDs}
      (hat : r.control = .verify batch) (verifyBatchedRequests : BatchedRequests → Except String (List String))
      (hok : r.verifyBatch verifyBatchedRequests batch = .ok reqIDs) :
      Step r { r with control := .appendPulled batch }
  | appendPulled {batch ledger} (hat : r.control = .appendPulled batch)
      (happend : r.ledger.append r.primary r.seq r.configSequence batch.requests batch.digest
        batch.primarySignature = .ok ledger) :
      Step r { r with ledger, control := .attest batch }
  | signPulled {batch baf} (hat : r.control = .attest batch) (sign : Bytes → Except String Bytes)
      (hbaf : r.createBAF sign r.seq r.primary batch.digest (UInt64.ofNat batch.requests.length)
        batch.primarySignature = .ok baf) :
      Step r { r with control := .startSend baf }
  | readState {newTerm} (hat : r.notifier = .listening) (state : State)
      (hterm : getTerm shard state = .ok newTerm) (hne : newTerm ≠ r.term) :
      Step r { r with term := newTerm, notifier := .notifying newTerm }
  /-- The notifier puts it into the channel, once there is room. -/
  | notify {newTerm} (hat : r.notifier = .notifying newTerm)
      (hroom : r.termChan = none) : Step r { r with termChan := some newTerm, notifier := .listening }
  | notifierReturn (hat : r.notifier = .listening) (hstop : r.stopChan = true) :
      Step r { r with notifier := .returned }
  /-- `SoftStop` or `Stop` closes the stop channel. -/
  | stop : Step r { r with stopChan := true }

end BatcherRole

/-! ## The batcher over its life -/

/-- A batcher's process: not running, with what is on its disk, or running. -/
inductive Process (W : Wire) (party : PartyID) (shard : ShardID) where
  | down (disk : Disk shard)
  | up (role : BatcherRole W party shard)

/-- A batcher, with the fragments whose goroutine has not called `SendBAF` yet, and all those that were ever
handed to it. -/
structure Batcher (W : Wire) (party : PartyID) (shard : ShardID) where
  process : Process W party shard
  inflight : List BAF
  sent : List BAF

namespace Batcher

variable {W : Wire} {party : PartyID} {shard : ShardID}

/-- The disk, also while the process is running. -/
def disk (b : Batcher W party shard) : Disk shard :=
  match b.process with
  | .down disk => disk
  | .up role => role.ledger.disk

/-- The batches of a primary in the batcher's ledger. -/
def batches (b : Batcher W party shard) (primary : PartyID) : List FabricBatch := b.disk.batches primary

/-- A batcher that was never started. -/
def blank (W : Wire) (party : PartyID) (shard : ShardID) : Batcher W party shard :=
  ⟨.down (.blank shard), [], []⟩

inductive Step : Batcher W party shard → Batcher W party shard → Prop
  | role {r r' inflight sent} (hstep : r.Step r') : Step ⟨.up r, inflight, sent⟩ ⟨.up r', inflight, sent⟩
  | startSend {r inflight sent baf} (hat : r.control = .startSend baf) :
      Step ⟨.up r, inflight, sent⟩ ⟨.up { r with control := .awaitSend baf }, baf :: inflight, sent⟩
  /-- A goroutine hands its fragment to `SendBAF`, even if the role has moved on meanwhile. -/
  | sendBAF {r inflight sent baf} (hin : baf ∈ inflight) :
      Step ⟨.up r, inflight, sent⟩ ⟨.up r, inflight.erase baf, baf :: sent⟩
  /-- The role learns that it was sent, and goes on with the next batch. -/
  | sendDone {r inflight sent baf} (hat : r.control = .awaitSend baf) (hsent : baf ∈ sent) :
      Step ⟨.up r, inflight, sent⟩ ⟨.up { r with
            seq := r.seq + 1
            control := if r.primary = party then .waitForSecondaries else .receive }, inflight, sent⟩
  /-- `stopAndReconfigure`: when the goroutines of the role have returned, the ledger is closed and a new role
  is made with another configuration. What is being sent is still sent. -/
  | reconfigure {r r' inflight sent} (config : BatcherNodeConfig)
      (hrun : r.control = .returned) (hnotifier : r.notifier = .returned)
      (hnew : configureBatcher W party config r.ledger.disk = .ok r') :
      Step ⟨.up r, inflight, sent⟩ ⟨.up r', inflight, sent⟩
  | crash {r inflight sent} : Step ⟨.up r, inflight, sent⟩ ⟨.down r.ledger.disk, [], sent⟩
  | restart {disk r inflight sent}
      (config : BatcherNodeConfig) (hnew : configureBatcher W party config disk = .ok r) :
      Step ⟨.down disk, inflight, sent⟩ ⟨.up r, inflight, sent⟩

def Reachable (b : Batcher W party shard) : Prop := Relation.ReflTransGen Step (blank W party shard) b

end Batcher

end Arma
