import Arma.Lib.Interleave
import Arma.Wire

/-!
# The router's streams to a batcher

Model of `ShardRouter` and `stream` (`node/router/shard_router.go`, `node/router/stream.go`): what becomes of a client's
request between `Forward` and the reply on the client's feedback.

* A request is in the channel of a stream until `sendRequests` takes it out. A traced one is registered in the stream's
  map too, and whoever takes the registration out answers. An untraced one is answered by whoever took it out of the
  channel.
* A stream that failed is renewed by the reconnection routine: the channel is moved, the map is copied, and the new
  stream is installed in the slot. Everybody who has read the old stream from the slot goes on with it.
* A goroutine is a thread of a `ThreadPool`, and an action is what it does under one lock, or one operation on a
  channel. What the verifier says of a request is a function of it. What a batcher answers and when a connection fails
  is open, and so is what the config submitter answers.
* Backoff, the connections and the metrics are left out. The channel of a stream is never closed.

`renewed` and `taken` are not in the code: they record that `renewStream` has copied the map of a stream, and which
requests `Forward` was called with.
-/

namespace Arma.Router

open Arma.Lib

/-! ## Requests -/

/-- `protos.Request`, of which the payload and the signature are verified. -/
structure Request where
  payload : Bytes
  signature : Bytes
  deriving DecidableEq, Repr

/-- `TrackedRequest`. Two of them are told apart by where they are in memory; the feedback is that of the client. -/
structure TrackedRequest where
  address : Nat
  request : Request
  reqID : Bytes
  trace : Option Bytes
  deriving DecidableEq, Repr

structure SubmitResponse where
  error : String
  reqID : Bytes
  traceId : Bytes
  deriving DecidableEq, Repr

structure Response where
  err : Option String
  reqID : Bytes
  submitResponse : Option SubmitResponse
  deriving DecidableEq, Repr

/-- `common.HeaderType`, by its number. -/
abbrev HeaderType : Type := Int32

def headerTypeConfigUpdate : HeaderType := 2

def headerTypeOrdererTransaction : HeaderType := 4

def headerTypeDeliverSeekInfo : HeaderType := 5

def headerTypeNames : List String :=
  ["MESSAGE", "CONFIG", "CONFIG_UPDATE", "ENDORSER_TRANSACTION", "ORDERER_TRANSACTION", "DELIVER_SEEK_INFO",
    "CHAINCODE_PACKAGE"]

def HeaderType.string (t : HeaderType) : String :=
  if t < 0 then toString t else (headerTypeNames[t.toInt.toNat]?).getD (toString t)

structure RulesVerifier where
  verify : Request → Except String Unit
  verifyStructureAndClassify : Request → Except String HeaderType

def RulesVerifier.verifyAndClassifyRequest (v : RulesVerifier) (request : Request) : Except String HeaderType :=
  match v.verify request with
  | .error err => .error s!"request verification error: {err}"
  | .ok () =>
    match v.verifyStructureAndClassify request with
    | .error err => .error s!"request structure verification error: {err}"
    | .ok reqType =>
      if (headerTypeNames.length : Int) ≤ reqType.toInt ∨ reqType = headerTypeConfig ∨
          reqType = headerTypeOrdererTransaction ∨ reqType = headerTypeDeliverSeekInfo then
        .error s!"request structure verification error: request has unsupported type {HeaderType.string reqType}"
      else .ok reqType

/-! ## A stream -/

/-- The capacity of a stream's channel. -/
def requestsChannelSize : Nat := 1000

/-- `stream`. The map is a list of the requests in it, each under its own trace. -/
structure Stream where
  endpoint : String
  requestsChannel : List TrackedRequest
  requestsByTraceID : List TrackedRequest
  cancelled : Bool
  done : Bool
  connNum : Nat
  streamNum : Nat
  notifiedReconnect : Bool
  renewed : Bool
  deriving DecidableEq, Repr

namespace Stream

variable (s : Stream)

def registered (trace : Bytes) : Option TrackedRequest := s.requestsByTraceID.find? (·.trace = some trace)

/-- A registration is removed from the map. -/
def delete (trace : Bytes) : Stream :=
  { s with requestsByTraceID := s.requestsByTraceID.filter (·.trace ≠ some trace) }

def registerReply (tr : TrackedRequest) : Stream :=
  { s with requestsByTraceID := tr :: s.requestsByTraceID.filter (·.trace ≠ tr.trace) }

/-- A stream as `initStream` and `renewStream` make it. -/
def new (endpoint : String) (connNum streamNum : Nat) (requestsChannel requestsByTraceID : List TrackedRequest) :
    Stream where
  endpoint
  requestsChannel
  requestsByTraceID
  cancelled := false
  done := false
  connNum
  streamNum
  notifiedReconnect := false
  renewed := false

def serverError : String :=
  s!"server error: could not establish connection between router and batcher {s.endpoint}"

end Stream

/-! ## The shard router -/

/-- Where a stream is on the heap. -/
abbrev StreamRef : Type := Nat

/-- Where `reconnectRoutine` stands, for the stream `stream` of the connection `conn`. -/
inductive Reconnecting where
  | idle
  /-- At the beginning of a round, for a request. -/
  | attempt (conn stream : Nat)
  /-- In `maybeReconnectStream`, with `currentStream`. -/
  | current (conn stream : Nat) (s : Option StreamRef)
  /-- In `renewStream`, with what is in the new channel. -/
  | move (conn stream : Nat) (s : StreamRef) (queue : List TrackedRequest)
  /-- With a request between the channels. -/
  | put (conn stream : Nat) (s : StreamRef) (queue : List TrackedRequest) (tr : TrackedRequest)
  /-- The old channel was found empty. -/
  | copy (conn stream : Nat) (s : StreamRef) (queue : List TrackedRequest)
  | install (conn stream : Nat) (s : StreamRef)
  | returned
  deriving DecidableEq, Repr

/-- `ShardRouter`, and the channel of the config submitter. -/
structure ShardRouter where
  router2batcherConnPoolSize : Nat
  router2batcherStreamsPerConn : Nat
  batcherEndpoint : String
  heap : List Stream
  streams : Nat → Nat → Option StreamRef
  reconnectRequests : List (Nat × Nat)
  closeReconnect : Bool
  /-- How many hold the lock for reading. -/
  readLocks : Nat
  reconnecting : Reconnecting
  configRequestsChannel : List TrackedRequest
  /-- What the config submitter works on. -/
  submitting : Option TrackedRequest
  taken : List TrackedRequest
  replies : List (TrackedRequest × Response)

/-- The capacity of the config submitter's channel. -/
def configRequestsChannelSize : Nat := 100

namespace ShardRouter

variable (sr : ShardRouter)

def streamIndexes (reqID : Bytes) : Nat × Nat :=
  let leadingBytes := (reqID ++ [0, 0, 0, 0]).take 4
  let numOfSlots := sr.router2batcherConnPoolSize * sr.router2batcherStreamsPerConn
  let slot := ofBigEndian leadingBytes % numOfSlots
  (slot / sr.router2batcherStreamsPerConn, slot % sr.router2batcherStreamsPerConn)

def streamOf (tr : TrackedRequest) : Option StreamRef :=
  sr.streams (sr.streamIndexes tr.reqID).1 (sr.streamIndexes tr.reqID).2

def setStream (s : StreamRef) (σ : Stream) : ShardRouter := { sr with heap := sr.heap.set s σ }

def setSlot (conn stream : Nat) (s : StreamRef) : Nat → Nat → Option StreamRef := fun c k =>
  if c = conn ∧ k = stream then some s else sr.streams c k

/-- `reply` on the feedback of the request's client. -/
def reply (tr : TrackedRequest) (resp : Response) : ShardRouter :=
  { sr with replies := sr.replies ++ [(tr, resp)] }

/-- The streams in the order in which `SoftStop` visits them. -/
def installed : List StreamRef :=
  (List.range sr.router2batcherConnPoolSize).flatMap fun c =>
    (List.range sr.router2batcherStreamsPerConn).filterMap fun k => sr.streams c k

/-- There is room in the channel of the reconnection routine. -/
def reconnectRoom : Prop :=
  sr.reconnectRequests.length < 2 * sr.router2batcherStreamsPerConn * sr.router2batcherConnPoolSize

/-- What `notifyReconnectRoutine` does under the lock. -/
def notifyReconnect (s : StreamRef) (σ : Stream) : ShardRouter :=
  if σ.notifiedReconnect then sr
  else { sr.setStream s { σ with notifiedReconnect := true } with
    reconnectRequests := sr.reconnectRequests ++ [(σ.connNum, σ.streamNum)] }

def brokenError : String :=
  s!"server error: connection between router and batcher {sr.batcherEndpoint} is broken, try again later"

/-- A new stream is put on the heap. -/
def addStream (σ : Stream) : ShardRouter := { sr with heap := sr.heap ++ [σ] }

variable {sr} {s : StreamRef} {σ : Stream} {tr : TrackedRequest} {resp : Response}

@[simp] theorem taken_setStream : (sr.setStream s σ).taken = sr.taken := rfl

@[simp] theorem taken_reply : (sr.reply tr resp).taken = sr.taken := rfl

@[simp] theorem taken_notifyReconnect : (sr.notifyReconnect s σ).taken = sr.taken := by
  unfold notifyReconnect
  split <;> rfl

end ShardRouter

/-! ## The goroutines -/

/-- Where a call of `Forward` stands. -/
inductive Forwarding where
  | read
  | check (s : StreamRef)
  | notify (s : StreamRef)
  | reject
  | register (s : StreamRef)
  | enqueue (s : StreamRef)
  deriving DecidableEq, Repr

/-- Where `sendRequests` stands. -/
inductive Sending where
  | select
  | handle (tr : TrackedRequest)
  /-- With a registration it took out, and the response. -/
  | found (tr : TrackedRequest) (resp : Response)
  | submit (tr : TrackedRequest)
  deriving DecidableEq, Repr

/-- Where `readResponses` stands. -/
inductive Reading where
  | receive
  | found (tr : TrackedRequest) (resp : Response)
  deriving DecidableEq, Repr

/-- Where `sendResponseToAllClientsOnError` stands. -/
inductive Answering where
  | drain
  | unregister (tr : TrackedRequest)
  | drained (tr : TrackedRequest)
  | detach
  | pending (requests : List TrackedRequest)
  deriving DecidableEq, Repr

/-- Who called `sendResponseToAllClientsOnError`: `cancelOnServerError`, or `SoftStop` with the streams to come. -/
inductive Caller where
  | cancelOnServerError (withBackoff : Bool)
  | softStop (rest : List StreamRef)
  deriving DecidableEq, Repr

/-- The goroutines, and the callers of `Forward`, `SoftStop` and `Stop`. -/
inductive Thread where
  | client
  | operator
  | forward (tr : TrackedRequest) (pc : Forwarding)
  | sendRequests (s : StreamRef) (pc : Sending)
  | readResponses (s : StreamRef) (pc : Reading)
  | cancelOnServerError (s : StreamRef) (withBackoff : Bool)
  | sendResponseToAllClientsOnError (s : StreamRef) (e : String) (pc : Answering) (caller : Caller)
  | notifyReconnectRoutine (s : StreamRef) (withBackoff : Bool)
  | softStop (errToClients : String)
  | softStopping (errToClients : String) (rest : List StreamRef)
  | reconnectRoutine
  | readConfigRequests
  deriving DecidableEq, Repr

def Caller.resume (s : StreamRef) (e : String) : Caller → Thread
  | .cancelOnServerError withBackoff => .notifyReconnectRoutine s withBackoff
  | .softStop rest => .softStopping e rest

/-- The goroutines of a new stream. -/
@[simp] def streamThreads (s : StreamRef) : List Thread := [.sendRequests s .select, .readResponses s .receive]

variable (v : RulesVerifier)

inductive Act (sr : ShardRouter) : Thread → ShardRouter → List Thread → Prop
  /-- A client's request: no two of them have one trace. -/
  | accept {tr} (hfresh : tr ∉ sr.taken) (htrace : ∀ tr' ∈ sr.taken, tr.trace ≠ none → tr'.trace ≠ tr.trace) :
      Act sr .client { sr with taken := tr :: sr.taken } [.client, .forward tr .read]
  -- `Forward`
  | forwardNil {tr} (hread : sr.streamOf tr = none) : Act sr (.forward tr .read) sr [.forward tr .reject]
  | forwardRead {tr s} (hread : sr.streamOf tr = some s) : Act sr (.forward tr .read) sr [.forward tr (.check s)]
  | forwardFaulty {tr s σ} (hσ : sr.heap[s]? = some σ)
      (hfaulty : σ.cancelled = true) : Act sr (.forward tr (.check s)) sr [.forward tr (.notify s)]
  | forwardNotify {tr s σ} (hσ : sr.heap[s]? = some σ) (hroom : σ.notifiedReconnect = false → sr.reconnectRoom) :
      Act sr (.forward tr (.notify s)) (sr.notifyReconnect s σ) [.forward tr .reject]
  | forwardReject {tr} : Act sr (.forward tr .reject) (sr.reply tr ⟨some sr.brokenError, tr.reqID, none⟩) []
  | forwardHealthy {tr s σ} (hσ : sr.heap[s]? = some σ) (hhealthy : σ.cancelled = false) :
      Act sr (.forward tr (.check s)) sr [.forward tr (.register s)]
  | forwardUntraced {tr s} (htrace : tr.trace = none) :
      Act sr (.forward tr (.register s)) sr [.forward tr (.enqueue s)]
  | forwardRegister {tr s σ} (hσ : sr.heap[s]? = some σ) (htrace : tr.trace ≠ none) :
      Act sr (.forward tr (.register s)) (sr.setStream s (σ.registerReply tr)) [.forward tr (.enqueue s)]
  | forwardEnqueue {tr s σ} (hσ : sr.heap[s]? = some σ) (hroom : σ.requestsChannel.length < requestsChannelSize) :
      Act sr (.forward tr (.enqueue s)) (sr.setStream s { σ with requestsChannel := σ.requestsChannel ++ [tr] }) []
  -- `sendRequests`
  | sendDone {s σ} (hσ : sr.heap[s]? = some σ) (hdone : σ.done = true) : Act sr (.sendRequests s .select) sr []
  | sendTake {s σ tr rest} (hσ : sr.heap[s]? = some σ) (hchan : σ.requestsChannel = tr :: rest) :
      Act sr (.sendRequests s .select) (sr.setStream s { σ with requestsChannel := rest })
        [.sendRequests s (.handle tr)]
  | sendInvalidUntraced {s tr err}
      (hverify : v.verifyAndClassifyRequest tr.request = .error err) (htrace : tr.trace = none) :
      Act sr (.sendRequests s (.handle tr)) (sr.reply tr ⟨some err, [], none⟩) [.sendRequests s .select]
  | sendInvalid {s σ tr tr' err trace} (hσ : sr.heap[s]? = some σ)
      (hverify : v.verifyAndClassifyRequest tr.request = .error err)
      (htrace : tr.trace = some trace) (hfound : σ.registered trace = some tr') :
      Act sr (.sendRequests s (.handle tr)) (sr.setStream s (σ.delete trace))
        [.sendRequests s (.found tr' ⟨none, [], some ⟨err, [], trace⟩⟩)]
  | sendInvalidGone {s σ tr err trace} (hσ : sr.heap[s]? = some σ)
      (hverify : v.verifyAndClassifyRequest tr.request = .error err)
      (htrace : tr.trace = some trace) (hgone : σ.registered trace = none) :
      Act sr (.sendRequests s (.handle tr)) sr [.sendRequests s .select]
  | sendConfigUntraced {s tr}
      (hverify : v.verifyAndClassifyRequest tr.request = .ok headerTypeConfigUpdate) (htrace : tr.trace = none) :
      Act sr (.sendRequests s (.handle tr)) sr [.sendRequests s (.submit tr)]
  | sendConfig {s σ tr tr' trace}
      (hσ : sr.heap[s]? = some σ) (hverify : v.verifyAndClassifyRequest tr.request = .ok headerTypeConfigUpdate)
      (htrace : tr.trace = some trace) (hfound : σ.registered trace = some tr') :
      Act sr (.sendRequests s (.handle tr)) (sr.setStream s (σ.delete trace)) [.sendRequests s (.submit tr)]
  | sendConfigGone {s σ tr trace}
      (hσ : sr.heap[s]? = some σ) (hverify : v.verifyAndClassifyRequest tr.request = .ok headerTypeConfigUpdate)
      (htrace : tr.trace = some trace) (hgone : σ.registered trace = none) :
      Act sr (.sendRequests s (.handle tr)) sr [.sendRequests s .select]
  | submitQueued {s tr} (hroom : sr.configRequestsChannel.length < configRequestsChannelSize) :
      Act sr (.sendRequests s (.submit tr)) { sr with configRequestsChannel := sr.configRequestsChannel ++ [tr] }
        [.sendRequests s .select]
  | submitRejected {s tr} (hfull : configRequestsChannelSize ≤ sr.configRequestsChannel.length) :
      Act sr (.sendRequests s (.submit tr))
        (sr.reply tr ⟨some "server error: config request queue is full, try again later", tr.reqID, none⟩)
        [.sendRequests s .select]
  /-- `Send` succeeds. A traced request is answered by `readResponses`. -/
  | sendOk {s tr reqType}
      (hverify : v.verifyAndClassifyRequest tr.request = .ok reqType) (htype : reqType ≠ headerTypeConfigUpdate) :
      Act sr (.sendRequests s (.handle tr)) (if tr.trace = none then sr.reply tr ⟨none, [], none⟩ else sr)
        [.sendRequests s .select]
  /-- `Send` fails. A traced request is answered by `cancelOnServerError`. -/
  | sendFailed {s σ tr reqType}
      (hσ : sr.heap[s]? = some σ) (hverify : v.verifyAndClassifyRequest tr.request = .ok reqType)
      (htype : reqType ≠ headerTypeConfigUpdate) :
      Act sr (.sendRequests s (.handle tr)) (if tr.trace = none then sr.reply tr ⟨some σ.serverError, [], none⟩ else sr)
        [.cancelOnServerError s false]
  | sendReply {s tr resp} : Act sr (.sendRequests s (.found tr resp)) (sr.reply tr resp) [.sendRequests s .select]
  -- `readResponses`
  | readDone {s σ} (hσ : sr.heap[s]? = some σ) (hdone : σ.done = true) : Act sr (.readResponses s .receive) sr []
  /-- A response of the batcher, whatever it is. -/
  | readFound {s σ tr resp} (hσ : sr.heap[s]? = some σ) (hfound : σ.registered resp.traceId = some tr) :
      Act sr (.readResponses s .receive) (sr.setStream s (σ.delete resp.traceId))
        [.readResponses s (.found tr ⟨none, [], some resp⟩)]
  | readGone {s : StreamRef} {σ : Stream} {resp : SubmitResponse} (hσ : sr.heap[s]? = some σ)
      (hgone : σ.registered resp.traceId = none) :
      Act sr (.readResponses s .receive) sr [.readResponses s .receive]
  | readReply {s tr resp} : Act sr (.readResponses s (.found tr resp)) (sr.reply tr resp) [.readResponses s .receive]
  /-- `Recv` fails, with backoff if the batcher was stopped. -/
  | readFailed {s} (withBackoff : Bool) : Act sr (.readResponses s .receive) sr [.cancelOnServerError s withBackoff]
  -- `cancelOnServerError` and `sendResponseToAllClientsOnError`
  | cancel {s σ withBackoff} (hσ : sr.heap[s]? = some σ) :
      Act sr (.cancelOnServerError s withBackoff) (sr.setStream s { σ with cancelled := true })
        [.sendResponseToAllClientsOnError s σ.serverError .drain (.cancelOnServerError withBackoff)]
  | drainTake {s σ e caller tr rest} (hσ : sr.heap[s]? = some σ) (hchan : σ.requestsChannel = tr :: rest) :
      Act sr (.sendResponseToAllClientsOnError s e .drain caller) (sr.setStream s { σ with requestsChannel := rest })
        [.sendResponseToAllClientsOnError s e (.unregister tr) caller]
  /-- What `unregisterReply` returns is not looked at. -/
  | drainUnregister {s σ e caller tr trace} (hσ : sr.heap[s]? = some σ) (htrace : tr.trace = some trace) :
      Act sr (.sendResponseToAllClientsOnError s e (.unregister tr) caller) (sr.setStream s (σ.delete trace))
        [.sendResponseToAllClientsOnError s e (.drained tr) caller]
  | drainUntraced {s e caller tr} (htrace : tr.trace = none) :
      Act sr (.sendResponseToAllClientsOnError s e (.unregister tr) caller) sr
        [.sendResponseToAllClientsOnError s e (.drained tr) caller]
  | drainReply {s e caller tr} :
      Act sr (.sendResponseToAllClientsOnError s e (.drained tr) caller) (sr.reply tr ⟨some e, tr.reqID, none⟩)
        [.sendResponseToAllClientsOnError s e .drain caller]
  | drainEmpty {s σ e caller} (hσ : sr.heap[s]? = some σ) (hchan : σ.requestsChannel = []) :
      Act sr (.sendResponseToAllClientsOnError s e .drain caller) sr
        [.sendResponseToAllClientsOnError s e .detach caller]
  | detach {s σ e caller} (hσ : sr.heap[s]? = some σ) :
      Act sr (.sendResponseToAllClientsOnError s e .detach caller) (sr.setStream s { σ with requestsByTraceID := [] })
        [.sendResponseToAllClientsOnError s e (.pending σ.requestsByTraceID) caller]
  /-- The map is ranged over in any order. -/
  | answer {s e caller tr before after} :
      Act sr (.sendResponseToAllClientsOnError s e (.pending (before ++ tr :: after)) caller)
        (sr.reply tr ⟨some e, tr.reqID, none⟩)
        [.sendResponseToAllClientsOnError s e (.pending (before ++ after)) caller]
  | answered {s e caller} : Act sr (.sendResponseToAllClientsOnError s e (.pending []) caller) sr [caller.resume s e]
  | notify {s σ withBackoff} (hσ : sr.heap[s]? = some σ)
      (hcancelled : σ.cancelled = true) (hroom : σ.notifiedReconnect = false → sr.reconnectRoom) :
      Act sr (.notifyReconnectRoutine s withBackoff) (sr.notifyReconnect s σ) []
  /-- The stream is closed during the backoff. -/
  | notifyDone {s σ} (hσ : sr.heap[s]? = some σ) (hdone : σ.done = true) :
      Act sr (.notifyReconnectRoutine s true) sr []
  -- `SoftStop` and `Stop`
  | softStop (errToClients : String) :
      Act sr .operator { sr with closeReconnect := true } [.operator, .softStop errToClients]
  | softStopLock {errToClients} : Act sr (.softStop errToClients) { sr with readLocks := sr.readLocks + 1 }
        [.softStopping errToClients sr.installed]
  | softStopNext {errToClients s rest} : Act sr (.softStopping errToClients (s :: rest)) sr
        [.sendResponseToAllClientsOnError s errToClients .drain (.softStop rest)]
  | softStopUnlock {errToClients} :
      Act sr (.softStopping errToClients []) { sr with readLocks := sr.readLocks - 1 } []
  | stop : Act sr .operator { sr with closeReconnect := true } [.operator]
  -- `readConfigRequests` of the config submitter
  | configTake {tr rest} (hidle : sr.submitting = none) (hchan : sr.configRequestsChannel = tr :: rest) :
      Act sr .readConfigRequests { sr with configRequestsChannel := rest, submitting := some tr } [.readConfigRequests]
  | configReply {tr resp} (hat : sr.submitting = some tr) :
      Act sr .readConfigRequests { sr.reply tr resp with submitting := none } [.readConfigRequests]
  -- `reconnectRoutine`, `maybeReconnectStream` and `renewStream`
  | reconnectStop (hat : sr.reconnecting = .idle ∨ ∃ c k, sr.reconnecting = .attempt c k)
      (hclosed : sr.closeReconnect = true) :
      Act sr .reconnectRoutine { sr with reconnecting := .returned } []
  | reconnectTake {c k rest} (hat : sr.reconnecting = .idle) (hrequests : sr.reconnectRequests = (c, k) :: rest) :
      Act sr .reconnectRoutine { sr with reconnectRequests := rest, reconnecting := .attempt c k } [.reconnectRoutine]
  | reconnectRead {c k} (hat : sr.reconnecting = .attempt c k) (hrunning : sr.closeReconnect = false) :
      Act sr .reconnectRoutine { sr with reconnecting := .current c k (sr.streams c k) } [.reconnectRoutine]
  /-- There is no connection, or no stream over it. -/
  | reconnectFailed {c k s} (hat : sr.reconnecting = .current c k s) :
      Act sr .reconnectRoutine { sr with reconnecting := .attempt c k } [.reconnectRoutine]
  | reconnectHealthy {c k s σ}
      (hat : sr.reconnecting = .current c k (some s)) (hσ : sr.heap[s]? = some σ) (hhealthy : σ.cancelled = false) :
      Act sr .reconnectRoutine { sr with reconnecting := .idle } [.reconnectRoutine]
  | initStream {c k} (hat : sr.reconnecting = .current c k none) (hlock : sr.readLocks = 0) : Act sr .reconnectRoutine
        { sr.addStream (.new sr.batcherEndpoint c k [] []) with
          streams := sr.setSlot c k sr.heap.length
          reconnecting := .idle }
        (.reconnectRoutine :: streamThreads sr.heap.length)
  /-- `renewStream` has a new stream of the batcher, and closes the old one. -/
  | renewClose {c k s σ}
      (hat : sr.reconnecting = .current c k (some s)) (hσ : sr.heap[s]? = some σ) (hfaulty : σ.cancelled = true) :
      Act sr .reconnectRoutine
        { sr.setStream s { σ with done := true } with reconnecting := .move c k s [] } [.reconnectRoutine]
  | renewTake {c k s σ queue rest tr} (hat : sr.reconnecting = .move c k s queue) (hσ : sr.heap[s]? = some σ)
      (hchan : σ.requestsChannel = tr :: rest) :
      Act sr .reconnectRoutine
        { sr.setStream s { σ with requestsChannel := rest } with reconnecting := .put c k s queue tr }
        [.reconnectRoutine]
  | renewPut {c k s queue tr}
      (hat : sr.reconnecting = .put c k s queue tr) (hroom : queue.length < requestsChannelSize) :
      Act sr .reconnectRoutine { sr with reconnecting := .move c k s (queue ++ [tr]) } [.reconnectRoutine]
  | renewEmpty {c k s σ queue}
      (hat : sr.reconnecting = .move c k s queue) (hσ : sr.heap[s]? = some σ) (hchan : σ.requestsChannel = []) :
      Act sr .reconnectRoutine { sr with reconnecting := .copy c k s queue } [.reconnectRoutine]
  | renewCopy {c k s σ queue} (hat : sr.reconnecting = .copy c k s queue) (hσ : sr.heap[s]? = some σ) :
      Act sr .reconnectRoutine
        { (sr.setStream s { σ with renewed := true }).addStream
            (.new sr.batcherEndpoint σ.connNum σ.streamNum queue σ.requestsByTraceID) with
          reconnecting := .install c k sr.heap.length }
        (.reconnectRoutine :: streamThreads sr.heap.length)
  | reconnectInstall {c k s} (hat : sr.reconnecting = .install c k s) (hlock : sr.readLocks = 0) :
      Act sr .reconnectRoutine { sr with streams := sr.setSlot c k s, reconnecting := .idle } [.reconnectRoutine]

abbrev Routing : Type := ThreadPool ShardRouter Thread

/-- A goroutine at its start, or a caller. -/
def Thread.Starts (t : Thread) : Prop :=
  t = .client ∨ t = .operator ∨ t = .reconnectRoutine ∨ t = .readConfigRequests ∨
    ∃ s, t = .sendRequests s .select ∨ t = .readResponses s .receive

/-- `InitShardRouter` has returned: the streams that could be made are in their slots. -/
structure Begins (p : Routing) : Prop where
  fresh : ∀ s σ, p.shared.heap[s]? = some σ → ∃ endpoint c k, σ = .new endpoint c k [] [] ∧
    p.shared.streams c k = some s
  slots : ∀ c k s, p.shared.streams c k = some s → ∃ σ, p.shared.heap[s]? = some σ ∧ σ.connNum = c ∧ σ.streamNum = k
  reconnecting : p.shared.reconnecting = .idle
  configRequestsChannel : p.shared.configRequestsChannel = []
  submitting : p.shared.submitting = none
  taken : p.shared.taken = []
  replies : p.shared.replies = []
  threads : ∀ t ∈ p.threads, t.Starts

end Arma.Router
