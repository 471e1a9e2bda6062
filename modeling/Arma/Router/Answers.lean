import Arma.Router.Invariant

/-!
# One reply for each request

Who may answer a request: the goroutine that took an untraced request out of a channel, or the registration of a traced
one out of a map. Such a right is in one place, and a reply uses it up, with two exceptions:

* `sendResponseToAllClientsOnError` answers every request that it takes out of the channel, also a traced one whose
  registration is gone. `Forward` registers a request before it enqueues it, and the map may be detached in between
  (`answered_twice`).
* `renewStream` copies the map, and leaves the old one to those who still have the old stream.

**`answered_at_most_once`**: in every run without the two, every request gets at most one reply.
-/

namespace Arma.Router

open Arma.Lib List Arma.Router.Stream ShardRouter

variable {v : RulesVerifier} {sr sr' : ShardRouter} {t : Thread} {ts : List Thread} {σ σ' : Stream} {s : StreamRef}
  {tr tr' : TrackedRequest} {trace : Bytes} {p p' p₀ : Routing}

/-! ## The right to answer -/

/-- A request that is taken out of a channel: the right to answer comes with it unless it is traced. -/
def untraced (tr : TrackedRequest) : List TrackedRequest := if tr.trace = none then [tr] else []

/-- The requests that a thread may answer. -/
@[simp] def Thread.rights : Thread → List TrackedRequest
  | .forward tr (.enqueue _) => untraced tr
  | .forward tr _ => [tr]
  | .sendRequests _ (.handle tr) => untraced tr
  | .sendRequests _ (.found tr _) => [tr]
  | .sendRequests _ (.submit tr) => [tr]
  | .readResponses _ (.found tr _) => [tr]
  | .sendResponseToAllClientsOnError _ _ (.unregister tr) _ => untraced tr
  | .sendResponseToAllClientsOnError _ _ (.drained tr) _ => [tr]
  | .sendResponseToAllClientsOnError _ _ (.pending requests) _ => requests
  | _ => []

/-- The rights in a stream. Those in a map that was copied are in the new stream. -/
def Stream.rights (σ : Stream) : List TrackedRequest :=
  σ.requestsChannel.flatMap untraced ++ if σ.renewed then [] else σ.requestsByTraceID

/-- The rights, and the replies, that are not with a thread. -/
def ShardRouter.rights (sr : ShardRouter) : List TrackedRequest :=
  sr.replies.map Prod.fst ++ sr.heap.flatMap Stream.rights ++ sr.reconnecting.requests.flatMap untraced ++
    sr.configRequestsChannel ++ sr.submitting.toList

/-- Nobody who still has a stream finds a registration in its map after it was copied. -/
def Abandoned (sr : ShardRouter) (s : StreamRef) : Prop :=
  ∀ σ, sr.heap[s]? = some σ → σ.renewed = true → σ.requestsByTraceID = []

/-- **The condition**: whoever looks into a map does not find a registration that was copied, and a traced request that
is taken out of the channel on an error is still registered. -/
def Sole (sr : ShardRouter) : Thread → Prop
  | .sendRequests s (.handle tr) => tr.trace ≠ none → Abandoned sr s
  | .readResponses s .receive => Abandoned sr s
  | .sendResponseToAllClientsOnError s _ (.unregister tr) _ =>
      tr.trace ≠ none → Abandoned sr s ∧ ∀ σ, sr.heap[s]? = some σ → tr ∈ σ.requestsByTraceID
  | .sendResponseToAllClientsOnError s _ .detach _ => Abandoned sr s
  | _ => True

/-- Whether `Forward` was called with a request. -/
def isTaken (x : TrackedRequest) (sr : ShardRouter) : Nat := if x ∈ sr.taken then 1 else 0

/-- **An action gives nobody a right that somebody has already.** -/
def Conserves (sr : ShardRouter) (t : Thread) (sr' : ShardRouter) (ts : List Thread) : Prop :=
  ∀ x, sr'.rights.count x + (ts.map fun u => u.rights.count x).sum + isTaken x sr ≤
    sr.rights.count x + t.rights.count x + isTaken x sr'

theorem rights_setStream (hσ : sr.heap[s]? = some σ) (x : TrackedRequest) :
    (sr.setStream s σ').rights.count x + σ.rights.count x = sr.rights.count x + σ'.rights.count x := by
  have hset := count_flatMap_set (f := Stream.rights) (b := σ') hσ x
  simp only [ShardRouter.rights, setStream, count_append]
  omega

theorem rights_reply {resp} (x : TrackedRequest) :
    (sr.reply tr resp).rights.count x = sr.rights.count x + [tr].count x := by
  simp only [ShardRouter.rights, reply, map_append, map_cons, map_nil, count_append]
  omega

theorem rights_notifyReconnect (hσ : sr.heap[s]? = some σ) (x : TrackedRequest) :
    (sr.notifyReconnect s σ).rights.count x = sr.rights.count x := by
  unfold notifyReconnect
  split
  · rfl
  · have hset := @rights_setStream _ _ { σ with notifiedReconnect := true } _ hσ x
    change (sr.setStream s { σ with notifiedReconnect := true }).rights.count x = _
    change _ + σ.rights.count x = _ + σ.rights.count x at hset
    omega

theorem Stream.count_delete (hfound : σ.registered trace = some tr) (x : TrackedRequest) :
    (σ.delete trace).requestsByTraceID.count x + [tr].count x ≤ σ.requestsByTraceID.count x := by
  obtain ⟨hmem, htrace⟩ := mem_of_registered hfound
  have hsub : (σ.delete trace).requestsByTraceID.count x ≤ σ.requestsByTraceID.count x := filter_sublist.count_le x
  by_cases hx : x = tr
  · subst hx
    have hgone : (σ.delete trace).requestsByTraceID.count x = 0 := by
      rw [count_eq_zero]
      simp [Stream.delete, htrace]
    have hpos : 0 < σ.requestsByTraceID.count x := count_pos_iff.mpr hmem
    simp only [hgone, count_singleton_self]
    omega
  · rw [count_singleton, if_neg (by simpa using Ne.symm hx)]
    omega

theorem Conserves.setStream (hσ : sr.heap[s]? = some σ)
    (h : ∀ x, σ'.rights.count x + (ts.map fun u => u.rights.count x).sum ≤ σ.rights.count x + t.rights.count x) :
    Conserves sr t (sr.setStream s σ') ts := by
  intro x
  have hset := @rights_setStream _ _ σ' _ hσ x
  have hx := h x
  have htaken : isTaken x (sr.setStream s σ') = isTaken x sr := rfl
  omega

theorem Conserves.reply {resp} (h : ∀ x, [tr].count x + (ts.map fun u => u.rights.count x).sum ≤ t.rights.count x) :
    Conserves sr t (sr.reply tr resp) ts := by
  intro x
  have hreply := @rights_reply sr tr resp x
  have hx := h x
  have htaken : isTaken x (sr.reply tr resp) = isTaken x sr := rfl
  omega

theorem Conserves.same (hrights : ∀ x, sr'.rights.count x = sr.rights.count x) (htaken : sr'.taken = sr.taken)
    (h : ∀ x, (ts.map fun u => u.rights.count x).sum ≤ t.rights.count x) : Conserves sr t sr' ts := by
  intro x
  have hx := h x
  have hr := hrights x
  have ht : isTaken x sr' = isTaken x sr := by rw [isTaken, isTaken, htaken]
  omega

/-- An action of the reconnection routine: it moves rights between the streams and its own channel. -/
theorem Conserves.reconnect {heap streams reconnectRequests reconnecting}
    (h : ∀ x, (heap.flatMap Stream.rights).count x + (reconnecting.requests.flatMap untraced).count x ≤
      (sr.heap.flatMap Stream.rights).count x + (sr.reconnecting.requests.flatMap untraced).count x)
    (hts : ∀ x, (ts.map fun u => u.rights.count x).sum = 0) :
    Conserves sr t { sr with heap, streams, reconnectRequests, reconnecting } ts := by
  intro x
  have hx := h x
  have hzero := hts x
  simp only [ShardRouter.rights, isTaken, count_append]
  omega

theorem Stream.rights_of_live (h : σ.renewed = false) :
    σ.rights = σ.requestsChannel.flatMap untraced ++ σ.requestsByTraceID := by
  rw [Stream.rights, h]
  rfl

theorem Stream.rights_of_renewed (h : σ.renewed = true) : σ.rights = σ.requestsChannel.flatMap untraced := by
  rw [Stream.rights, h, if_pos rfl, append_nil]

theorem Stream.rights_delete (hrenewed : σ.renewed = true → σ.requestsByTraceID = [])
    (hfound : σ.registered trace = some tr) (x : TrackedRequest) :
    (σ.delete trace).rights.count x + [tr].count x ≤ σ.rights.count x := by
  have hlive : σ.renewed = false := by
    cases hr : σ.renewed with
    | false => rfl
    | true =>
      have hmem := (mem_of_registered hfound).1
      rw [hrenewed hr] at hmem
      exact absurd hmem not_mem_nil
  have hcount := count_delete hfound x
  have hchan : (σ.delete trace).requestsChannel = σ.requestsChannel := rfl
  rw [rights_of_live hlive, @Stream.rights_of_live (σ.delete trace) hlive, hchan, count_append, count_append]
  omega

/-- A registration is taken out of the map of a stream, and the right to answer goes to the thread. -/
theorem Conserves.unregister (hσ : sr.heap[s]? = some σ) (hrenewed : σ.renewed = true → σ.requestsByTraceID = [])
    (hfound : σ.registered trace = some tr) (hts : ∀ x, (ts.map fun u => u.rights.count x).sum = [tr].count x) :
    Conserves sr t (sr.setStream s (σ.delete trace)) ts := by
  refine .setStream hσ fun x => ?_
  have hdelete := rights_delete hrenewed hfound x
  rw [hts x]
  omega

theorem Stream.rights_take {rest} (hchan : σ.requestsChannel = tr :: rest) (x : TrackedRequest) :
    (Stream.rights { σ with requestsChannel := rest }).count x + (untraced tr).count x = σ.rights.count x := by
  simp only [Stream.rights, hchan, flatMap_cons, count_append]
  omega

theorem Act.conserves_forward {pc} (hact : Act v sr (.forward tr pc) sr' ts) :
    Conserves sr (.forward tr pc) sr' ts := by
  cases hact with
  | forwardNotify hσ =>
    exact .same (rights_notifyReconnect hσ) taken_notifyReconnect (by simp)
  | forwardReject => exact .reply (by simp)
  | forwardUntraced htrace => exact .same (fun _ => rfl) rfl (by simp [untraced, htrace])
  | @forwardRegister tr _ σ hσ htrace =>
    refine .setStream hσ fun x => ?_
    have hsub : (σ.requestsByTraceID.filter (·.trace ≠ tr.trace)).count x ≤ σ.requestsByTraceID.count x :=
      filter_sublist.count_le x
    have hthread : (untraced tr).count x = 0 := by simp [untraced, htrace]
    have hchan : (σ.registerReply tr).requestsChannel = σ.requestsChannel := rfl
    have hmap : (σ.registerReply tr).requestsByTraceID = tr :: σ.requestsByTraceID.filter (·.trace ≠ tr.trace) := rfl
    simp only [Thread.rights, map_cons, map_nil, sum_cons, sum_nil, hthread]
    cases hrenewed : σ.renewed with
    | true =>
      rw [rights_of_renewed hrenewed, @Stream.rights_of_renewed (σ.registerReply tr) hrenewed, hchan]
      omega
    | false =>
      rw [rights_of_live hrenewed, @Stream.rights_of_live (σ.registerReply tr) hrenewed, hchan, hmap,
        count_append, count_append, count_cons, count_cons]
      omega
  | forwardEnqueue hσ =>
    refine .setStream hσ fun x => ?_
    simp only [Stream.rights, Thread.rights, flatMap_append, flatMap_singleton, count_append, map_nil, sum_nil]
    omega
  | _ => exact .same (fun _ => rfl) rfl (by simp)

/-- A request is taken out of the channel of a stream. -/
theorem Conserves.take (hσ : sr.heap[s]? = some σ) {rest} (hchan : σ.requestsChannel = tr :: rest)
    (hts : ∀ x, (ts.map fun u => u.rights.count x).sum = (untraced tr).count x) :
    Conserves sr t (sr.setStream s { σ with requestsChannel := rest }) ts := by
  refine .setStream hσ fun x => ?_
  have htake := rights_take hchan x
  rw [hts x]
  omega

theorem Act.conserves_sendRequests {pc} (h : Known sr) (ht : (Thread.sendRequests s pc).Known sr)
    (hsole : Sole sr (.sendRequests s pc)) (hact : Act v sr (.sendRequests s pc) sr' ts) :
    Conserves sr (.sendRequests s pc) sr' ts := by
  cases hact with
  | sendTake hσ hchan => exact .take hσ hchan fun _ => rfl
  | sendInvalidUntraced _ htrace => exact .reply (by simp [untraced, htrace])
  | sendInvalid hσ _ htrace hfound =>
    exact .unregister hσ (hsole (by simp [htrace]) _ hσ) hfound fun _ => rfl
  | sendConfigUntraced _ htrace =>
    exact .same (fun _ => rfl) rfl (by simp [untraced, htrace])
  | sendConfig hσ _ htrace hfound =>
    obtain rfl := h.registered_eq hσ (ht _ mem_cons_self) htrace hfound
    exact .unregister hσ (hsole (by simp [htrace]) _ hσ) hfound fun _ => rfl
  | submitQueued =>
    intro x
    simp only [ShardRouter.rights, isTaken, Thread.rights, count_append, map_cons, map_nil,
      sum_cons, sum_nil, count_nil]
    omega
  | sendOk | sendFailed =>
    split
    · rename_i htrace
      exact .reply (by simp [untraced, htrace])
    · exact .same (fun _ => rfl) rfl (by simp)
  | submitRejected | sendReply => exact .reply (by simp)
  | _ => exact .same (fun _ => rfl) rfl (by simp)

theorem Act.conserves_answerAll {e pc caller} (h : Known sr)
    (ht : (Thread.sendResponseToAllClientsOnError s e pc caller).Known sr)
    (hsole : Sole sr (.sendResponseToAllClientsOnError s e pc caller))
    (hact : Act v sr (.sendResponseToAllClientsOnError s e pc caller) sr' ts) :
    Conserves sr (.sendResponseToAllClientsOnError s e pc caller) sr' ts := by
  cases hact with
  | drainTake hσ hchan => exact .take hσ hchan fun _ => rfl
  | @drainUnregister _ σ _ _ tr trace hσ htrace =>
    obtain ⟨habandoned, hmem⟩ := hsole (by simp [htrace])
    obtain ⟨tr', hfound⟩ : ∃ tr', σ.registered trace = some tr' := by
      rw [← Option.isSome_iff_exists, Stream.registered, find?_isSome]
      exact ⟨tr, hmem σ hσ, by simp [htrace]⟩
    obtain rfl := h.registered_eq hσ (ht _ mem_cons_self) htrace hfound
    exact .unregister hσ (habandoned _ hσ) hfound fun _ => rfl
  | drainUntraced htrace => exact .same (fun _ => rfl) rfl (by simp [untraced, htrace])
  | drainReply => exact .reply (by simp)
  | drainEmpty => exact .same (fun _ => rfl) rfl (by simp)
  | @detach _ σ _ _ hσ =>
    refine .setStream hσ fun x => ?_
    cases hrenewed : σ.renewed with
    | true => simp [Stream.rights, hrenewed, hsole σ hσ hrenewed]
    | false => simp [Stream.rights, hrenewed]
  | answer =>
    refine .reply fun x => ?_
    simp only [Thread.rights, map_cons, map_nil, sum_cons, sum_nil, count_append, count_cons, count_nil]
    omega
  | answered =>
    refine .same (fun _ => rfl) rfl fun x => ?_
    cases caller <;> simp [Caller.resume]

theorem Act.conserves_readConfigRequests (hact : Act v sr .readConfigRequests sr' ts) :
    Conserves sr .readConfigRequests sr' ts := by
  intro x
  cases hact with
  | configTake hidle hchan =>
    simp only [ShardRouter.rights, isTaken, Thread.rights, hidle, hchan, count_append, count_cons,
      Option.toList, map_cons, map_nil, sum_cons, sum_nil, count_nil]
    omega
  | configReply hat =>
    simp only [ShardRouter.rights, reply, isTaken, Thread.rights, hat, map_append, count_append,
      Option.toList, map_cons, map_nil, sum_cons, sum_nil, count_nil]
    omega

theorem Act.conserves_reconnectRoutine (hplaced : Placed sr) (hact : Act v sr .reconnectRoutine sr' ts) :
    Conserves sr .reconnectRoutine sr' ts := by
  cases hact with
  | initStream =>
    refine .reconnect (fun x => ?_) (by simp)
    simp [addStream, Stream.rights, Stream.new]
  | @renewClose _ _ _ σ _ hσ =>
    refine .reconnect (fun x => ?_) (by simp)
    have hset := count_flatMap_set (f := Stream.rights) (b := { σ with done := true }) hσ x
    have hsame : Stream.rights { σ with done := true } = σ.rights := rfl
    rw [hsame] at hset
    simp only [setStream, Reconnecting.requests, flatMap_nil, count_nil]
    omega
  | @renewTake _ _ _ σ _ rest _ hat hσ hchan =>
    refine .reconnect (fun x => ?_) (by simp)
    have hset := count_flatMap_set (f := Stream.rights) (b := { σ with requestsChannel := rest }) hσ x
    have htake := rights_take hchan x
    simp only [setStream, hat, Reconnecting.requests, flatMap_append, flatMap_singleton, count_append]
    omega
  | renewPut hat | renewEmpty hat =>
    exact .reconnect (fun x => by simp [hat]) (by simp)
  | @renewCopy c k s σ queue hat hσ =>
    refine .reconnect (fun x => ?_) (by simp)
    have hset := count_flatMap_set (f := Stream.rights) (b := { σ with renewed := true }) hσ x
    -- the stream in the slot was not renewed before
    have hreads := hplaced.reconnecting
    rw [hat] at hreads
    have hslots : sr.home = sr.streams := home_eq_streams (by simp [hat])
    obtain ⟨τ, hτ, -, -, hlive⟩ := hplaced.home c k s (hslots ▸ hreads.1)
    cases hσ.symm.trans hτ
    have hold : Stream.rights { σ with renewed := true } = σ.requestsChannel.flatMap untraced :=
      rights_of_renewed rfl
    have hnew : Stream.rights (.new sr.batcherEndpoint σ.connNum σ.streamNum queue σ.requestsByTraceID) =
        queue.flatMap untraced ++ σ.requestsByTraceID := rights_of_live rfl
    rw [rights_of_live hlive, hold, count_append] at hset
    simp only [addStream, setStream, flatMap_append, flatMap_singleton, hnew, hat,
      Reconnecting.requests, count_append, flatMap_nil, count_nil]
    omega
  | _ => exact .reconnect (fun x => by simp) (by simp)

/-- **Every action that meets the condition conserves the rights.** -/
theorem Act.conserves (h : Known sr) (hplaced : Placed sr) (ht : t.Known sr) (hsole : Sole sr t)
    (hact : Act v sr t sr' ts) : Conserves sr t sr' ts := by
  cases t with
  | forward => exact hact.conserves_forward
  | sendRequests => exact hact.conserves_sendRequests h ht hsole
  | sendResponseToAllClientsOnError => exact hact.conserves_answerAll h ht hsole
  | readConfigRequests => exact hact.conserves_readConfigRequests
  | reconnectRoutine => exact hact.conserves_reconnectRoutine hplaced
  | client =>
    obtain @⟨tr, hfresh, htrace⟩ := hact
    intro x
    have hrights : ({ sr with taken := tr :: sr.taken } : ShardRouter).rights = sr.rights := rfl
    rw [hrights]
    by_cases hx : x = tr
    · subst hx
      simp [isTaken, hfresh]
    · simp [isTaken, hx, Ne.symm hx]
  | readResponses =>
    cases hact with
    | readFound hσ hfound => exact .unregister hσ (hsole _ hσ) hfound fun _ => rfl
    | readReply => exact .reply (by simp)
    | _ => exact .same (fun _ => rfl) rfl (by simp)
  | cancelOnServerError =>
    cases hact with
    | cancel hσ => exact .setStream hσ (by simp [Stream.rights])
  | notifyReconnectRoutine =>
    cases hact with
    | notify hσ =>
      exact .same (rights_notifyReconnect hσ) taken_notifyReconnect (by simp)
    | notifyDone => exact .same (fun _ => rfl) rfl (by simp)
  | operator | softStop | softStopping => cases hact <;> exact .same (fun _ => rfl) rfl (by simp)

/-- **The invariant**: each request is answered, or may be answered, at most once. -/
structure Inv (p : Routing) : Prop where
  known : p.Holds Known fun sr t => t.Known sr
  placed : Placed p.shared
  once : ∀ x, p.total (fun sr => sr.rights.count x) (fun t => t.rights.count x) ≤ isTaken x p.shared

theorem Inv.step (h : Inv p) (hsole : Sole p.shared t) (hstep : ThreadPool.Step (Act v) p t p') : Inv p' where
  known := hstep.holds h.known fun hknown ht hact =>
    ⟨(hact.known hknown ht).1, (hact.known hknown ht).2, fun _ _ hu x hx => hact.taken_subset (hu x hx)⟩
  placed := by
    obtain ⟨hact⟩ := hstep
    exact hact.placed h.placed
  once x := by
    have ht : t.Known p.shared := by
      obtain ⟨-⟩ := hstep
      exact h.known.threads t (by simp)
    exact hstep.total_le (fun hact => hact.conserves h.known.shared h.placed ht hsole x) (h.once x)

theorem Thread.Starts.rights_eq (h : t.Starts) : t.rights = [] := by
  rcases h with rfl | rfl | rfl | rfl | ⟨s, rfl | rfl⟩ <;> rfl

theorem Begins.inv (h : Begins p) : Inv p where
  known := h.known
  placed := h.placed
  once x := by
    have hheap : p.shared.heap.flatMap Stream.rights = [] := by
      rw [flatMap_eq_nil_iff]
      intro σ hσ
      obtain ⟨endpoint, c, k, rfl⟩ := h.mem_heap hσ
      rfl
    have hshared : p.shared.rights = [] := by
      simp [ShardRouter.rights, hheap, h.replies, h.reconnecting, h.configRequestsChannel, h.submitting]
    have hthreads : (p.threads.map fun t => t.rights.count x).sum = 0 := by
      refine sum_eq_zero fun n hn => ?_
      obtain ⟨t, ht, rfl⟩ := mem_map.mp hn
      rw [(h.threads t ht).rights_eq, count_nil]
    rw [ThreadPool.total, hthreads, hshared]
    exact Nat.zero_le _

/-! ## A shard router with one stream -/

def oneStream : ShardRouter where
  router2batcherConnPoolSize := 1
  router2batcherStreamsPerConn := 1
  batcherEndpoint := "batcher"
  heap := [.new "batcher" 0 0 [] []]
  streams c k := if c = 0 ∧ k = 0 then some 0 else none
  reconnectRequests := []
  closeReconnect := false
  readLocks := 0
  reconnecting := .idle
  configRequestsChannel := []
  submitting := none
  taken := []
  replies := []

/-- It is ready to take requests. -/
def oneStreamReady : Routing :=
  ⟨oneStream, [.client, .operator, .readResponses 0 .receive, .sendRequests 0 .select, .reconnectRoutine,
    .readConfigRequests]⟩

theorem begins_oneStreamReady : Begins oneStreamReady where
  fresh s σ hσ := by
    match s, hσ with
    | 0, hσ => exact ⟨"batcher", 0, 0, (Option.some.inj hσ).symm, rfl⟩
  slots c k s hs := by
    simp only [oneStreamReady, oneStream] at hs ⊢
    split at hs
    · rename_i hslot
      cases hs
      exact ⟨_, rfl, hslot.1.symm, hslot.2.symm⟩
    · cases hs
  reconnecting := rfl
  configRequestsChannel := rfl
  submitting := rfl
  taken := rfl
  replies := rfl
  threads t ht := by
    simp only [oneStreamReady, mem_cons, not_mem_nil, or_false] at ht
    rcases ht with rfl | rfl | rfl | rfl | rfl | rfl <;> simp [Thread.Starts]

def tracedRequest : TrackedRequest := ⟨0, ⟨[], []⟩, [1], some [7]⟩

/-- Every request is a transaction. -/
def permissive : RulesVerifier := ⟨fun _ => .ok (), fun _ => .ok 3⟩

/-- A call of `Forward`, at one of its points, while the stream works. -/
def forwarding (tr : TrackedRequest) (pc : Forwarding) : Routing :=
  ⟨{ oneStream with taken := [tr] }, [.client, .forward tr pc, .operator, .readResponses 0 .receive,
    .sendRequests 0 .select, .reconnectRoutine, .readConfigRequests]⟩

/-- The same after the stream has failed: it is cancelled, and to be renewed. -/
def failed (tr : TrackedRequest) (pc : Forwarding) : Routing :=
  ⟨{ oneStream with
      heap := [⟨"batcher", [], [], true, false, 0, 0, true, false⟩]
      reconnectRequests := [(0, 0)]
      taken := [tr] },
    [.client, .forward tr pc, .operator, .sendRequests 0 .select, .reconnectRoutine, .readConfigRequests]⟩

section Runs

variable {C : Routing → Thread → Prop}

/-- `Forward` is called, and finds the stream not faulty. -/
theorem run_forwarding (hread : oneStream.streamOf tr = some 0) (haccept : C oneStreamReady .client)
    (hforward : ∀ pc, C (forwarding tr pc) (.forward tr pc)) :
    ThreadPool.RunWhen (Act permissive) C oneStreamReady (forwarding tr (.register 0)) := by
  have hrefl : ThreadPool.RunWhen (Act permissive) C oneStreamReady oneStreamReady := .refl
  have haccepted := hrefl.next 0 rfl haccept
    (@Act.accept _ _ tr (by simp [oneStreamReady, oneStream]) (by simp [oneStreamReady, oneStream]))
  have hfound := haccepted.next 1 rfl (hforward .read) (.forwardRead hread)
  exact hfound.next 1 rfl (hforward (.check 0)) (.forwardHealthy rfl rfl)

theorem run_failed (pc : Forwarding) (hC : ∀ p t, p.shared.reconnecting = .idle → C p t) :
    ThreadPool.RunWhen (Act permissive) C (forwarding tr pc) (failed tr pc) := by
  have hfails := ThreadPool.RunWhen.next 3 (@ThreadPool.RunWhen.refl _ _ (Act permissive) C (forwarding tr pc)) rfl
    (hC _ _ rfl) (.readFailed false)
  have hcancelled := hfails.next 3 rfl (hC _ _ rfl) (.cancel rfl)
  have hempty := hcancelled.next 3 rfl (hC _ _ rfl) (.drainEmpty rfl rfl)
  have hdetached := hempty.next 3 rfl (hC _ _ rfl) (.detach rfl)
  have hanswered := hdetached.next 3 rfl (hC _ _ rfl) .answered
  have hnotified := hanswered.next 3 rfl (hC _ _ rfl) (.notify rfl rfl fun _ => Nat.zero_lt_two)
  exact hnotified

end Runs

/-- **A request is answered twice**: the connection fails while `Forward` is between the registration and the channel.
The map is detached and the request is answered. Then it is enqueued, and `SoftStop` takes it out of the channel and
answers it again. -/
theorem answered_twice : ∃ p, Begins oneStreamReady ∧ ThreadPool.Run (Act permissive) oneStreamReady p ∧
    p.shared.replies = [(tracedRequest, ⟨some (Stream.new "batcher" 0 0 [] []).serverError, [1], none⟩),
      (tracedRequest, ⟨some "router is stopping, cannot process request", [1], none⟩)] := by
  have hchecked : ThreadPool.Run (Act permissive) oneStreamReady (forwarding tracedRequest (.register 0)) :=
    run_forwarding rfl trivial fun _ => trivial
  have hregistered := hchecked.next 1 rfl (.forwardRegister rfl (by decide))
  have hfailed := hregistered.next 3 rfl (.readFailed false)
  have hcancelled := hfailed.next 3 rfl (.cancel rfl)
  have hempty := hcancelled.next 3 rfl (.drainEmpty rfl rfl)
  have hdetached := hempty.next 3 rfl (.detach rfl)
  have hanswered := hdetached.next 3 rfl (@Act.answer _ _ _ _ _ _ [] [])
  have henqueued := hanswered.next 1 rfl (.forwardEnqueue rfl (by decide))
  have hstopping := henqueued.next 1 rfl (.softStop "router is stopping, cannot process request")
  have hlocked := hstopping.next 2 rfl .softStopLock
  have hvisited := hlocked.next 2 rfl .softStopNext
  have htaken := hvisited.next 2 rfl (.drainTake rfl rfl)
  have hunregistered := htaken.next 2 rfl (.drainUnregister rfl rfl)
  have hdrained := hunregistered.next 2 rfl .drainReply
  exact ⟨_, begins_oneStreamReady, hdrained, rfl⟩

/-! ## One reply -/

/-- **A request is answered at most once**, in every run in which nobody finds a registration that was copied, and in
which a traced request that is taken out of the channel on an error is still registered. -/
theorem answered_at_most_once (hbegins : Begins p₀)
    (hrun : ThreadPool.RunWhen (Act v) (fun p t => Sole p.shared t) p₀ p) (x : TrackedRequest) :
    (p.shared.replies.map Prod.fst).count x ≤ 1 := by
  have hinv : Inv p := hrun.invariant Inv.step hbegins.inv
  have honce := hinv.once x
  have htaken : isTaken x p.shared ≤ 1 := by
    unfold isTaken
    split <;> decide
  simp only [ThreadPool.total, ShardRouter.rights, count_append] at honce
  omega

theorem abandoned_of_live (hσ : sr.heap[s]? = some σ) (hlive : σ.renewed = false) : Abandoned sr s := by
  intro τ hτ hrenewed
  cases hσ.symm.trans hτ
  rw [hlive] at hrenewed
  cases hrenewed

/-- A request that is sent and answered by the batcher. -/
theorem answered_once : ∃ p, Begins oneStreamReady ∧
    ThreadPool.RunWhen (Act permissive) (fun p t => Sole p.shared t) oneStreamReady p ∧
    p.shared.replies = [(tracedRequest, ⟨none, [], some ⟨"", [1], [7]⟩⟩)] ∧
    (p.shared.replies.map Prod.fst).count tracedRequest ≤ 1 := by
  have hchecked := @run_forwarding tracedRequest (fun p t => Sole p.shared t) rfl trivial fun _ => trivial
  have hregistered := hchecked.next 1 rfl trivial (.forwardRegister rfl (by decide))
  have henqueued := hregistered.next 1 rfl trivial (.forwardEnqueue rfl (by decide))
  have htaken := henqueued.next 3 rfl trivial (.sendTake rfl rfl)
  have hsent := htaken.next 3 rfl (fun _ => abandoned_of_live rfl rfl) (.sendOk rfl (by decide))
  have hfound := hsent.next 2 rfl (abandoned_of_live rfl rfl) (@Act.readFound _ _ _ _ _ ⟨"", [1], [7]⟩ rfl rfl)
  have hreplied := hfound.next 2 rfl trivial .readReply
  exact ⟨_, begins_oneStreamReady, hreplied, rfl, answered_at_most_once begins_oneStreamReady hreplied tracedRequest⟩

end Arma.Router
