import Arma.Router.ShardRouter

/-!
# What holds in every run of the shard router

* `Placed`: every slot has the stream it is for. A stream that has left its slot is cancelled, and one whose map was
  copied has left it. The stream that the reconnection routine is about to install counts as installed
  (`ShardRouter.home`).

`Act.known` and `Act.placed` say that every action keeps them.
-/

namespace Arma.Router

open Arma.Lib List ShardRouter

variable {v : RulesVerifier} {sr sr' : ShardRouter} {t : Thread} {ts : List Thread} {σ σ' : Stream} {s : StreamRef}
  {tr tr' : TrackedRequest} {trace : Bytes} {p : Routing}

/-! ## The requests that are known -/

@[simp] def Thread.requests : Thread → List TrackedRequest
  | .forward tr _ => [tr]
  | .sendRequests _ (.handle tr) => [tr]
  | .sendRequests _ (.found tr _) => [tr]
  | .sendRequests _ (.submit tr) => [tr]
  | .readResponses _ (.found tr _) => [tr]
  | .sendResponseToAllClientsOnError _ _ (.unregister tr) _ => [tr]
  | .sendResponseToAllClientsOnError _ _ (.drained tr) _ => [tr]
  | .sendResponseToAllClientsOnError _ _ (.pending requests) _ => requests
  | _ => []

def Stream.requests (σ : Stream) : List TrackedRequest := σ.requestsChannel ++ σ.requestsByTraceID

/-- The requests in a new channel. -/
@[simp] def Reconnecting.requests : Reconnecting → List TrackedRequest
  | .move _ _ _ queue => queue
  | .put _ _ _ queue tr => queue ++ [tr]
  | .copy _ _ _ queue => queue
  | _ => []

/-- **Every request is one that `Forward` was called with**, and no two of them have one trace. -/
structure Known (sr : ShardRouter) : Prop where
  unique : ∀ tr ∈ sr.taken, ∀ tr' ∈ sr.taken, tr.trace ≠ none → tr.trace = tr'.trace → tr = tr'
  heap : ∀ σ ∈ sr.heap, ∀ tr ∈ σ.requests, tr ∈ sr.taken
  reconnecting : ∀ tr ∈ sr.reconnecting.requests, tr ∈ sr.taken

@[simp] def Thread.Known (sr : ShardRouter) (t : Thread) : Prop := ∀ tr ∈ t.requests, tr ∈ sr.taken

namespace Stream

theorem mem_of_registered (h : σ.registered trace = some tr) : tr ∈ σ.requestsByTraceID ∧ tr.trace = some trace :=
  ⟨mem_of_find?_eq_some h, by simpa using find?_some h⟩

theorem delete_requests_subset : (σ.delete trace).requests ⊆ σ.requests := by
  intro x hx
  rcases mem_append.mp hx with hchan | hmap
  · exact mem_append_left _ hchan
  · exact mem_append_right _ (mem_of_mem_filter hmap)

theorem registerReply_requests_subset : (σ.registerReply tr).requests ⊆ tr :: σ.requests := by
  intro x hx
  rcases mem_append.mp hx with hchan | hmap
  · exact mem_cons_of_mem _ (mem_append_left _ hchan)
  · rcases mem_cons.mp hmap with rfl | hold
    · exact mem_cons_self
    · exact mem_cons_of_mem _ (mem_append_right _ (mem_of_mem_filter hold))

end Stream

theorem Known.setStream (h : Known sr) (hσ' : ∀ x ∈ σ'.requests, x ∈ sr.taken) : Known (sr.setStream s σ') where
  unique := h.unique
  heap τ hτ := by
    rcases mem_or_eq_of_mem_set hτ with hold | rfl
    · exact h.heap τ hold
    · exact hσ'
  reconnecting := h.reconnecting

theorem Known.setStream_subset (h : Known sr) (hσ : sr.heap[s]? = some σ) (hsub : σ'.requests ⊆ σ.requests) :
    Known (sr.setStream s σ') :=
  h.setStream fun x hx => h.heap σ (mem_of_getElem? hσ) x (hsub hx)

theorem Known.notifyReconnect (h : Known sr) (hσ : sr.heap[s]? = some σ) : Known (sr.notifyReconnect s σ) := by
  unfold ShardRouter.notifyReconnect
  split
  · exact h
  · have h' : Known (sr.setStream s { σ with notifiedReconnect := true }) := h.setStream_subset hσ fun _ hx => hx
    exact ⟨h'.unique, h'.heap, h'.reconnecting⟩

theorem Act.taken_subset (hact : Act v sr t sr' ts) : sr.taken ⊆ sr'.taken := by
  cases hact with
  | accept => exact subset_cons_self _ _
  | forwardNotify | notify =>
    rw [taken_notifyReconnect]
    exact List.Subset.refl _
  | sendOk | sendFailed => split <;> exact List.Subset.refl _
  | _ => exact List.Subset.refl _

/-- **Every action keeps the requests known.** -/
theorem Act.known (h : Known sr) (ht : t.Known sr) (hact : Act v sr t sr' ts) : Known sr' ∧ ∀ u ∈ ts, u.Known sr' := by
  have hreply : ∀ tr resp, Known (sr.reply tr resp) := fun _ _ => ⟨h.unique, h.heap, h.reconnecting⟩
  have hchan : ∀ {s σ tr rest}, sr.heap[s]? = some σ → σ.requestsChannel = tr :: rest →
      tr ∈ sr.taken ∧ Known (sr.setStream s { σ with requestsChannel := rest }) := by
    intro s σ tr rest hσ hchan
    refine ⟨h.heap σ (mem_of_getElem? hσ) tr (mem_append_left _ (hchan ▸ mem_cons_self)),
      h.setStream_subset hσ fun x hx => ?_⟩
    rcases mem_append.mp hx with hrest | hmap
    · exact mem_append_left _ (hchan ▸ mem_cons_of_mem _ hrest)
    · exact mem_append_right _ hmap
  have hmap : ∀ {s : StreamRef} {σ : Stream}, sr.heap[s]? = some σ → ∀ tr ∈ σ.requestsByTraceID, tr ∈ sr.taken :=
    fun hσ tr hmem => h.heap _ (mem_of_getElem? hσ) tr (mem_append_right _ hmem)
  cases hact with
  | @accept _ _ htrace =>
    refine ⟨⟨?_, fun σ hσ x hx => mem_cons_of_mem _ (h.heap σ hσ x hx),
      fun x hx => mem_cons_of_mem _ (h.reconnecting x hx)⟩, by simp⟩
    intro x hx y hy hnone heq
    rcases mem_cons.mp hx with rfl | hx'
    · rcases mem_cons.mp hy with rfl | hy'
      · rfl
      · exact absurd heq.symm (htrace y hy' hnone)
    · rcases mem_cons.mp hy with rfl | hy'
      · exact absurd heq (htrace x hx' (heq ▸ hnone))
      · exact h.unique x hx' y hy' hnone heq
  | forwardNotify hσ =>
    exact ⟨h.notifyReconnect hσ, by simpa using ht⟩
  | notify hσ => exact ⟨h.notifyReconnect hσ, by simp⟩
  | forwardRegister hσ =>
    refine ⟨h.setStream fun x hx => ?_, by simpa using ht⟩
    rcases mem_cons.mp (Stream.registerReply_requests_subset hx) with rfl | hold
    · exact ht x mem_cons_self
    · exact h.heap _ (mem_of_getElem? hσ) x hold
  | @forwardEnqueue tr _ σ hσ =>
    refine ⟨h.setStream fun x hx => ?_, by simp⟩
    have hx' : x ∈ σ.requests ∨ x = tr := by
      simp only [Stream.requests, mem_append, mem_singleton] at hx ⊢
      tauto
    rcases hx' with hold | rfl
    · exact h.heap _ (mem_of_getElem? hσ) x hold
    · exact ht x mem_cons_self
  | sendTake hσ hchan' | drainTake hσ hchan' =>
    exact ⟨(hchan hσ hchan').2, by simpa using (hchan hσ hchan').1⟩
  | sendInvalid hσ _ _ hfound | readFound hσ hfound =>
    refine ⟨h.setStream_subset hσ Stream.delete_requests_subset, ?_⟩
    simpa using hmap hσ _ (Stream.mem_of_registered hfound).1
  | sendConfig hσ | drainUnregister hσ =>
    refine ⟨h.setStream_subset hσ Stream.delete_requests_subset, ?_⟩
    simpa using ht
  | sendOk | sendFailed =>
    split
    · exact ⟨hreply _ _, by simp⟩
    · exact ⟨h, by simp⟩
  | cancel hσ => exact ⟨h.setStream_subset hσ fun _ hx => hx, by simp⟩
  | detach hσ =>
    refine ⟨h.setStream_subset hσ fun x hx => ?_, by simpa using hmap hσ⟩
    exact mem_append_left _ (by simpa [Stream.requests] using hx)
  | answer =>
    refine ⟨hreply _ _, ?_⟩
    simp only [Thread.Known, Thread.requests, mem_append, mem_cons, not_mem_nil, or_false, forall_eq] at ht ⊢
    exact fun x hx => ht x (hx.imp_right .inr)
  | @answered _ _ caller =>
    refine ⟨h, ?_⟩
    cases caller <;> simp [Caller.resume]
  | configReply => exact ⟨⟨h.unique, h.heap, h.reconnecting⟩, by simp⟩
  | initStream =>
    refine ⟨⟨h.unique, fun σ hσ => ?_, nofun⟩, by simp⟩
    rcases mem_append.mp hσ with hold | hnew
    · exact h.heap σ hold
    · obtain rfl := mem_singleton.mp hnew
      exact nofun
  | @renewClose _ _ _ σ _ hσ =>
    have h' := @Known.setStream_subset _ _ { σ with done := true } _ h hσ fun _ hx => hx
    exact ⟨⟨h'.unique, h'.heap, nofun⟩, by simp⟩
  | renewTake hat hσ hchan' =>
    obtain ⟨htr, h'⟩ := hchan hσ hchan'
    refine ⟨⟨h'.unique, h'.heap, fun x hx => ?_⟩, by simp⟩
    rcases mem_append.mp hx with hqueue | hnew
    · exact h.reconnecting x (by rw [hat]; exact hqueue)
    · exact mem_singleton.mp hnew ▸ htr
  | renewPut hat | renewEmpty hat =>
    exact ⟨⟨h.unique, h.heap, fun x hx => h.reconnecting x (by rw [hat]; exact hx)⟩, by simp⟩
  | @renewCopy _ _ _ σ _ hat hσ =>
    have h' := @Known.setStream_subset _ _ { σ with renewed := true } _ h hσ fun _ hx => hx
    refine ⟨⟨h.unique, fun τ hτ => ?_, nofun⟩, by simp⟩
    rcases mem_append.mp hτ with hold | hnew
    · exact h'.heap τ hold
    · obtain rfl := mem_singleton.mp hnew
      intro x hx
      rcases mem_append.mp hx with hqueue | hcopied
      · exact h.reconnecting x (by rw [hat]; exact hqueue)
      · exact hmap hσ x hcopied
  | reconnectStop | reconnectTake | reconnectRead | reconnectFailed | reconnectHealthy | reconnectInstall =>
    exact ⟨⟨h.unique, h.heap, nofun⟩, by simp⟩
  | forwardReject | sendInvalidUntraced | submitRejected | sendReply | readReply | drainReply =>
    exact ⟨hreply _ _, by simp⟩
  | _ => exact ⟨⟨h.unique, h.heap, h.reconnecting⟩, by simp_all⟩

/-- A registration whose trace is that of a known request is that of the request. -/
theorem Known.registered_eq (h : Known sr) (hσ : sr.heap[s]? = some σ) (htr : tr ∈ sr.taken)
    (htrace : tr.trace = some trace) (hfound : σ.registered trace = some tr') : tr' = tr := by
  obtain ⟨hmem, htrace'⟩ := Stream.mem_of_registered hfound
  have htr' := h.heap σ (mem_of_getElem? hσ) tr' (mem_append_right _ hmem)
  exact h.unique tr' htr' tr htr (by simp [htrace']) (htrace'.trans htrace.symm)

/-! ## The slots -/

/-- The stream of a slot, also when it is about to be installed. -/
def ShardRouter.home (sr : ShardRouter) : Nat → Nat → Option StreamRef :=
  match sr.reconnecting with
  | .install c k s => sr.setSlot c k s
  | _ => sr.streams

/-- What the reconnection routine has read from the slot is still there, and it renews a stream that is cancelled. -/
def Reconnecting.Reads (sr : ShardRouter) : Reconnecting → Prop
  | .current c k s => sr.streams c k = s
  | .move c k s _ => sr.streams c k = some s ∧ ∃ σ, sr.heap[s]? = some σ ∧ σ.cancelled = true
  | .put c k s _ _ => sr.streams c k = some s ∧ ∃ σ, sr.heap[s]? = some σ ∧ σ.cancelled = true
  | .copy c k s _ => sr.streams c k = some s ∧ ∃ σ, sr.heap[s]? = some σ ∧ σ.cancelled = true
  | _ => True

/-- **Every slot has its stream**, and whoever has another one finds it cancelled. -/
structure Placed (sr : ShardRouter) : Prop where
  slots : ∀ c k s, sr.streams c k = some s → ∃ σ, sr.heap[s]? = some σ ∧ σ.connNum = c ∧ σ.streamNum = k
  home : ∀ c k s, sr.home c k = some s → ∃ σ, sr.heap[s]? = some σ ∧ σ.connNum = c ∧ σ.streamNum = k ∧ σ.renewed = false
  cancelled : ∀ s σ, sr.heap[s]? = some σ → σ.cancelled = true ∨ sr.home σ.connNum σ.streamNum = some s
  reconnecting : sr.reconnecting.Reads sr

/-- The streams stay on the heap, and stay for the slots they are for. -/
def Stays (heap heap' : List Stream) : Prop :=
  ∀ (s : StreamRef) (σ : Stream), heap[s]? = some σ →
    ∃ σ', heap'[s]? = some σ' ∧ σ'.connNum = σ.connNum ∧ σ'.streamNum = σ.streamNum

theorem Stays.refl {heap} : Stays heap heap := fun _ σ hσ => ⟨σ, hσ, rfl, rfl⟩

theorem Stays.set {heap} (hσ : heap[s]? = some σ) (hc : σ'.connNum = σ.connNum)
    (hk : σ'.streamNum = σ.streamNum) : Stays heap (heap.set s σ') := by
  intro r τ hτ
  by_cases hrs : r = s
  · subst hrs
    cases hσ.symm.trans hτ
    exact ⟨σ', getElem?_set_of_some hσ, hc, hk⟩
  · exact ⟨τ, (getElem?_set_ne (Ne.symm hrs)).trans hτ, rfl, rfl⟩

theorem Stays.concat {heap heap'} (h : Stays heap heap') : Stays heap (heap' ++ [σ]) := by
  intro r τ hτ
  obtain ⟨τ', hτ', hplace⟩ := h r τ hτ
  exact ⟨τ', getElem?_concat_eq_some.mpr (.inl hτ'), hplace⟩

/-- A stream changes, and keeps its place. -/
structure Stream.Keeps (σ σ' : Stream) : Prop where
  connNum : σ'.connNum = σ.connNum
  streamNum : σ'.streamNum = σ.streamNum
  renewed : σ'.renewed = σ.renewed
  cancelled : σ.cancelled = true → σ'.cancelled = true

theorem Placed.setStream (h : Placed sr) (hσ : sr.heap[s]? = some σ) (hkeeps : σ.Keeps σ') :
    Placed (sr.setStream s σ') := by
  have hlt : s < sr.heap.length := lt_of_getElem? hσ
  have hself : (sr.setStream s σ').heap[s]? = some σ' := getElem?_set_self hlt
  have hne : ∀ {r : StreamRef}, r ≠ s → (sr.setStream s σ').heap[r]? = sr.heap[r]? := fun hrs =>
    getElem?_set_ne (Ne.symm hrs)
  have hreads : ∀ {r : StreamRef}, (∃ τ : Stream, sr.heap[r]? = some τ ∧ τ.cancelled = true) →
      ∃ τ : Stream, (sr.setStream s σ').heap[r]? = some τ ∧ τ.cancelled = true := by
    rintro r ⟨τ, hτ, hcancelled⟩
    by_cases hrs : r = s
    · subst hrs
      cases hσ.symm.trans hτ
      exact ⟨σ', hself, hkeeps.cancelled hcancelled⟩
    · exact ⟨τ, (hne hrs).trans hτ, hcancelled⟩
  refine ⟨fun c k r hr => ?_, fun c k r hr => ?_, fun r τ hτ => ?_, ?_⟩
  · obtain ⟨τ, hτ, hc, hk⟩ := h.slots c k r hr
    obtain ⟨τ', hτ', hc', hk'⟩ := Stays.set hσ hkeeps.connNum hkeeps.streamNum r τ hτ
    exact ⟨τ', hτ', hc'.trans hc, hk'.trans hk⟩
  · obtain ⟨τ, hτ, hc, hk, hrenewed⟩ := h.home c k r hr
    by_cases hrs : r = s
    · subst hrs
      cases hσ.symm.trans hτ
      exact ⟨σ', hself, hkeeps.connNum.trans hc, hkeeps.streamNum.trans hk, hkeeps.renewed.trans hrenewed⟩
    · exact ⟨τ, (hne hrs).trans hτ, hc, hk, hrenewed⟩
  · by_cases hrs : r = s
    · subst hrs
      cases hself.symm.trans hτ
      rw [hkeeps.connNum, hkeeps.streamNum]
      exact (h.cancelled r σ hσ).imp_left hkeeps.cancelled
    · exact h.cancelled r τ ((hne hrs).symm.trans hτ)
  · have hold := h.reconnecting
    change sr.reconnecting.Reads (sr.setStream s σ')
    cases hat : sr.reconnecting with
    | current => rw [hat] at hold; exact hold
    | move | put | copy => rw [hat] at hold; exact ⟨hold.1, hreads hold.2⟩
    | _ => trivial

theorem Placed.notifyReconnect (h : Placed sr) (hσ : sr.heap[s]? = some σ) : Placed (sr.notifyReconnect s σ) := by
  unfold ShardRouter.notifyReconnect
  split
  · exact h
  · have h' : Placed (sr.setStream s { σ with notifiedReconnect := true }) := h.setStream hσ ⟨rfl, rfl, rfl, id⟩
    exact ⟨h'.slots, h'.home, h'.cancelled, h'.reconnecting⟩

theorem Placed.setReconnecting (h : Placed sr) {reconnectRequests reconnecting}
    (hhome : ({ sr with reconnectRequests, reconnecting } : ShardRouter).home = sr.home)
    (hreads : reconnecting.Reads { sr with reconnectRequests, reconnecting }) :
    Placed { sr with reconnectRequests, reconnecting } := by
  refine ⟨h.slots, fun c k s hs => ?_, fun s σ hσ => ?_, hreads⟩
  · rw [hhome] at hs
    exact h.home c k s hs
  · rw [hhome]
    exact h.cancelled s σ hσ

theorem home_eq_streams (hat : ∀ c k s, sr.reconnecting ≠ .install c k s) : sr.home = sr.streams := by
  unfold home
  split
  · rename_i c k s hinstall
    exact absurd hinstall (hat c k s)
  · rfl

/-- A new stream takes a slot whose stream, if it has one, is cancelled. The others stay as they are. -/
theorem Placed.takeSlot (h : Placed sr) {c k n} (hslots : sr.home = sr.streams)
    (hfree : ∀ s, sr.streams c k = some s → ∃ τ, sr.heap[s]? = some τ ∧ τ.cancelled = true)
    (hnew : sr'.heap[n]? = some σ ∧ σ.connNum = c ∧ σ.streamNum = k ∧ σ.renewed = false)
    (hold : ∀ s τ', sr'.heap[s]? = some τ' → s = n ∨ ∃ τ, sr.heap[s]? = some τ ∧ τ'.connNum = τ.connNum ∧
      τ'.streamNum = τ.streamNum ∧ τ'.cancelled = τ.cancelled) (hstays : Stays sr.heap sr'.heap)
    (hothers : ∀ s τ, sr.heap[s]? = some τ → sr.streams c k ≠ some s → sr'.heap[s]? = some τ)
    (hstreams : ∀ c' k' s, sr'.streams c' k' = some s → sr.streams c' k' = some s ∨ c' = c ∧ k' = k ∧ s = n)
    (hhome : sr'.home = sr.setSlot c k n) (hreads : sr'.reconnecting.Reads sr') : Placed sr' := by
  refine ⟨fun c' k' s hs => ?_, fun c' k' s hs => ?_, fun s τ' hτ' => ?_, hreads⟩
  · rcases hstreams c' k' s hs with hold | ⟨rfl, rfl, rfl⟩
    · obtain ⟨τ, hτ, hc, hk⟩ := h.slots c' k' s hold
      obtain ⟨τ', hτ', hc', hk'⟩ := hstays s τ hτ
      exact ⟨τ', hτ', hc'.trans hc, hk'.trans hk⟩
    · exact ⟨σ, hnew.1, hnew.2.1, hnew.2.2.1⟩
  · rw [hhome, setSlot] at hs
    split at hs
    · rename_i hslot
      cases hs
      rw [hslot.1, hslot.2]
      exact ⟨σ, hnew⟩
    · rename_i hslot
      obtain ⟨τ, hτ, hc, hk, hrenewed⟩ := h.home c' k' s (hslots ▸ hs)
      refine ⟨τ, hothers s τ hτ fun hother => hslot ?_, hc, hk, hrenewed⟩
      obtain ⟨τ₂, hτ₂, hc₂, hk₂, -⟩ := h.home c k s (hslots ▸ hother)
      cases hτ.symm.trans hτ₂
      exact ⟨hc.symm.trans hc₂, hk.symm.trans hk₂⟩
  · rw [hhome, setSlot]
    rcases hold s τ' hτ' with rfl | ⟨τ, hτ, hc, hk, hcancelled⟩
    · cases hnew.1.symm.trans hτ'
      exact .inr (if_pos ⟨hnew.2.1, hnew.2.2.1⟩)
    · rw [hc, hk, hcancelled]
      rcases h.cancelled s τ hτ with hdone | hplace
      · exact .inl hdone
      · rw [hslots] at hplace
        split
        · rename_i hslot
          rw [hslot.1, hslot.2] at hplace
          obtain ⟨τ₂, hτ₂, hdone⟩ := hfree s hplace
          cases hτ.symm.trans hτ₂
          exact .inl hdone
        · exact .inr hplace

/-- **Every action keeps the streams in their places.** -/
theorem Act.placed (h : Placed sr) (hact : Act v sr t sr' ts) : Placed sr' := by
  cases hact with
  | forwardNotify hσ | notify hσ => exact h.notifyReconnect hσ
  | forwardRegister hσ | forwardEnqueue hσ | sendTake hσ | sendInvalid hσ
  | sendConfig hσ | readFound hσ | drainTake hσ | drainUnregister hσ
  | detach hσ => exact h.setStream hσ ⟨rfl, rfl, rfl, id⟩
  | cancel hσ => exact h.setStream hσ ⟨rfl, rfl, rfl, fun _ => rfl⟩
  | sendOk | sendFailed =>
    split
    · exact ⟨h.slots, h.home, h.cancelled, h.reconnecting⟩
    · exact h
  | reconnectStop hat =>
    refine h.setReconnecting ?_ trivial
    rcases hat with hat | ⟨c, k, hat⟩ <;> simp only [home, hat]
  | reconnectTake hat => exact h.setReconnecting (by simp only [home, hat]) trivial
  | reconnectRead hat => exact h.setReconnecting (by simp only [home, hat]) rfl
  | reconnectFailed hat | reconnectHealthy hat =>
    exact h.setReconnecting (by simp only [home, hat]) trivial
  | @initStream c k hat =>
    have hreads := h.reconnecting
    rw [hat] at hreads
    refine h.takeSlot (home_eq_streams (by simp [hat])) (fun s hs => ?_)
      ⟨getElem?_concat_length, rfl, rfl, rfl⟩ (fun s τ' hτ' => ?_) Stays.refl.concat (fun s τ hτ _ => ?_)
      (fun c' k' s hs => ?_) rfl trivial
    · cases hreads.symm.trans hs
    · rcases getElem?_concat_eq_some.mp hτ' with hold | ⟨hnew, -⟩
      · exact .inr ⟨τ', hold, rfl, rfl, rfl⟩
      · exact .inl hnew
    · exact getElem?_concat_eq_some.mpr (.inl hτ)
    · change sr.setSlot c k sr.heap.length c' k' = some s at hs
      unfold setSlot at hs
      split at hs
      · rename_i hslot
        exact .inr ⟨hslot.1, hslot.2, (Option.some.inj hs).symm⟩
      · exact .inl hs
  | @renewClose _ _ s σ hat hσ hfaulty =>
    have hreads := h.reconnecting
    rw [hat] at hreads
    have h' : Placed (sr.setStream s { σ with done := true }) := h.setStream hσ ⟨rfl, rfl, rfl, id⟩
    refine h'.setReconnecting ?_ ⟨hreads, _, getElem?_set_of_some hσ, hfaulty⟩
    simp only [home, setStream, hat]
  | @renewTake _ _ s σ _ rest _ hat hσ =>
    have h' : Placed (sr.setStream s { σ with requestsChannel := rest }) := h.setStream hσ ⟨rfl, rfl, rfl, id⟩
    have hreads := h'.reconnecting
    change sr.reconnecting.Reads _ at hreads
    rw [hat] at hreads
    refine h'.setReconnecting ?_ hreads
    simp only [home, setStream, hat]
  | renewPut hat | renewEmpty hat =>
    have hreads := h.reconnecting
    rw [hat] at hreads
    exact h.setReconnecting (by simp only [home, hat]) hreads
  | @renewCopy c k s σ _ hat hσ =>
    have hreads := h.reconnecting
    rw [hat] at hreads
    have hslots : sr.home = sr.streams := home_eq_streams (by simp [hat])
    obtain ⟨τ, hτ, hc, hk, -⟩ := h.home c k s (hslots ▸ hreads.1)
    cases hσ.symm.trans hτ
    have hlen : sr.heap.length = (sr.heap.set s { σ with renewed := true }).length := (length_set ..).symm
    refine h.takeSlot hslots (fun r hr => ?_)
      ⟨getElem?_concat_eq_some.mpr (.inr ⟨hlen, rfl⟩), hc, hk, rfl⟩ (fun r τ' hτ' => ?_)
      (Stays.concat (Stays.set hσ rfl rfl)) (fun r τ hτ hother => ?_) (fun _ _ _ hs => .inl hs) rfl trivial
    · cases hreads.1.symm.trans hr
      exact hreads.2
    · rcases getElem?_concat_eq_some.mp hτ' with hold | ⟨hnew, -⟩
      · refine .inr ?_
        by_cases hrs : r = s
        · subst hrs
          obtain ⟨hlt, -⟩ := List.getElem?_eq_some_iff.mp hσ
          cases ((getElem?_set_self hlt).symm.trans hold)
          exact ⟨σ, hσ, rfl, rfl, rfl⟩
        · exact ⟨τ', (getElem?_set_ne (Ne.symm hrs)).symm.trans hold, rfl, rfl, rfl⟩
      · exact .inl (hnew.trans hlen.symm)
    · have hrs : s ≠ r := fun heq => hother (heq ▸ hreads.1)
      exact getElem?_concat_eq_some.mpr (.inl ((getElem?_set_ne hrs).trans hτ))
  | @reconnectInstall c k s hat =>
    have hhome : sr.home = sr.setSlot c k s := by simp only [home, hat]
    refine ⟨fun c' k' r hr => ?_, fun c' k' r hr => h.home c' k' r (hhome ▸ hr), fun r τ hτ => ?_, trivial⟩
    · obtain ⟨τ, hτ, hc, hk, -⟩ := h.home c' k' r (hhome ▸ hr)
      exact ⟨τ, hτ, hc, hk⟩
    have hplace := h.cancelled r τ hτ
    rw [hhome] at hplace
    exact hplace
  | _ => exact ⟨h.slots, h.home, h.cancelled, h.reconnecting⟩

/-! ## At the start -/

theorem Thread.Starts.requests_eq (h : t.Starts) : t.requests = [] := by
  rcases h with rfl | rfl | rfl | rfl | ⟨s, rfl | rfl⟩ <;> rfl

theorem Begins.mem_heap (h : Begins p) (hσ : σ ∈ p.shared.heap) : ∃ endpoint c k, σ = .new endpoint c k [] [] := by
  obtain ⟨s, hs⟩ := getElem?_of_mem hσ
  obtain ⟨endpoint, c, k, rfl, -⟩ := h.fresh s σ hs
  exact ⟨endpoint, c, k, rfl⟩

theorem Begins.known (h : Begins p) : p.Holds Known fun sr t => t.Known sr where
  shared := by
    refine ⟨by simp [h.taken], fun σ hσ => ?_, by simp [h.reconnecting]⟩
    obtain ⟨endpoint, c, k, rfl⟩ := h.mem_heap hσ
    exact nofun
  threads t ht := by
    rw [Thread.Known, (h.threads t ht).requests_eq]
    exact nofun

theorem Begins.placed (h : Begins p) : Placed p.shared := by
  have hslots : p.shared.home = p.shared.streams := home_eq_streams (by simp [h.reconnecting])
  refine ⟨h.slots, fun c k s hs => ?_, fun s σ hσ => ?_, by rw [h.reconnecting]; trivial⟩
  · obtain ⟨σ, hσ, hc, hk⟩ := h.slots c k s (hslots ▸ hs)
    obtain ⟨endpoint, c', k', rfl, -⟩ := h.fresh s σ hσ
    exact ⟨_, hσ, hc, hk, rfl⟩
  · obtain ⟨endpoint, c, k, rfl, hplace⟩ := h.fresh s σ hσ
    exact .inr (hslots ▸ hplace)

end Arma.Router
