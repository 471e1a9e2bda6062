import Arma.Router.Answers

/-!
# No request in a stream that was replaced

Where a request that was not answered is: with a goroutine, or in the stream of its slot. `Forward` reads the stream,
checks it, registers the request and enqueues it in separate steps, and the reconnection routine may renew the stream in
between. Then the request is in the channel of a stream that nobody reads any more (`stranded`).

**`located`**: it is the only way. In every run in which no such call of `Forward` is under way when the map is copied,
every request is located.
-/

namespace Arma.Router

open Arma.Lib List ShardRouter

variable {v : RulesVerifier} {sr sr' : ShardRouter} {t u : Thread} {ts : List Thread} {σ σ' : Stream} {s : StreamRef}
  {tr x : TrackedRequest} {p p' p₀ : Routing}

/-! ## The slot of a request -/

def ShardRouter.homeOf (sr : ShardRouter) (tr : TrackedRequest) : Option StreamRef :=
  sr.home (sr.streamIndexes tr.reqID).1 (sr.streamIndexes tr.reqID).2

/-- A call of `Forward` has the stream of the slot, unless the stream is cancelled. -/
def Thread.Aims (sr : ShardRouter) : Thread → Prop
  | .forward tr (.check s) => ∃ σ, sr.heap[s]? = some σ ∧ σ.connNum = (sr.streamIndexes tr.reqID).1 ∧
      σ.streamNum = (sr.streamIndexes tr.reqID).2
  | .forward tr (.register s) => sr.homeOf tr = some s
  | .forward tr (.enqueue s) => tr.trace = none → sr.homeOf tr = some s
  | _ => True

/-- A call of `Forward` that has checked a stream, and is still to register its request there or to enqueue it. -/
def Thread.Late (s : StreamRef) : Thread → Prop
  | .forward _ (.register s') => s' = s
  | .forward tr (.enqueue s') => s' = s ∧ tr.trace = none
  | _ => False

theorem streamIndexes_notifyReconnect : (sr.notifyReconnect s σ).streamIndexes = sr.streamIndexes := by
  unfold ShardRouter.notifyReconnect
  split <;> rfl

theorem home_notifyReconnect : (sr.notifyReconnect s σ).home = sr.home := by
  unfold ShardRouter.notifyReconnect
  split <;> rfl

theorem stays_notifyReconnect (hσ : sr.heap[s]? = some σ) : Stays sr.heap (sr.notifyReconnect s σ).heap := by
  unfold ShardRouter.notifyReconnect
  split
  · exact .refl
  · exact .set hσ rfl rfl

theorem Act.streamIndexes_eq (hact : Act v sr t sr' ts) : sr'.streamIndexes = sr.streamIndexes := by
  cases hact with
  | forwardNotify | notify => exact streamIndexes_notifyReconnect
  | sendOk | sendFailed => split <;> rfl
  | _ => rfl

theorem Act.stays (hact : Act v sr t sr' ts) : Stays sr.heap sr'.heap := by
  cases hact with
  | forwardNotify hσ | notify hσ => exact stays_notifyReconnect hσ
  | forwardRegister hσ | forwardEnqueue hσ | sendTake hσ | sendInvalid hσ
  | sendConfig hσ | readFound hσ | drainTake hσ | drainUnregister hσ
  | detach hσ | cancel hσ | renewClose _ hσ | renewTake _ hσ => exact .set hσ rfl rfl
  | sendOk | sendFailed => split <;> exact .refl
  | initStream => exact Stays.refl.concat
  | renewCopy _ hσ => exact Stays.concat (.set hσ rfl rfl)
  | _ => exact .refl

/-- **A slot keeps its stream until the map is copied.** -/
theorem Act.home_eq (h : Placed sr) (hact : Act v sr t sr' ts) {c k r} (hr : sr.home c k = some r) :
    sr'.home c k = some r ∨ t = .reconnectRoutine ∧ ∃ queue, sr.reconnecting = .copy c k r queue := by
  cases hact with
  | forwardNotify | notify =>
    rw [home_notifyReconnect]
    exact .inl hr
  | sendOk | sendFailed => split <;> exact .inl hr
  | reconnectStop hat =>
    refine .inl ?_
    rcases hat with hat | ⟨c', k', hat⟩ <;> simpa only [home, hat] using hr
  | reconnectTake hat | reconnectRead hat | reconnectFailed hat | reconnectHealthy hat
  | renewClose hat | renewTake hat | renewPut hat | renewEmpty hat
  | reconnectInstall hat =>
    refine .inl ?_
    simpa only [home, setStream, hat] using hr
  | @initStream _ _ hat =>
    have hreads := h.reconnecting
    rw [hat] at hreads
    have hslots : sr.home = sr.streams := home_eq_streams (by simp [hat])
    rw [hslots] at hr
    refine .inl ((if_neg ?_).trans hr)
    rintro ⟨rfl, rfl⟩
    cases hreads.symm.trans hr
  | @renewCopy c' k' _ _ queue hat =>
    have hreads := h.reconnecting
    rw [hat] at hreads
    have hslots : sr.home = sr.streams := home_eq_streams (by simp [hat])
    rw [hslots] at hr
    by_cases hslot : c = c' ∧ k = k'
    · obtain ⟨rfl, rfl⟩ := hslot
      cases hreads.1.symm.trans hr
      exact .inr ⟨rfl, queue, hat⟩
    · exact .inl ((if_neg hslot).trans hr)
  | _ => exact .inl hr

theorem Act.aims (h : Placed sr) (ht : t.Aims sr) (hact : Act v sr t sr' ts) : ∀ u ∈ ts, u.Aims sr' := by
  cases hact with
  | @forwardRead _ s hread =>
    intro u hu
    obtain rfl := mem_singleton.mp hu
    exact h.slots _ _ s hread
  | @forwardHealthy _ s σ hσ hhealthy =>
    intro u hu
    obtain rfl := mem_singleton.mp hu
    obtain ⟨τ, hτ, hc, hk⟩ := ht
    cases hσ.symm.trans hτ
    have hplace := (h.cancelled s σ hσ).resolve_left (by simp [hhealthy])
    rw [hc, hk] at hplace
    exact hplace
  | forwardUntraced =>
    intro u hu
    obtain rfl := mem_singleton.mp hu
    exact fun _ => ht
  | forwardRegister _ htrace =>
    intro u hu
    obtain rfl := mem_singleton.mp hu
    exact fun hnone => absurd hnone htrace
  | @answered _ _ caller => cases caller <;> simp [Thread.Aims, Caller.resume]
  | _ => simp [Thread.Aims]

theorem Act.aims_of_not_late (h : Placed sr) (hact : Act v sr t sr' ts) (hu : u.Aims sr)
    (hlate : ∀ c k s queue, t = .reconnectRoutine → sr.reconnecting = .copy c k s queue → ¬ u.Late s) : u.Aims sr' := by
  have hidx := hact.streamIndexes_eq
  have hhome : ∀ {tr r}, sr.homeOf tr = some r → (∀ c k queue, t = .reconnectRoutine →
      sr.reconnecting ≠ .copy c k r queue) → sr'.homeOf tr = some r := by
    intro tr r hr hcopy
    rw [homeOf, hidx]
    rcases hact.home_eq h hr with hsame | ⟨ht, queue, hat⟩
    · exact hsame
    · exact absurd hat (hcopy _ _ queue ht)
  cases u with
  | forward _ pc =>
    cases pc with
    | check r =>
      obtain ⟨σ, hσ, hc, hk⟩ := hu
      obtain ⟨σ', hσ', hc', hk'⟩ := hact.stays r σ hσ
      exact ⟨σ', hσ', by rw [hidx]; exact hc'.trans hc, by rw [hidx]; exact hk'.trans hk⟩
    | register r => exact hhome hu fun c k queue ht hat => hlate c k r queue ht hat rfl
    | enqueue r =>
      intro hnone
      exact hhome (hu hnone) fun c k queue ht hat => hlate c k r queue ht hat ⟨rfl, hnone⟩
    | _ => trivial
  | _ => trivial

/-! ## Where the requests are -/

def Stream.waiting (σ : Stream) : List TrackedRequest := σ.requestsChannel.flatMap untraced ++ σ.requestsByTraceID

/-- The slot whose stream is renewed. -/
def Reconnecting.slot : Reconnecting → Nat × Nat
  | .move c k _ _ => (c, k)
  | .put c k _ _ _ => (c, k)
  | .copy c k _ _ => (c, k)
  | _ => (0, 0)

/-- A request is answered, or it is on its way, or it waits in the stream of its slot. -/
inductive Accounted (sr : ShardRouter) (x : TrackedRequest) : Prop
  | replied (h : x ∈ sr.replies.map Prod.fst)
  | moving (hslot : sr.streamIndexes x.reqID = sr.reconnecting.slot)
      (h : x ∈ sr.reconnecting.requests.flatMap untraced)
  | queued (h : x ∈ sr.configRequestsChannel)
  | submitting (h : sr.submitting = some x)
  | waits {s : StreamRef} {σ} (hhome : sr.homeOf x = some s) (hσ : sr.heap[s]? = some σ) (h : x ∈ σ.waiting)

/-- **An action loses no request** that was accounted for, or that the thread has in hand. -/
def Accounts (sr : ShardRouter) (t : Thread) (sr' : ShardRouter) (ts : List Thread) : Prop :=
  ∀ x ∈ sr.taken, Accounted sr x ∨ x ∈ t.rights → Accounted sr' x ∨ ∃ u ∈ ts, x ∈ u.rights

/-- **The frame rule**: an action that leaves the replies and the config submitter alone has to account for what is
moved and for what waits in a stream. -/
theorem Accounted.frame (h : Accounted sr x) (hreplies : sr'.replies = sr.replies)
    (hqueue : sr'.configRequestsChannel = sr.configRequestsChannel) (hsubmitting : sr'.submitting = sr.submitting)
    (hmoving : sr.streamIndexes x.reqID = sr.reconnecting.slot → x ∈ sr.reconnecting.requests.flatMap untraced →
      Accounted sr' x)
    (hwaits : ∀ {r τ}, sr.homeOf x = some r → sr.heap[r]? = some τ → x ∈ τ.waiting → Accounted sr' x) :
    Accounted sr' x := by
  cases h with
  | replied h => exact .replied (hreplies ▸ h)
  | moving hslot h => exact hmoving hslot h
  | queued h => exact .queued (hqueue ▸ h)
  | submitting h => exact .submitting (hsubmitting.trans h)
  | waits hhome hσ h => exact hwaits hhome hσ h

/-- A stream changes: what no longer waits there is a matter of the thread. -/
theorem Accounted.setStream {Q : Prop} (h : Accounted sr x) (hσ : sr.heap[s]? = some σ)
    (hstream : x ∈ σ.waiting → x ∈ σ'.waiting ∨ Q) : Accounted (sr.setStream s σ') x ∨ Q := by
  cases h with
  | replied h => exact .inl (.replied h)
  | moving hslot h => exact .inl (.moving hslot h)
  | queued h => exact .inl (.queued h)
  | submitting h => exact .inl (.submitting h)
  | @waits r _ hhome hτ h =>
    by_cases hrs : r = s
    · subst hrs
      cases hσ.symm.trans hτ
      exact (hstream h).imp_left (.waits hhome (getElem?_set_of_some hσ))
    · exact .inl (.waits hhome ((getElem?_set_ne (Ne.symm hrs)).trans hτ) h)

theorem Accounts.setStream (hσ : sr.heap[s]? = some σ)
    (hstream : ∀ x ∈ sr.taken, x ∈ σ.waiting → x ∈ σ'.waiting ∨ ∃ u ∈ ts, x ∈ u.rights)
    (hthread : ∀ x ∈ t.rights, Accounted (sr.setStream s σ') x ∨ ∃ u ∈ ts, x ∈ u.rights) :
    Accounts sr t (sr.setStream s σ') ts := by
  intro x hx h
  rcases h with h | h
  · exact h.setStream hσ (hstream x hx)
  · exact hthread x h

variable {resp : Response}

theorem Accounted.reply (h : Accounted sr x) : Accounted (sr.reply tr resp) x := by
  cases h with
  | replied h =>
    refine .replied ?_
    simp only [ShardRouter.reply, map_append, mem_append]
    exact .inl h
  | moving hslot h => exact .moving hslot h
  | queued h => exact .queued h
  | submitting h => exact .submitting h
  | waits hhome hσ h => exact .waits hhome hσ h

theorem accounted_reply : Accounted (sr.reply tr resp) tr :=
  .replied (by simp [ShardRouter.reply])

theorem Accounts.reply (hthread : ∀ x ∈ t.rights, x = tr ∨ ∃ u ∈ ts, x ∈ u.rights) :
    Accounts sr t (sr.reply tr resp) ts := by
  intro x hx h
  rcases h with h | h
  · exact .inl h.reply
  · rcases hthread x h with rfl | hkept
    · exact .inl accounted_reply
    · exact .inr hkept

theorem Accounts.same (hshared : ∀ x, Accounted sr x → Accounted sr' x)
    (hthread : ∀ x ∈ t.rights, ∃ u ∈ ts, x ∈ u.rights) : Accounts sr t sr' ts := by
  intro x hx h
  rcases h with h | h
  · exact .inl (hshared x h)
  · exact .inr (hthread x h)

theorem Accounts.idle (hshared : ∀ x, Accounted sr x → Accounted sr' x) (hidle : t.rights = []) :
    Accounts sr t sr' ts :=
  .same hshared (by rw [hidle]; exact nofun)

theorem Accounted.setReconnecting {reconnectRequests} {reconnecting}
    (h : Accounted sr x) (hhome : ({ sr with reconnectRequests, reconnecting } : ShardRouter).home = sr.home)
    (hmoving : sr.streamIndexes x.reqID = sr.reconnecting.slot → x ∈ sr.reconnecting.requests.flatMap untraced →
      sr.streamIndexes x.reqID = reconnecting.slot ∧ x ∈ reconnecting.requests.flatMap untraced) :
    Accounted { sr with reconnectRequests, reconnecting } x := by
  refine h.frame rfl rfl rfl (fun hslot hmem => ?_) fun hplace hσ hmem => ?_
  · obtain ⟨hslot', hmem'⟩ := hmoving hslot hmem
    exact .moving hslot' hmem'
  · refine .waits ?_ hσ hmem
    rw [homeOf, hhome]
    exact hplace

theorem Stream.waiting_take {rest} (hchan : σ.requestsChannel = tr :: rest)
    (h : x ∈ σ.waiting) : x ∈ Stream.waiting { σ with requestsChannel := rest } ∨ x ∈ untraced tr := by
  simp only [Stream.waiting, hchan, flatMap_cons, mem_append] at h ⊢
  tauto

theorem Known.waiting_delete (hknown : Known sr) {trace} (htr : tr ∈ sr.taken) (htrace : tr.trace = some trace)
    (hx : x ∈ sr.taken) (h : x ∈ σ.waiting) : x ∈ (σ.delete trace).waiting ∨ x = tr := by
  by_cases heq : x.trace = some trace
  · exact .inr (hknown.unique x hx tr htr (by simp [heq]) (heq.trans htrace.symm))
  · refine .inl ?_
    simp only [Stream.waiting, Stream.delete, mem_append, mem_filter] at h ⊢
    exact h.imp_right fun hmem => ⟨hmem, by simpa using heq⟩

theorem Accounted.setFlags {taken} {closeReconnect readLocks}
    (h : Accounted sr x) : Accounted { sr with taken, closeReconnect, readLocks } x :=
  h.frame rfl rfl rfl (fun hslot hmem => .moving hslot hmem) fun hhome hσ hmem => .waits hhome hσ hmem

theorem Accounted.notifyReconnect (h : Accounted sr x) (hσ : sr.heap[s]? = some σ) :
    Accounted (sr.notifyReconnect s σ) x := by
  unfold ShardRouter.notifyReconnect
  split
  · exact h
  · have hset := @Accounted.setStream _ _ { σ with notifiedReconnect := true } _ _ False h hσ .inl
    exact (hset.resolve_right id).setReconnecting rfl fun hslot hmem => ⟨hslot, hmem⟩

theorem Placed.slot_eq (h : Placed sr) {c k} (hhome : sr.homeOf x = some s) (hs : sr.streams c k = some s) :
    sr.streamIndexes x.reqID = (c, k) := by
  obtain ⟨σ, hσ, hc, hk, -⟩ := h.home _ _ s hhome
  obtain ⟨τ, hτ, hc', hk'⟩ := h.slots c k s hs
  cases hσ.symm.trans hτ
  exact Prod.ext (hc.symm.trans hc') (hk.symm.trans hk')

/-- The stream of the slot keeps what waits there, and the slot keeps the stream. -/
theorem Accounted.waits_of_home (h : Placed sr) (hact : Act v sr t sr' ts) {r : StreamRef} {τ}
    (hhome : sr.homeOf x = some r) (hcopy : ∀ c k queue, sr.reconnecting ≠ .copy c k r queue)
    (hτ : sr'.heap[r]? = some τ) (hx : x ∈ τ.waiting) : Accounted sr' x := by
  refine .waits ?_ hτ hx
  rw [homeOf, hact.streamIndexes_eq]
  refine (hact.home_eq h hhome).resolve_right ?_
  rintro ⟨-, queue, hat⟩
  exact hcopy _ _ queue hat

theorem Act.accounts_forward {pc} (hknown : Known sr) (htknown : (Thread.forward tr pc).Known sr)
    (ht : (Thread.forward tr pc).Aims sr) (hact : Act v sr (.forward tr pc) sr' ts) :
    Accounts sr (.forward tr pc) sr' ts := by
  cases hact with
  | forwardNotify hσ => exact .same (fun _ h => h.notifyReconnect hσ) (by simp)
  | forwardReject => exact .reply (by simp)
  | forwardUntraced htrace => exact .same (fun _ h => h) (by simp [untraced, htrace])
  | @forwardRegister tr s σ hσ htrace =>
    have hself : (sr.setStream s (σ.registerReply tr)).heap[s]? = some (σ.registerReply tr) :=
      getElem?_set_of_some hσ
    refine .setStream hσ (fun x hx hwait => .inl ?_) fun x hx => .inl ?_
    · rcases mem_append.mp hwait with hchan | hmap
      · exact mem_append_left _ hchan
      · refine mem_append_right _ ?_
        by_cases heq : x.trace = tr.trace
        · obtain rfl := hknown.unique x hx tr (htknown tr mem_cons_self) (heq ▸ htrace) heq
          exact mem_cons_self
        · exact mem_cons_of_mem _ (mem_filter.mpr ⟨hmap, by simpa using heq⟩)
    · obtain rfl := mem_singleton.mp hx
      exact .waits ht hself (mem_append_right _ mem_cons_self)
  | @forwardEnqueue tr _ _ hσ =>
    refine .setStream hσ (fun x hx hwait => .inl ?_) fun x hx => .inl ?_
    · simp only [Stream.waiting, flatMap_append, mem_append] at hwait ⊢
      tauto
    · by_cases htrace : tr.trace = none
      · obtain rfl : x = tr := by simpa [untraced, htrace] using hx
        refine .waits (ht htrace) (getElem?_set_of_some hσ) ?_
        simp [Stream.waiting, untraced, htrace]
      · simp [untraced, htrace] at hx
  | _ => exact .same (fun _ h => h) (by simp)

/-- A request is taken out of the channel of a stream. -/
theorem Accounts.take (hσ : sr.heap[s]? = some σ) {rest} (hchan : σ.requestsChannel = tr :: rest)
    (hidle : t.rights = []) (hu : u.rights = untraced tr) :
    Accounts sr t (sr.setStream s { σ with requestsChannel := rest }) [u] := by
  refine .setStream hσ (fun x hx hwait => ?_) (by rw [hidle]; exact nofun)
  exact (Stream.waiting_take hchan hwait).imp_right fun h => ⟨u, mem_singleton_self u, hu ▸ h⟩

/-- The registration of a request is taken out of the map of a stream. -/
theorem Accounts.unregister (hknown : Known sr) (hσ : sr.heap[s]? = some σ) {trace} (htr : tr ∈ sr.taken)
    (htrace : tr.trace = some trace) (hu : u.rights = [tr]) (hthread : ∀ x ∈ t.rights, x = tr) :
    Accounts sr t (sr.setStream s (σ.delete trace)) [u] := by
  have hself : ∃ w ∈ [u], tr ∈ w.rights := ⟨u, mem_singleton_self u, hu ▸ mem_singleton_self tr⟩
  refine .setStream hσ (fun x hx hwait => ?_) fun x hx => .inr (hthread x hx ▸ hself)
  refine (hknown.waiting_delete htr htrace hx hwait).imp_right ?_
  rintro rfl
  exact hself

theorem Known.taken_of_registered (hknown : Known sr) (hσ : sr.heap[s]? = some σ) {trace}
    (hfound : σ.registered trace = some tr) : tr ∈ sr.taken ∧ tr.trace = some trace := by
  obtain ⟨hmem, htrace⟩ := Stream.mem_of_registered hfound
  exact ⟨hknown.heap _ (mem_of_getElem? hσ) _ (mem_append_right _ hmem), htrace⟩

theorem Act.accounts_sendRequests {pc} (hknown : Known sr) (htknown : (Thread.sendRequests s pc).Known sr)
    (hact : Act v sr (.sendRequests s pc) sr' ts) : Accounts sr (.sendRequests s pc) sr' ts := by
  cases hact with
  | sendTake hσ hchan => exact .take hσ hchan rfl rfl
  | sendInvalidUntraced => exact .reply (by simp [untraced])
  | sendInvalid hσ _ htrace hfound =>
    obtain ⟨htaken, htrace'⟩ := hknown.taken_of_registered hσ hfound
    exact .unregister hknown hσ htaken htrace' rfl (by simp [untraced, htrace])
  | sendConfig hσ _ htrace =>
    exact .unregister hknown hσ (htknown _ mem_cons_self) htrace rfl (by simp [untraced])
  | sendInvalidGone _ _ htrace | sendConfigGone _ _ htrace
  | sendConfigUntraced _ htrace => exact .same (fun _ h => h) (by simp [untraced, htrace])
  | sendOk | sendFailed =>
    split
    · rename_i htrace
      exact .reply (by simp [untraced, htrace])
    · rename_i htrace
      exact .same (fun _ h => h) (by simp [untraced, htrace])
  | submitQueued =>
    intro x hx h
    refine .inl ?_
    rcases h with h | h
    · cases h with
      | replied h => exact .replied h
      | moving hslot h => exact .moving hslot h
      | queued h => exact .queued (mem_append_left _ h)
      | submitting h => exact .submitting h
      | waits hhome hσ h => exact .waits hhome hσ h
    · exact .queued (mem_append_right _ h)
  | submitRejected | sendReply => exact .reply (by simp)
  | sendDone => exact .idle (fun _ h => h) rfl

theorem Act.accounts_answerAll {e pc caller} (hknown : Known sr)
    (htknown : (Thread.sendResponseToAllClientsOnError s e pc caller).Known sr)
    (hact : Act v sr (.sendResponseToAllClientsOnError s e pc caller) sr' ts) :
    Accounts sr (.sendResponseToAllClientsOnError s e pc caller) sr' ts := by
  cases hact with
  | drainTake hσ hchan => exact .take hσ hchan rfl rfl
  | drainUnregister hσ htrace =>
    exact .unregister hknown hσ (htknown _ mem_cons_self) htrace rfl (by simp [untraced])
  | drainUntraced htrace => exact .same (fun _ h => h) (by simp [untraced, htrace])
  | drainReply => exact .reply (by simp)
  | detach hσ =>
    refine .setStream hσ (fun x hx hwait => ?_) (by simp)
    rcases mem_append.mp hwait with hchan | hmap
    · exact .inl (mem_append_left _ hchan)
    · exact .inr ⟨_, mem_singleton_self _, hmap⟩
  | answer =>
    refine .reply fun x hx => ?_
    simp only [Thread.rights, mem_append, mem_cons, not_mem_nil, or_false, exists_eq_left] at hx ⊢
    tauto
  | _ => exact .idle (fun _ h => h) rfl

theorem Act.accounts_readConfigRequests (hact : Act v sr .readConfigRequests sr' ts) :
    Accounts sr .readConfigRequests sr' ts := by
  refine .idle (fun x h => ?_) rfl
  cases hact with
  | configTake hidle hchan =>
    cases h with
    | replied h => exact .replied h
    | moving hslot h => exact .moving hslot h
    | queued h =>
      rcases mem_cons.mp (hchan ▸ h) with rfl | hrest
      · exact .submitting rfl
      · exact .queued hrest
    | submitting h => cases hidle.symm.trans h
    | waits hhome hσ h => exact .waits hhome hσ h
  | configReply hat =>
    cases h with
    | replied h => exact .replied (by simp only [ShardRouter.reply, map_append, mem_append]; exact .inl h)
    | moving hslot h => exact .moving hslot h
    | queued h => exact .queued h
    | submitting h =>
      cases hat.symm.trans h
      exact .replied (by simp [ShardRouter.reply])
    | waits hhome hσ h => exact .waits hhome hσ h

/-- The channel of the old stream is moved. -/
theorem Accounted.renewTake {c k queue rest} (hplaced : Placed sr) (hat : sr.reconnecting = .move c k s queue)
    (hσ : sr.heap[s]? = some σ) (hchan : σ.requestsChannel = tr :: rest) (h : Accounted sr x)
    (hact : Act v sr .reconnectRoutine { sr.setStream s { σ with requestsChannel := rest } with
      reconnecting := .put c k s queue tr } ts) :
    Accounted { sr.setStream s { σ with requestsChannel := rest } with reconnecting := .put c k s queue tr } x := by
  have hreads := hplaced.reconnecting
  rw [hat] at hreads
  refine h.frame rfl rfl rfl (fun hslot hmem => ?_) fun {r τ} hhome hτ hmem => ?_
  · rw [hat] at hslot hmem
    refine .moving hslot ?_
    simp only [Reconnecting.requests, flatMap_append, mem_append] at hmem ⊢
    exact .inl hmem
  · by_cases hrs : r = s
    · subst hrs
      cases hσ.symm.trans hτ
      rcases Stream.waiting_take hchan hmem with hkept | hmoved
      · exact .waits_of_home hplaced hact hhome (by simp [hat]) (getElem?_set_of_some hσ) hkept
      · exact .moving (hplaced.slot_eq hhome hreads.1) (by simp [hmoved])
    · exact .waits_of_home hplaced hact hhome (by simp [hat]) ((getElem?_set_ne (Ne.symm hrs)).trans hτ) hmem

/-- The map of the old stream is copied, when no untraced request is in its channel. -/
theorem Accounted.renewCopy {c k queue} (hplaced : Placed sr) (hat : sr.reconnecting = .copy c k s queue)
    (hσ : sr.heap[s]? = some σ) (hquiet : σ.requestsChannel.flatMap untraced = []) (h : Accounted sr x)
    (hact : Act v sr .reconnectRoutine { (sr.setStream s { σ with renewed := true }).addStream
      (.new sr.batcherEndpoint σ.connNum σ.streamNum queue σ.requestsByTraceID) with
        reconnecting := .install c k sr.heap.length } ts) :
    Accounted { (sr.setStream s { σ with renewed := true }).addStream
      (.new sr.batcherEndpoint σ.connNum σ.streamNum queue σ.requestsByTraceID) with
        reconnecting := .install c k sr.heap.length } x := by
  have hreads := hplaced.reconnecting
  rw [hat] at hreads
  have hlen : sr.heap.length = (sr.heap.set s { σ with renewed := true }).length := (length_set ..).symm
  by_cases hidx : sr.streamIndexes x.reqID = (c, k)
  · -- what was moved and what is registered waits in the new stream
    refine h.frame rfl rfl rfl (fun _ hmem => ?_) fun {r τ} hhome hτ hmem => ?_ <;>
      refine .waits (if_pos ⟨congrArg Prod.fst hidx, congrArg Prod.snd hidx⟩)
        (getElem?_concat_eq_some.mpr (.inr ⟨hlen, rfl⟩)) ?_
    · rw [hat] at hmem
      exact mem_append_left _ hmem
    · rw [homeOf, hidx, home_eq_streams (by simp [hat])] at hhome
      cases hreads.1.symm.trans hhome
      cases hσ.symm.trans hτ
      rcases mem_append.mp hmem with hchan | hmap
      · rw [hquiet] at hchan
        cases hchan
      · exact mem_append_right _ hmap
  · refine h.frame rfl rfl rfl (fun hslot _ => ?_) fun {r τ} hhome hτ hmem => ?_
    · rw [hat] at hslot
      exact absurd hslot hidx
    · have hrs : s ≠ r := by
        rintro rfl
        exact hidx (hplaced.slot_eq hhome hreads.1)
      refine .waits_of_home hplaced hact hhome (fun c' k' queue' hat' => ?_)
        (getElem?_concat_eq_some.mpr (.inl ((getElem?_set_ne hrs).trans hτ))) hmem
      rw [hat] at hat'
      exact hrs (Reconnecting.copy.inj hat').2.2.1

theorem Act.accounts_reconnectRoutine (hplaced : Placed sr)
    (hquiet : ∀ c k s queue σ, sr.reconnecting = .copy c k s queue → sr.heap[s]? = some σ →
      σ.requestsChannel.flatMap untraced = []) (hact : Act v sr .reconnectRoutine sr' ts) :
    Accounts sr .reconnectRoutine sr' ts := by
  have haction := hact
  refine .idle (fun x h => ?_) rfl
  cases hact with
  | reconnectStop hat =>
    have hempty : sr.reconnecting.requests = [] := by rcases hat with hat | ⟨c, k, hat⟩ <;> rw [hat] <;> rfl
    have hnot : ∀ c k s, sr.reconnecting ≠ .install c k s := by
      rcases hat with hat | ⟨c, k, hat⟩ <;> simp [hat]
    exact h.setReconnecting (home_eq_streams hnot).symm fun _ hmem => by rw [hempty] at hmem; cases hmem
  | reconnectTake hat | reconnectRead hat | reconnectFailed hat | reconnectHealthy hat =>
    refine h.setReconnecting ?_ fun _ hmem => ?_
    · simp only [home, hat]
    · simp [hat] at hmem
  | initStream hat =>
    refine h.frame rfl rfl rfl (fun _ hmem => ?_) fun hhome hσ hmem => ?_
    · simp [hat] at hmem
    · exact .waits_of_home hplaced haction hhome (by simp [hat]) (getElem?_concat_eq_some.mpr (.inl hσ)) hmem
  | @renewClose _ _ _ σ hat hσ =>
    have hset := @Accounted.setStream _ _ { σ with done := true } _ _ False h hσ .inl
    refine (hset.resolve_right id).setReconnecting ?_ fun _ hmem => ?_
    · simp only [home, setStream, hat]
    · simp [setStream, hat] at hmem
  | renewTake hat hσ hchan => exact h.renewTake hplaced hat hσ hchan haction
  | renewPut hat | renewEmpty hat =>
    refine h.setReconnecting ?_ fun hslot hmem => ?_
    · simp only [home, hat]
    · rw [hat] at hslot hmem
      exact ⟨hslot, hmem⟩
  | renewCopy hat hσ => exact h.renewCopy hplaced hat hσ (hquiet _ _ _ _ _ hat hσ) haction
  | reconnectInstall hat =>
    refine h.frame rfl rfl rfl (fun _ hmem => ?_) fun hhome hσ hmem => ?_
    · simp [hat] at hmem
    · exact .waits_of_home hplaced haction hhome (by simp [hat]) hσ hmem

/-- **Every action accounts for the requests.** -/
theorem Act.accounts (hknown : Known sr) (htknown : t.Known sr) (hplaced : Placed sr) (ht : t.Aims sr)
    (hquiet : ∀ c k s queue σ, t = .reconnectRoutine → sr.reconnecting = .copy c k s queue → sr.heap[s]? = some σ →
      σ.requestsChannel.flatMap untraced = []) (hact : Act v sr t sr' ts) : Accounts sr t sr' ts := by
  cases t with
  | forward => exact hact.accounts_forward hknown htknown ht
  | sendRequests => exact hact.accounts_sendRequests hknown htknown
  | sendResponseToAllClientsOnError => exact hact.accounts_answerAll hknown htknown
  | readConfigRequests => exact hact.accounts_readConfigRequests
  | reconnectRoutine => exact hact.accounts_reconnectRoutine hplaced fun c k s queue σ => hquiet c k s queue σ rfl
  | readResponses =>
    cases hact with
    | readFound hσ hfound =>
      obtain ⟨htaken, htrace⟩ := hknown.taken_of_registered hσ hfound
      exact .unregister hknown hσ htaken htrace rfl (by simp)
    | readReply => exact .reply (by simp)
    | _ => exact .idle (fun _ h => h) rfl
  | cancelOnServerError =>
    cases hact with
    | cancel hσ => exact .setStream hσ (fun x hx hwait => .inl hwait) (by simp)
  | notifyReconnectRoutine =>
    cases hact with
    | notify hσ => exact .idle (fun _ h => h.notifyReconnect hσ) rfl
    | notifyDone => exact .idle (fun _ h => h) rfl
  | client | operator | softStop | softStopping => cases hact <;> exact .idle (fun _ h => h.setFlags) rfl

/-- A new request is one that `Forward` is called with. -/
theorem Act.taken_new (hact : Act v sr t sr' ts) (hold : x ∉ sr.taken) (hnew : x ∈ sr'.taken) :
    t = .client ∧ ts = [.client, .forward x .read] := by
  cases hact with
  | accept =>
    obtain rfl := (mem_cons.mp hnew).resolve_right hold
    exact ⟨rfl, rfl⟩
  | forwardNotify | notify =>
    rw [taken_notifyReconnect] at hnew
    exact absurd hnew hold
  | sendOk | sendFailed => split at hnew <;> exact absurd hnew hold
  | _ => exact absurd hnew hold

/-! ## The requests are located -/

/-- **The condition**: when the map of a stream is copied, no call of `Forward` that found the stream not faulty is
still to register its request there or to enqueue it, and no untraced request was enqueued after the channel was
moved. -/
def Quiet (p : Routing) (t : Thread) : Prop :=
  ∀ c k s queue, t = .reconnectRoutine → p.shared.reconnecting = .copy c k s queue →
    (∀ u ∈ p.threads, ¬ u.Late s) ∧ ∀ σ, p.shared.heap[s]? = some σ → σ.requestsChannel.flatMap untraced = []

/-- Where a request is that `Forward` was called with. -/
inductive Located (p : Routing) (x : TrackedRequest) : Prop
  | answered (h : x ∈ p.shared.replies.map Prod.fst)
  /-- A goroutine has it in hand. -/
  | handled {t : Thread} (ht : t ∈ p.threads) (h : x ∈ t.requests)
  | submitted (h : x ∈ p.shared.configRequestsChannel ∨ p.shared.submitting = some x)
  /-- The reconnection routine moves it to the new channel. -/
  | moved (h : x ∈ p.shared.reconnecting.requests)
  /-- The reconnection routine has a new stream with it. -/
  | renewed {s : StreamRef} {σ c k} (hat : p.shared.reconnecting = .install c k s)
      (hσ : p.shared.heap[s]? = some σ) (h : x ∈ σ.requests)
  /-- It waits in the stream that is installed in its slot. -/
  | waits {s : StreamRef} {σ} (hs : p.shared.streamOf x = some s) (hσ : p.shared.heap[s]? = some σ)
      (h : x ∈ σ.requests)

/-- **The invariant**: every request is accounted for, or a thread may answer it. -/
structure Tracked (p : Routing) : Prop where
  known : p.Holds Known fun sr t => t.Known sr
  placed : Placed p.shared
  aims : ∀ t ∈ p.threads, t.Aims p.shared
  tracked : ∀ x ∈ p.shared.taken, Accounted p.shared x ∨ ∃ t ∈ p.threads, x ∈ t.rights

theorem Tracked.step (h : Tracked p) (hquiet : Quiet p t) (hstep : ThreadPool.Step (Act v) p t p') : Tracked p' := by
  have hknown : p'.Holds Known fun sr t => t.Known sr := hstep.holds h.known fun hknown ht hact =>
    ⟨(hact.known hknown ht).1, (hact.known hknown ht).2, fun _ _ hu x hx => hact.taken_subset (hu x hx)⟩
  have haims : p'.Holds Placed fun sr t => t.Aims sr := hstep.holds ⟨h.placed, h.aims⟩ fun hplaced ht hact =>
    ⟨hact.placed hplaced, hact.aims hplaced ht, fun u hu hold =>
      hact.aims_of_not_late hplaced hold fun c k s queue hrr hat => (hquiet c k s queue hrr hat).1 u hu⟩
  refine ⟨hknown, haims.shared, haims.threads, fun x hx => ?_⟩
  obtain @⟨sr, sr', t, ts, before, after, hact⟩ := hstep
  have htknown := h.known.threads t (by simp)
  have haccounts := hact.accounts h.known.shared htknown h.placed (h.aims t (by simp))
    fun c k s queue σ hrr hat => (hquiet c k s queue hrr hat).2 σ
  -- what an action leaves is left in the pool
  have hleft : Accounted sr' x ∨ (∃ u ∈ ts, x ∈ u.rights) →
      Accounted sr' x ∨ ∃ u ∈ before ++ ts ++ after, x ∈ u.rights := by
    rintro (hacc | ⟨u, hu, hright⟩)
    · exact .inl hacc
    · exact .inr ⟨u, by simp [hu], hright⟩
  by_cases htaken : x ∈ sr.taken
  · rcases h.tracked x htaken with hacc | ⟨u, hu, hright⟩
    · exact hleft (haccounts x htaken (.inl hacc))
    · simp only [mem_append, mem_cons] at hu
      rcases hu with hu | rfl | hu
      · exact .inr ⟨u, by simp [hu], hright⟩
      · exact hleft (haccounts x htaken (.inr hright))
      · exact .inr ⟨u, by simp [hu], hright⟩
  · obtain ⟨rfl, rfl⟩ := hact.taken_new htaken hx
    exact .inr ⟨.forward x .read, by simp, mem_singleton_self x⟩

theorem mem_of_mem_untraced (h : x ∈ untraced tr) : x = tr := by
  unfold untraced at h
  split at h
  · exact mem_singleton.mp h
  · cases h

theorem Thread.rights_subset_requests : t.rights ⊆ t.requests := by
  intro x hx
  unfold Thread.rights at hx
  split at hx
  · exact mem_singleton.mpr (mem_of_mem_untraced hx)
  · exact hx
  · exact mem_singleton.mpr (mem_of_mem_untraced hx)
  · exact hx
  · exact hx
  · exact hx
  · exact mem_singleton.mpr (mem_of_mem_untraced hx)
  · exact hx
  · exact hx
  · cases hx

theorem mem_of_mem_flatMap_untraced {l : List TrackedRequest} (h : x ∈ l.flatMap untraced) : x ∈ l := by
  obtain ⟨tr, htr, hx⟩ := mem_flatMap.mp h
  exact mem_of_mem_untraced hx ▸ htr

theorem Stream.waiting_subset_requests : σ.waiting ⊆ σ.requests := by
  intro x hx
  exact mem_append.mpr ((mem_append.mp hx).imp_left mem_of_mem_flatMap_untraced)

theorem Begins.tracked (h : Begins p) : Tracked p where
  known := h.known
  placed := h.placed
  aims t ht := by
    rcases h.threads t ht with rfl | rfl | rfl | rfl | ⟨s, rfl | rfl⟩ <;> trivial
  tracked x hx := by simp [h.taken] at hx

theorem Tracked.exists_place (h : Tracked p) (hx : x ∈ p.shared.taken) : Located p x := by
  rcases h.tracked x hx with hacc | ⟨t, ht, hright⟩
  · cases hacc with
    | replied h => exact .answered h
    | moving _ h => exact .moved (mem_of_mem_flatMap_untraced h)
    | queued h => exact .submitted (.inl h)
    | submitting h => exact .submitted (.inr h)
    | @waits _ _ hhome hσ h =>
      have hmem := Stream.waiting_subset_requests h
      by_cases hinstall : ∃ c k r, p.shared.reconnecting = .install c k r
      · obtain ⟨c, k, r, hat⟩ := hinstall
        have hset : p.shared.home = p.shared.setSlot c k r := by simp only [home, hat]
        rw [homeOf, hset, setSlot] at hhome
        split at hhome
        · cases hhome
          exact .renewed hat hσ hmem
        · exact .waits hhome hσ hmem
      · rw [homeOf, home_eq_streams fun c k r hat => hinstall ⟨c, k, r, hat⟩] at hhome
        exact .waits hhome hσ hmem
  · exact .handled ht (Thread.rights_subset_requests hright)

/-! ## A request that is left behind -/

def untracedRequest : TrackedRequest := ⟨0, ⟨[], []⟩, [1], none⟩

/-- A shard router whose stream was renewed, with what the old channel and the new one hold. -/
def renewedStream (oldChannel newChannel : List TrackedRequest) : ShardRouter :=
  { oneStream with
    heap := [⟨"batcher", oldChannel, [], true, true, 0, 0, true, true⟩, .new "batcher" 0 0 newChannel []]
    streams := oneStream.setSlot 0 0 1
    taken := [untracedRequest] }

/-- **A request is left behind**: the stream fails and is renewed while `Forward` is between its check and the channel.
Then the request is enqueued in the channel of the old stream. -/
theorem stranded : ∃ p, Begins oneStreamReady ∧ ThreadPool.Run (Act permissive) oneStreamReady p ∧
    untracedRequest ∈ p.shared.taken ∧ ¬ Located p untracedRequest := by
  have hchecked : ThreadPool.Run (Act permissive) oneStreamReady (forwarding untracedRequest (.register 0)) :=
    run_forwarding rfl trivial fun _ => trivial
  have huntraced : ThreadPool.Run (Act permissive) oneStreamReady (forwarding untracedRequest (.enqueue 0)) :=
    hchecked.next 1 rfl (.forwardUntraced rfl)
  have hnotified : ThreadPool.Run (Act permissive) oneStreamReady (failed untracedRequest (.enqueue 0)) :=
    huntraced.trans (run_failed _ fun _ _ _ => trivial)
  have hrequested := hnotified.next 4 rfl (.reconnectTake rfl rfl)
  have hslot := hrequested.next 4 rfl (.reconnectRead rfl rfl)
  have hclosed := hslot.next 4 rfl (.renewClose rfl rfl rfl)
  have hmoved := hclosed.next 4 rfl (.renewEmpty rfl rfl rfl)
  have hcopied := hmoved.next 4 rfl (.renewCopy rfl rfl)
  have hinstalled := hcopied.next 4 rfl (.reconnectInstall rfl rfl)
  have hreturned := hinstalled.next 3 rfl (.sendDone rfl rfl)
  have henqueued := hreturned.next 1 rfl (.forwardEnqueue rfl (by decide))
  refine ⟨⟨renewedStream [untracedRequest] [], [.client, .operator, .reconnectRoutine, .sendRequests 1 .select,
    .readResponses 1 .receive, .readConfigRequests]⟩, begins_oneStreamReady, henqueued, mem_singleton_self _, ?_⟩
  intro hlocated
  cases hlocated with
  | answered h | moved h => cases h
  | handled ht h =>
    simp only [mem_cons, not_mem_nil, or_false] at ht
    rcases ht with rfl | rfl | rfl | rfl | rfl | rfl <;> cases h
  | submitted h => rcases h with h | h <;> cases h
  | renewed hat => cases hat
  | waits hs hσ h =>
    cases ((rfl : some 1 = _).trans hs)
    cases hσ
    cases h

/-! ## The requests of every other run -/

/-- **No request is left in a stream that was replaced**, in every run in which no call of `Forward` is under way to the
old stream when the map is copied: every request is answered, or a goroutine has it, or it waits in the stream that is
installed in its slot. -/
theorem located (hbegins : Begins p₀) (hrun : ThreadPool.RunWhen (Act v) Quiet p₀ p) (hx : x ∈ p.shared.taken) :
    Located p x :=
  (hrun.invariant Tracked.step hbegins.tracked).exists_place hx

theorem quiet_of_not_copy (h : ∀ c k s queue, p.shared.reconnecting ≠ .copy c k s queue) : Quiet p t :=
  fun c k s queue _ hat => absurd hat (h c k s queue)

/-- A request that is moved to the new stream. -/
theorem located_renewed : ∃ p, Begins oneStreamReady ∧ ThreadPool.RunWhen (Act permissive) Quiet oneStreamReady p ∧
    p.shared = renewedStream [] [untracedRequest] ∧ Located p untracedRequest := by
  have hchecked := @run_forwarding untracedRequest Quiet rfl (quiet_of_not_copy nofun)
    fun _ => quiet_of_not_copy nofun
  have huntraced : ThreadPool.RunWhen (Act permissive) Quiet oneStreamReady (forwarding untracedRequest (.enqueue 0)) :=
    hchecked.next 1 rfl (quiet_of_not_copy nofun) (.forwardUntraced rfl)
  have hnotified : ThreadPool.RunWhen (Act permissive) Quiet oneStreamReady (failed untracedRequest (.enqueue 0)) :=
    huntraced.trans (run_failed _ fun _ _ hidle => quiet_of_not_copy (by simp [hidle]))
  have henqueued := hnotified.next 1 rfl (quiet_of_not_copy nofun) (.forwardEnqueue rfl (by decide))
  have hrequested := henqueued.next 3 rfl (quiet_of_not_copy nofun) (.reconnectTake rfl rfl)
  have hslot := hrequested.next 3 rfl (quiet_of_not_copy nofun) (.reconnectRead rfl rfl)
  have hclosed := hslot.next 3 rfl (quiet_of_not_copy nofun) (.renewClose rfl rfl rfl)
  have htaken := hclosed.next 3 rfl (quiet_of_not_copy nofun) (.renewTake rfl rfl rfl)
  have hput := htaken.next 3 rfl (quiet_of_not_copy nofun) (.renewPut rfl (by decide))
  have hmoved := hput.next 3 rfl (quiet_of_not_copy nofun) (.renewEmpty rfl rfl rfl)
  have hcopied := hmoved.next 3 rfl (by
    rintro c k s queue - hat
    cases hat
    refine ⟨fun u hu => ?_, fun σ hσ => ?_⟩
    · change u ∈ [.client, .operator, .sendRequests 0 .select, .reconnectRoutine, .readConfigRequests] at hu
      simp only [mem_cons, not_mem_nil, or_false] at hu
      rcases hu with rfl | rfl | rfl | rfl | rfl <;> exact id
    · cases hσ
      rfl) (.renewCopy rfl rfl)
  have hinstalled := hcopied.next 3 rfl (quiet_of_not_copy nofun) (.reconnectInstall rfl rfl)
  exact ⟨_, begins_oneStreamReady, hinstalled, rfl, located begins_oneStreamReady hinstalled (mem_singleton_self _)⟩

end Arma.Router
