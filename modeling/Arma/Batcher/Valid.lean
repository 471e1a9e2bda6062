import Arma.Batcher.Node

/-!
# A secondary attests only to valid requests

`VerifyBatchedRequests` does not verify a request that is in the mem pool. So what a secondary attests to is valid only
if whatever is in the pool is valid under the config of the moment. Requests come into the pool from handlers, which
have verified them, and from resubmissions, of batches that were verified when they were attested to; a reconfiguration
prunes the pool.

**`attested_valid`**: in every run in which no handler submits a request that it has verified under another config,
every batch that was attested to had valid requests only, and the ids were those of its requests.

A handler can be late (`attested_invalid`). It verifies a request, the batcher is reconfigured and its pool is pruned
and restarted, and only then the handler submits the request. `Net.Stop` does not wait for handlers, and `Submit` does
not verify. From then on the request passes as verified under the new config.
-/

namespace Arma

open Arma.Lib List Function BatcherRole BatchLedgerArray

theorem BatcherRole.Step.configSequence_eq {W : Wire} {party : PartyID} {shard : ShardID}
    {r r' : BatcherRole W party shard} (h : r.Step r') : r'.configSequence = r.configSequence := by
  cases h <;> rfl

namespace BatcherNode

variable {W : Wire} {party : PartyID} {shard : ShardID} {n : Nat}
  {verifier : ConfigSequence → RequestsInspectorVerifier} {event : NodeEvent} {s s' : BatcherNode W party shard n}

/-! ## The invariant -/

def Valid (W : Wire) (verifier : ConfigSequence → RequestsInspectorVerifier) (configSequence : ConfigSequence)
    (requests : List Bytes) : Prop :=
  ∀ request ∈ requests, (verifier configSequence).verifyRequest W request = .ok ()

/-- The batch of a fragment is in the ledger, and was valid under the config of the fragment. -/
structure Backed (verifier : ConfigSequence → RequestsInspectorVerifier) (ledger : BatchLedgerArray W shard)
    (configSequence : ConfigSequence) (baf : BAF) : Prop where
  le : baf.configSequence ≤ configSequence
  stored : ∃ batch, ledger.retrieveBatchByNumber baf.primary baf.seq = .ok (some batch) ∧
    Valid W verifier baf.configSequence batch.requests

/-- What the role holds in its hands. -/
def InHand (verifier : ConfigSequence → RequestsInspectorVerifier) (s : BatcherNode W party shard n) : Prop :=
  match s.role.control with
  | .createBAF currentBatch _ => Valid W verifier s.role.configSequence currentBatch
  | .appendOwn currentBatch _ baf => Valid W verifier s.role.configSequence currentBatch ∧
      baf.primary = party ∧ baf.seq = s.role.seq ∧ baf.configSequence = s.role.configSequence
  | .appendPulled batch => Valid W verifier s.role.configSequence batch.requests ∧
      s.reqIDs = batch.requests.map (defaultRequestID W)
  | .attest batch => Valid W verifier s.role.configSequence batch.requests ∧
      s.reqIDs = batch.requests.map (defaultRequestID W) ∧
      ∃ stored, s.role.ledger.retrieveBatchByNumber s.role.primary s.role.seq = .ok (some stored) ∧
        stored.requests = batch.requests
  | .startSend baf => Backed verifier s.role.ledger s.role.configSequence baf
  | _ => True

/-- A resubmission goes over fragments of this batcher, and leaves out the verification of valid requests only. -/
structure Resubmits (W : Wire) (verifier : ConfigSequence → RequestsInspectorVerifier) (sent : List BAF)
    (configSequence : ConfigSequence) (resubmission : Resubmission) : Prop where
  sent : ∀ baf ∈ resubmission.bafs, baf ∈ sent
  valid : resubmission.reverify = false → Valid W verifier configSequence resubmission.requests

/-- What holds in every run in which no handler is late. -/
structure Vetted (verifier : ConfigSequence → RequestsInspectorVerifier) (s : BatcherNode W party shard n) : Prop where
  pool : s.pool.Inv (defaultRequestID W)
  sending : s.Sending
  held : ∀ reqID request, s.pool.content.held reqID = some request → s.verifyRequest verifier request = .ok ()
  handlers : ∀ handler ∈ s.handlers, (verifier handler.configSequence).verifyRequest W handler.request = .ok ()
  hand : s.InHand verifier
  sent : ∀ baf ∈ s.sent, Backed verifier s.role.ledger s.role.configSequence baf
  pending : ∀ change, s.change = some change →
    ∀ baf ∈ change.state.pending, baf.shard = shard → baf.signer = party → baf ∈ s.sent
  notifying : ∀ resubmission, s.notifying = some resubmission →
    Resubmits W verifier s.sent s.role.configSequence resubmission
  replicating : ∀ resubmission, s.replicating = some resubmission →
    Resubmits W verifier s.sent s.role.configSequence resubmission
  verification : ∀ workers, s.verification = some workers → ∃ batch, s.role.control = .verify batch ∧
    (verifier s.role.configSequence).Checked W batch.requests workers
  attested : ∀ attestation ∈ s.attested, attestation.reqIDs = attestation.batch.requests.map (defaultRequestID W) ∧
      Valid W verifier attestation.configSequence attestation.batch.requests

/-- The condition on a step: a handler submits only what it has verified under the config of the moment. -/
def InTime (s : BatcherNode W party shard n) : NodeEvent → Prop
  | .submit configSequence => configSequence = s.role.configSequence
  | _ => True

/-! ## What a step keeps -/

theorem Step.configSequence_le (h : Step verifier event s s') : s.role.configSequence ≤ s'.role.configSequence := by
  cases h with
  | role _ _ hstep | enterRole _ _ hstep =>
    exact hstep.configSequence_eq ▸ UInt64.le_refl _
  | reconfigure _ _ _ _ _ hconfig hnew =>
    exact (configureBatcher_eq_ok hnew).configSequence ▸ hconfig
  | crash _ _ hconfig hnew => exact (configureBatcher_eq_ok hnew).configSequence ▸ hconfig
  | _ => exact UInt64.le_refl _

theorem Backed.step (h : Step verifier event s s') (hs : s.Sending) {baf}
    (hbaf : Backed verifier s.role.ledger s.role.configSequence baf) :
    Backed verifier s'.role.ledger s'.role.configSequence baf where
  le := UInt64.le_trans hbaf.le h.configSequence_le
  stored := by
    obtain ⟨batch, hbatch, hvalid⟩ := hbaf.stored
    exact ⟨batch, retrieveBatchByNumber_of_prefix (h.batches_prefix hs baf.primary) hbatch, hvalid⟩

theorem Vetted.held_update (hs : s.Vetted verifier) {held new} (hnew : s.verifyRequest verifier new = .ok ())
    (hheld : held = update s.pool.content.held (defaultRequestID W new) (some new)) :
    ∀ reqID request, held reqID = some request → s.verifyRequest verifier request = .ok () := by
  intro reqID request h
  rw [hheld] at h
  by_cases hid : reqID = defaultRequestID W new
  · rw [hid, update_self] at h
    exact Option.some.inj h ▸ hnew
  · rw [update_of_ne hid] at h
    exact hs.held reqID request h

section

variable {resubmission resubmission' turn pool} (hr : Resubmits W verifier s.sent s.role.configSequence resubmission)
  (hs : s.Vetted verifier)
  (hstep : Resubmission.Step W (s.verifyRequest verifier) s.role.ledger s.role.configSequence s.pool resubmission
    turn pool resubmission')
include hr hs hstep

theorem Resubmits.held :
    ∀ reqID request, pool.content.held reqID = some request → s.verifyRequest verifier request = .ok () := by
  obtain ⟨-, -, hsame | ⟨new, -, hmem, hverified, -, hupdate⟩⟩ := hstep.pool_spec hs.pool
  · exact hsame ▸ hs.held
  · refine hs.held_update ?_ hupdate
    cases hreverify : resubmission.reverify with
    | true => exact hverified hreverify
    | false => exact hr.valid hreverify new hmem

/-- A resubmission goes on. A fragment of the config of the moment has a valid batch. -/
theorem Resubmits.step : Resubmits W verifier s.sent s.role.configSequence resubmission' := by
  cases hstep with
  | @fragment baf _ _ batch hbatch =>
    refine ⟨fun other hother => hr.sent other (mem_cons_of_mem _ hother), fun hreverify => ?_⟩
    have hbaf := hs.sent baf (hr.sent baf mem_cons_self)
    obtain ⟨batch', hbatch', hvalid⟩ := hbaf.stored
    obtain rfl : batch' = batch := by simpa [hbatch] using hbatch'.symm
    have hconfig : baf.configSequence = s.role.configSequence :=
      UInt64.le_antisymm hbaf.le (UInt64.not_lt.mp (of_decide_eq_false hreverify))
    exact hconfig ▸ hvalid
  | dropped => exact ⟨hr.sent, nofun⟩
  | submitted =>
    exact ⟨hr.sent, fun hreverify request hrequest => hr.valid hreverify request (mem_cons_of_mem _ hrequest)⟩

end

theorem Vetted.held_take (hs : s.Vetted verifier) {held : String → Option Bytes} {reqIDs : List String}
    (hheld : held = fun reqID => if reqID ∈ reqIDs then none else s.pool.content.held reqID) :
    ∀ reqID request, held reqID = some request → s.verifyRequest verifier request = .ok () := by
  intro reqID request h
  rw [hheld] at h
  simp only at h
  split at h
  · cases h
  · exact hs.held reqID request h

/-- **What is in the pool is valid under the config of the moment.** -/
theorem Step.held (h : Step verifier event s s') (hok : s.InTime event) (hs : s.Vetted verifier) :
    ∀ reqID request, s'.pool.content.held reqID = some request → s'.verifyRequest verifier request = .ok () := by
  cases h with
  | role _ _ hstep | enterRole _ _ hstep =>
    simp only [verifyRequest, hstep.configSequence_eq]
    exact hs.held
  | restart _ _ hpool =>
    intro reqID request hheld
    rw [(Pool.restart_spec hs.pool hpool).2.1] at hheld
    exact hs.held reqID request hheld
  | noRequests _ _ hpool =>
    intro reqID request hheld
    rw [(Pool.nextRequests_spec hs.pool hpool).2.2.2, map_nil, Holdings.take_nil] at hheld
    exact hs.held reqID request hheld
  | batched _ _ hpool =>
    exact hs.held_take (congrArg Holdings.held (Pool.nextRequests_spec hs.pool hpool).2.2.2)
  | sendDone _ hpool => exact hs.held_take (Pool.removeRequests_spec hs.pool hpool).2.2
  | revive hat hstep | offer hat hstep => exact (hs.notifying _ hat).held hs hstep
  | replicateRevive hat hstep => exact (hs.replicating _ hat).held hs hstep
  | @submit _ handler _ _ hat hsubmit =>
    obtain ⟨-, -, hsame | ⟨-, hstored⟩, -⟩ := Pool.submit_spec hs.pool hsubmit
    · exact hsame ▸ hs.held
    · have hverified := hs.handlers handler hat
      rw [show handler.configSequence = s.role.configSequence from hok] at hverified
      exact hs.held_update hverified (congrArg Holdings.held hstored)
  | tick expired =>
    intro reqID request hheld
    rw [(Pool.tick_spec hs.pool expired).2.2] at hheld
    exact hs.held reqID request hheld
  | close | crash => intro reqID request hheld; cases hheld
  | reconfigure config _ _ _ _ _ hnew hpool =>
    intro reqID request hheld
    rw [(Pool.prune_spec hs.pool hpool).2.2, Option.filter_eq_some_iff] at hheld
    rw [verifyRequest, (configureBatcher_eq_ok hnew).configSequence]
    cases hverify : (verifier config.configSequence).verifyRequest W request with
    | ok => rfl
    | error err => simp [hverify, Except.isOk, Except.toBool] at hheld
  | _ => exact hs.held

theorem Step.handlers (h : Step verifier event s s') (hs : s.Vetted verifier) :
    ∀ handler ∈ s'.handlers, (verifier handler.configSequence).verifyRequest W handler.request = .ok () := by
  cases h with
  | fromRouter hok hrouter =>
    intro handler hhandler
    rcases mem_cons.mp hhandler with rfl | hhandler
    · exact hrouter _ (not_not.mp fun hne => by simp [RequestsInspectorVerifier.verifyRequestFromRouter, hne] at hok)
    · exact hs.handlers handler hhandler
  | forwarded hok =>
    intro handler hhandler
    rcases mem_cons.mp hhandler with rfl | hhandler
    · exact hok
    · exact hs.handlers handler hhandler
  | submit => exact fun handler hhandler => hs.handlers handler (mem_of_mem_erase hhandler)
  | crash => exact nofun
  | _ => exact hs.handlers

/-! ### The verification of a batch -/

theorem Vetted.verification_eq_none (hs : s.Vetted verifier) (hne : ∀ batch, s.role.control ≠ .verify batch) :
    s.verification = none := by
  by_contra hsome
  obtain ⟨workers, hworkers⟩ := Option.ne_none_iff_exists'.mp hsome
  obtain ⟨batch, hat, -⟩ := hs.verification workers hworkers
  exact hne batch hat

/-- The requests of a batch that the pool contains are valid: they are the requests that it holds under their ids. -/
theorem Vetted.contains (hs : s.Vetted verifier) (hW : W.CollisionFree) {request}
    (h : s.pool.contains (defaultRequestID W request) = true) : s.verifyRequest verifier request = .ok () := by
  obtain ⟨other, hheld⟩ := Pool.held_of_contains hs.pool h
  obtain rfl : other = request := defaultRequestID_injective hW (hs.pool.requestID_eq hheld)
  exact hs.held _ other hheld

theorem Step.verification (h : Step verifier event s s') (hW : W.CollisionFree) (hs : s.Vetted verifier) :
    ∀ workers, s'.verification = some workers → ∃ batch, s'.role.control = .verify batch ∧
      (verifier s'.role.configSequence).Checked W batch.requests workers := by
  have hnone (hne : ∀ batch, s.role.control ≠ .verify batch) (workers : Strided String String n)
      (hworkers : s.verification = some workers) (P : Prop) : P := by
    cases (hs.verification_eq_none hne).symm.trans hworkers
  cases h with
  | role _ hat =>
    exact fun workers hworkers => hnone (fun batch hv => by simp [hv, Control.poolFree] at hat) workers hworkers _
  | enterRole _ hat | runReturn hat | noRequests _ hat | batched _ hat
  | signOwn hat | signPulled hat | startSend hat | sendDone hat =>
    exact fun workers hworkers => hnone (by simp [hat]) workers hworkers _
  | startVerify hat =>
    rintro workers ⟨⟩
    exact ⟨_, hat, RequestsInspectorVerifier.checked_start⟩
  | verifyWork hat hworkers hstep =>
    rintro _ ⟨⟩
    obtain ⟨batch, hat', hchecked⟩ := hs.verification _ hworkers
    obtain rfl := Control.verify.inj (hat.symm.trans hat')
    exact ⟨_, hat, hchecked.step hstep fun request _ hcontains => hs.contains hW hcontains⟩
  | complain | verified | reconfigure | crash => exact nofun
  | _ => exact hs.verification

/-! ### What the role holds in its hands -/

theorem retrieve_append {ledger ledger' : BatchLedgerArray W shard} {primary : PartyID} {seq : BatchSequence}
    {configSequence : ConfigSequence} {requests : List Bytes} {digest signature : Bytes}
    (h : ledger.append primary seq configSequence requests digest signature = .ok ledger') :
    ∃ batch, ledger'.retrieveBatchByNumber primary seq = .ok (some batch) ∧ batch.requests = requests := by
  obtain ⟨hseq, batch, -, hrequests, hbatches⟩ := append_eq_ok h
  refine ⟨batch, retrieveBatchByNumber_eq_some.mpr ?_, hrequests⟩
  rw [hbatches, update_self, hseq, getElem?_concat_length]

variable {r : BatcherRole W party shard}

theorem createBAF_place {sign seq primary digest primarySignature txCount baf}
    (h : r.createBAF sign seq primary digest txCount primarySignature = .ok baf) :
    baf.primary = primary ∧ baf.seq = seq ∧ baf.configSequence = r.configSequence := by
  simp only [BatcherRole.createBAF, createBAF, Outcome.orPanic_eq_ok, Outcome.bind_eq_ok] at h
  obtain ⟨signature, -, hret⟩ := h
  cases hret
  exact ⟨rfl, rfl, rfl⟩

/-- A step of the role that needs no verifier and no signer: a batch in its hands gets stored. -/
theorem Vetted.hand_role (hs : s.Vetted verifier) (hstep : s.role.Step r)
    (hat : s.role.control.poolFree = true ∨ s.role.control = .loop) :
    ({ s with role := r } : BatcherNode W party shard n).InHand verifier := by
  have hhand := hs.hand
  have hnot {control : Control} (hcontrol : s.role.control = control)
      (hfree : control.poolFree = false ∧ control ≠ .loop) (P : Prop) : P := by
    rcases hat with hat | hat
    · rw [hcontrol, hfree.1] at hat
      cases hat
    · exact absurd (hcontrol.symm.trans hat) hfree.2
  cases hstep with
  | appendOwn hcontrol happend =>
    simp only [InHand, hcontrol] at hhand ⊢
    obtain ⟨hvalid, hprimary, hseq, hconfig⟩ := hhand
    obtain ⟨batch, hbatch, hrequests⟩ := retrieve_append happend
    refine ⟨hconfig ▸ UInt64.le_refl _, batch, ?_, ?_⟩
    · rw [hprimary, hseq]
      exact hbatch
    · rw [hconfig, hrequests]
      exact hvalid
  | appendPulled hcontrol happend =>
    simp only [InHand, hcontrol] at hhand ⊢
    exact ⟨hhand.1, hhand.2, retrieve_append happend⟩
  | batched hcontrol | signOwn hcontrol | verified hcontrol | signPulled hcontrol =>
    exact hnot hcontrol ⟨rfl, nofun⟩ _
  | readState | notify | notifierReturn | stop => exact hhand
  | _ => exact trivial

theorem Step.hand (h : Step verifier event s s') (hn : 0 < n) (hs : s.Vetted verifier) : s'.InHand verifier := by
  have hhand := hs.hand
  cases h with
  | role _ hat hstep => exact hs.hand_role hstep (.inl hat)
  | enterRole _ hat hstep => exact hs.hand_role hstep (.inr hat)
  | batched _ _ hpool =>
    intro request hrequest
    obtain ⟨e, he, rfl⟩ := mem_map.mp hrequest
    exact hs.held e.1 e.2 ((Pool.nextRequests_spec hs.pool hpool).2.2.1 e he)
  | signOwn hat _ hbaf =>
    simp only [InHand, hat] at hhand
    exact ⟨hhand, createBAF_place hbaf⟩
  | verified hat hworkers hfinished hok =>
    obtain ⟨batch, hat', hchecked⟩ := hs.verification _ hworkers
    obtain rfl := Control.verify.inj (hat.symm.trans hat')
    obtain ⟨hreqIDs, hvalid⟩ := hchecked.eq_ok hn hfinished (verifyBatch_eq_ok.mp hok).requests
    exact ⟨hvalid, hreqIDs⟩
  | signPulled hat _ hbaf =>
    simp only [InHand, hat] at hhand
    obtain ⟨hvalid, -, stored, hstored, hrequests⟩ := hhand
    obtain ⟨hprimary, hseq, hconfig⟩ := createBAF_place hbaf
    refine ⟨hconfig ▸ UInt64.le_refl _, stored, ?_, ?_⟩
    · rw [hprimary, hseq]
      exact hstored
    · rw [hconfig, hrequests]
      exact hvalid
  | sendDone =>
    unfold InHand
    by_cases hp : s.role.primary = party <;> simp [hp]
  | reconfigure _ _ _ _ _ _ hnew =>
    simp [InHand, (configureBatcher_eq_ok hnew).control]
  | crash _ _ _ hnew => simp [InHand, boot, (configureBatcher_eq_ok hnew).control]
  | runReturn | noRequests | complain | startSend => exact trivial
  | _ => exact hhand

/-! ### What was sent and what is resubmitted -/

theorem Step.sent (h : Step verifier event s s') (hs : s.Vetted verifier) :
    ∀ baf ∈ s'.sent, Backed verifier s'.role.ledger s'.role.configSequence baf := by
  have hkept : ∀ baf ∈ s.sent, Backed verifier s'.role.ledger s'.role.configSequence baf :=
    fun baf hbaf => (hs.sent baf hbaf).step h hs.sending
  cases id h with
  | startSend hat =>
    intro baf hbaf
    rcases mem_cons.mp hbaf with rfl | hbaf
    · have hhand := hs.hand
      simp only [InHand, hat] at hhand
      exact hhand.step h hs.sending
    · exact hkept baf hbaf
  | _ => exact hkept

theorem Step.pending (h : Step verifier event s s') (hs : s.Vetted verifier) : ∀ change, s'.change = some change →
      ∀ baf ∈ change.state.pending, baf.shard = shard → baf.signer = party → baf ∈ s'.sent := by
  cases h with
  | restart | offer | resubmitted =>
    intro change' hchange'
    obtain ⟨change, hchange, rfl⟩ := Option.map_eq_some_iff.mp hchange'
    exact hs.pending change hchange
  | startSend =>
    intro change hchange baf hbaf hshard hsigner
    exact mem_cons_of_mem _ (hs.pending change hchange baf hbaf hshard hsigner)
  | readState _ _ _ _ _ _ hown =>
    rintro change ⟨⟩
    exact hown
  | reconfigure | crash => exact nofun
  | _ => exact hs.pending

theorem Resubmits.mono {sent sent' configSequence configSequence' resubmission}
    (hr : Resubmits W verifier sent configSequence resubmission) (hsent : sent ⊆ sent')
    (hconfig : configSequence' = configSequence) : Resubmits W verifier sent' configSequence' resubmission :=
  ⟨fun baf hbaf => hsent (hr.sent baf hbaf), hconfig ▸ hr.valid⟩

section

variable (h : Step verifier event s s') (hs : s.Vetted verifier)
include h hs

theorem Step.notifying : ∀ resubmission, s'.notifying = some resubmission →
      Resubmits W verifier s'.sent s'.role.configSequence resubmission := by
  cases h with
  | role _ _ hstep | enterRole _ _ hstep =>
    exact fun r hr => (hs.notifying r hr).mono (List.Subset.refl _) hstep.configSequence_eq
  | startSend => exact fun r hr => (hs.notifying r hr).mono (subset_cons_self _ _) rfl
  | notify _ _ hchange =>
    rintro _ ⟨⟩
    refine ⟨fun baf hbaf => ?_, fun _ => nofun⟩
    obtain ⟨hbaf, hfields⟩ := mem_filter.mp hbaf
    obtain ⟨hshard, hsigner, -⟩ := of_decide_eq_true hfields
    exact hs.pending _ hchange baf hbaf hshard hsigner
  | revive hat hstep | offer hat hstep =>
    rintro _ ⟨⟩
    exact (hs.notifying _ hat).step hs hstep
  | resubmitted | reconfigure | crash => exact nofun
  | _ => exact hs.notifying

theorem Step.replicating : ∀ resubmission, s'.replicating = some resubmission →
      Resubmits W verifier s'.sent s'.role.configSequence resubmission := by
  cases h with
  | role _ _ hstep | enterRole _ _ hstep =>
    exact fun r hr => (hs.replicating r hr).mono (List.Subset.refl _) hstep.configSequence_eq
  | startSend => exact fun r hr => (hs.replicating r hr).mono (subset_cons_self _ _) rfl
  | replicate _ hown =>
    rintro _ ⟨⟩
    exact ⟨hown, fun _ => nofun⟩
  | replicateRevive hat hstep =>
    rintro _ ⟨⟩
    exact (hs.replicating _ hat).step hs hstep
  | reconfigure _ _ _ hreplicated =>
    intro resubmission hsome
    cases hreplicated.symm.trans hsome
  | replicated | crash => exact nofun
  | _ => exact hs.replicating

theorem Step.attested_vetted :
    ∀ attestation ∈ s'.attested, attestation.reqIDs = attestation.batch.requests.map (defaultRequestID W) ∧
      Valid W verifier attestation.configSequence attestation.batch.requests := by
  cases h with
  | signPulled hat =>
    intro attestation hattestation
    rcases mem_append.mp hattestation with hold | hnew
    · exact hs.attested attestation hold
    · obtain rfl := mem_singleton.mp hnew
      have hhand := hs.hand
      simp only [InHand, hat] at hhand
      exact ⟨hhand.2.1, hhand.1⟩
  | _ => exact hs.attested

end

/-- **A step in which no handler is late keeps the invariant.** -/
theorem Step.vetted (h : Step verifier event s s') (hW : W.CollisionFree) (hn : 0 < n) (hok : s.InTime event)
    (hs : s.Vetted verifier) : s'.Vetted verifier where
  pool := h.pool_inv hs.pool
  sending := h.sending hs.sending
  held := h.held hok hs
  handlers := h.handlers hs
  hand := h.hand hn hs
  sent := h.sent hs
  pending := h.pending hs
  notifying := h.notifying hs
  replicating := h.replicating hs
  verification := h.verification hW hs
  attested := h.attested_vetted hs

theorem Init.vetted (h : s.Init) : s.Vetted verifier := by
  have hsending := h.sending
  obtain ⟨config, options, hnew⟩ := h
  exact
    { pool := Pool.inv_newPool options
      sending := hsending
      held := nofun
      handlers := nofun
      hand := by simp [InHand, boot, (configureBatcher_eq_ok hnew).control]
      sent := nofun
      pending := nofun
      notifying := nofun
      replicating := nofun
      verification := nofun
      attested := nofun }

/-! ## Two runs of a secondary -/

/-- Party 1 as a secondary of party 2, before it pulls. -/
def secondaryNode (W : Wire) (configSequence : ConfigSequence) (pool : Pool) : BatcherNode W 1 1 1 :=
  { boot { pairRole W 1 configSequence with primary := 2, control := .pullBatches } roomyOptions [] [] with pool }

theorem verifyBatch_pair {configSequence} (control : Control)
    {verifyBatchedRequests reqIDs} (h : verifyBatchedRequests twoRequests = .ok reqIDs) :
    ({ pairRole W 1 configSequence with primary := 2, control } : BatcherRole W 1 1).verifyBatch verifyBatchedRequests
      (batchSignedUnder W configSequence) = .ok reqIDs := by
  have haccepts := verifyBatch_eq_ok.mp (verifyBatch_secondaryRole W configSequence configSequence)
  exact verifyBatch_eq_ok.mpr ⟨haccepts.primary_eq, haccepts.shard_eq, haccepts.seq_eq,
    haccepts.requests_ne_nil, haccepts.digest, haccepts.signature, h⟩

/-- It attests to the first batch if its requests are valid or in the pool. -/
theorem exists_attested (configSequence : ConfigSequence) (pool : Pool) (hverify : ∀ request ∈ twoRequests, ∀ j,
      (firstConfigOnly configSequence).verifyIndex W pool.contains j request = .ok (defaultRequestID W request))
    (ok : BatcherNode W 1 1 1 → NodeEvent → Prop) (hok : ∀ s, ok s .other) :
    ∃ s, Run firstConfigOnly ok (secondaryNode W configSequence pool) s ∧
      s.attested = [⟨batchSignedUnder W configSequence, twoRequests.map (defaultRequestID W), configSequence⟩] := by
  have hfirst := hverify [7] mem_cons_self 0
  have hsecond := hverify [8] (by decide) 1
  have hpart : (pairRole W 1 configSequence).ledger.part 2 = .ok (newBatchLedgerPart W (.empty 1 2)) := rfl
  obtain ⟨ledger, happend⟩ := exists_append hpart rfl configSequence
    (batchSignedUnder W configSequence).requests (batchSignedUnder W configSequence).digest
    (batchSignedUnder W configSequence).primarySignature
  have hpulled : Run firstConfigOnly ok (secondaryNode W configSequence pool) _ :=
    .single ⟨_, .role rfl rfl (.pull rfl) rfl, hok _⟩
  have hreceived := hpulled.tail ⟨_, .role rfl rfl (.received rfl (batchSignedUnder W configSequence)) rfl, hok _⟩
  have hstarted := hreceived.tail ⟨_, .startVerify rfl rfl, hok _⟩
  have hworked := hstarted.tail
    ⟨_, .verifyWork rfl rfl (.work (w := 0) rfl Nat.two_pos rfl ⟨[7], rfl, hfirst⟩), hok _⟩
  have hworked' := hworked.tail
    ⟨_, .verifyWork rfl rfl (.work (w := 0) rfl Nat.one_lt_two rfl ⟨[8], rfl, hsecond⟩), hok _⟩
  have hfinished := hworked'.tail ⟨_, .verifyWork rfl rfl (.finish (w := 0) rfl le_rfl), hok _⟩
  have hverified := hfinished.tail ⟨_, .verified rfl rfl (fun w => Subsingleton.elim 0 w ▸ rfl)
    (verifyBatch_pair _ rfl), hok _⟩
  have hstored := hverified.tail ⟨_, .role rfl rfl (.appendPulled rfl happend) rfl, hok _⟩
  have hsigned := hstored.tail ⟨_, .signPulled rfl (fun msg => .ok (1 :: msg)) rfl, hok _⟩
  exact ⟨_, hsigned, rfl⟩

/-- **A secondary attests only to valid requests**: in every run, over any number of reconfigurations, role changes,
resubmissions and crashes, in which no handler submits a request that it has verified under another config, and for
whatever batches its primaries give it. Each batch that it has signed a fragment for had, under the config of that
time, valid requests only, and the ids that `verifyBatch` gave are those of the requests, index by index. -/
theorem attested_valid {s₀ : BatcherNode W party shard n} (hW : W.CollisionFree) (hn : 0 < n) (hinit : s₀.Init)
    (hrun : Run verifier InTime s₀ s) :
    ∀ attestation ∈ s.attested, attestation.reqIDs = attestation.batch.requests.map (defaultRequestID W) ∧
      ∀ request ∈ attestation.batch.requests,
        (verifier attestation.configSequence).verifyRequest W request = .ok () := by
  have hs : s.Vetted verifier := hrun.induct hinit.vetted fun hstep hok => hstep.vetted hW hn hok
  exact hs.attested

/-- The first batch of the primary, under the first config. -/
theorem attested_valid_firstConfig : ∃ (s : BatcherNode refWire 1 1 1) (attestation : Attestation),
    attestation ∈ s.attested ∧ attestation.batch.requests = twoRequests ∧
      attestation.reqIDs = attestation.batch.requests.map (defaultRequestID refWire) ∧
      ∀ request ∈ attestation.batch.requests,
        (firstConfigOnly attestation.configSequence).verifyRequest refWire request = .ok () := by
  have hentered : Run firstConfigOnly InTime (pairNode refWire 1) _ := .single ⟨_, .enterRole rfl rfl
      (.runSecondary rfl rfl (getPrimaryID_pair 0).1 (by decide) (height_pair (by decide) 0)) nofun nofun, trivial⟩
  have hrestarted : Run firstConfigOnly InTime (pairNode refWire 1) (secondaryNode refWire 0 (newPool roomyOptions)) :=
    hentered.tail ⟨_, .restart .same rfl rfl, trivial⟩
  obtain ⟨s, hrun, hattested⟩ := exists_attested 0 (newPool roomyOptions) (fun _ _ _ => rfl) InTime fun _ => trivial
  have hvalid := attested_valid ⟨Function.injective_id, fun _ => id⟩ Nat.one_pos (init_pairNode (by decide))
    (hrestarted.trans hrun)
  have hmem : _ ∈ s.attested := hattested ▸ mem_cons_self
  exact ⟨s, _, hmem, rfl, hvalid _ hmem⟩

theorem configureBatcher_again : configureBatcher W 1 (pairConfig 1) (pairRole W 1 0).ledger.disk =
    .ok (pairRole W 1 1) := by
  have hparties : (pairConfig 1).parties 1 = [1, 2] := rfl
  have hledger : newBatchLedgerArray W 1 [1, 2] (pairRole W 1 0).ledger.disk = .ok (pairRole W 1 1).ledger := by
    unfold newBatchLedgerArray
    rw [if_neg (by decide)]
    congr 2
    funext primary
    by_cases hp : primary ∈ [1, 2]
    · simp only [pairRole, disk, if_pos hp, Option.map_some]
      rfl
    · simp only [pairRole, disk, if_neg hp, Option.map_none]
  simp only [configureBatcher, batchersFromConfig_pair, hparties, hledger]
  rfl

/-- **A secondary attests to requests that are not valid**: two handlers have verified them under config sequence 0. The
batcher stops and is reconfigured to config sequence 1, under which they are not valid; its pool, which is empty, is
pruned and restarted. Then the handlers submit the requests. The primary sends a batch of them, and the secondary
attests to that without verifying them. -/
theorem attested_invalid : ∃ (s₀ s : BatcherNode refWire 1 1 1) (attestation : Attestation),
    refWire.CollisionFree ∧ s₀.Init ∧ Run firstConfigOnly (fun _ _ => True) s₀ s ∧ attestation ∈ s.attested ∧
      ∃ request ∈ attestation.batch.requests,
        (firstConfigOnly attestation.configSequence).verifyRequest refWire request ≠ .ok () := by
  have hforwarded : Run firstConfigOnly (fun _ _ => True) (pairNode refWire 1) _ :=
    .single ⟨_, .forwarded (verifyRequest_firstConfigOnly [7]).1, trivial⟩
  have hforwarded' := hforwarded.tail ⟨_, .forwarded (verifyRequest_firstConfigOnly [8]).1, trivial⟩
  have hstopped := hforwarded'.tail ⟨_, .stop, trivial⟩
  have hreturned := hstopped.tail ⟨_, .runReturn rfl rfl, trivial⟩
  have hboth := hreturned.tail ⟨_, .notifierReturn rfl rfl rfl, trivial⟩
  have hhalted := hboth.tail ⟨_, .halt rfl rfl, trivial⟩
  have hreconfigured := hhalted.tail ⟨_, .reconfigure (pairConfig 1) rfl rfl rfl rfl (by decide) configureBatcher_again
    rfl, trivial⟩
  have hentered := hreconfigured.tail ⟨_, .enterRole rfl rfl
    (.runSecondary rfl rfl (getPrimaryID_pair 1).1 (by decide) (height_pair (by decide) 1)) nofun nofun, trivial⟩
  have hrestarted := hentered.tail ⟨_, .restart .same rfl rfl, trivial⟩
  obtain ⟨pool, pool', hsubmit, hsubmit', hcontains⟩ : ∃ pool pool',
      (newPool roomyOptions).submit (defaultRequestID refWire) [8] = some (.ok (), pool) ∧
        pool.submit (defaultRequestID refWire) [7] = some (.ok (), pool') ∧
        ∀ request ∈ twoRequests, pool'.contains (defaultRequestID refWire request) = true :=
    ⟨_, _, rfl, rfl, forall_mem_cons.mpr ⟨rfl, forall_mem_singleton.mpr rfl⟩⟩
  have hsubmitted := hrestarted.tail ⟨_, .submit mem_cons_self hsubmit, trivial⟩
  have hsubmitted' := hsubmitted.tail ⟨_, .submit mem_cons_self hsubmit', trivial⟩
  obtain ⟨s, hrun, hattested⟩ := exists_attested 1 pool' (fun request hrequest _ => if_pos (hcontains request hrequest))
    (fun _ _ => True) fun _ => trivial
  refine ⟨_, s, _, ⟨Function.injective_id, fun _ => id⟩, init_pairNode (by decide), hsubmitted'.trans hrun,
    hattested ▸ mem_cons_self, [7], mem_cons_self, (verifyRequest_firstConfigOnly [7]).2⟩

end BatcherNode

end Arma
