import Arma.Batcher.Verify

/-!
# Sending a fragment and letting go of its requests

Model of `BroadcastControlEvent` (`node/batcher/control_event_broadcaster.go`), of `SendBAF`, and of the order in which
`Batcher.SoftStop` and `Batcher.Stop` shut down the broadcaster and the role.

* A broadcast goes in rounds: the senders that failed are tried again after a delay, until enough of them have
  succeeded or a context is cancelled.
* `SendBAF` only logs the error of a cancelled broadcast, and the channel that the role waits for is closed in any case.
  Then the requests of the batch are removed from the mem pool.
* The broadcaster is stopped before the role.

**`Attesting.Reachable.removed_iff`**: whenever requests are removed, the fragment has reached `n - f` senders iff its
broadcast was not cut short by a cancelled context, which can only happen after a stop has begun.
`Attesting.removed_unsent` is a run in which the requests of a batch are removed and its fragment has reached nobody.
-/

namespace Arma

open List

/-! ## The broadcast -/

/-- `ControlEventBroadcaster`: how many senders it has, and how many parties, and faulty ones, it reckons with. -/
structure ControlEventBroadcaster where
  senders : Nat
  n : Nat
  f : Nat
  deriving DecidableEq, Repr

/-- The number of senders that have to succeed. -/
def ControlEventBroadcaster.threshold (b : ControlEventBroadcaster) : Nat := b.n - b.f

/-- Where `BroadcastControlEvent` stands. -/
inductive BroadcastPhase where
  | sending
  | waiting
  | returned (err : Option String)
  deriving DecidableEq, Repr

/-- A call of `BroadcastControlEvent`: the senders to be tried next, those that have sent the event, and whether a
cancelled context has ended the call. -/
structure Broadcast where
  retrySenders : List Nat
  delivered : Finset Nat
  phase : BroadcastPhase
  cut : Bool

namespace Broadcast

def start (b : ControlEventBroadcaster) : Broadcast := ⟨range b.senders, ∅, .sending, false⟩

/-- One step of a call, where the input context and the broadcaster's context may be cancelled. -/
inductive Step (b : ControlEventBroadcaster) (inputDone objectDone : Bool) (s : Broadcast) : Broadcast → Prop
  /-- A round: each sender succeeds or fails, and the failed ones are collected in the order in which they fail. -/
  | round {failed} (hat : s.phase = .sending) (sent : Nat → Bool)
      (hfailed : failed.Perm (s.retrySenders.filter fun i => !sent i)) :
      Step b inputDone objectDone s { s with
        retrySenders := failed
        delivered := s.delivered ∪ (s.retrySenders.filter sent).toFinset
        phase := if b.threshold ≤ b.senders - failed.length then .returned none else .waiting }
  | retry (hat : s.phase = .waiting) : Step b inputDone objectDone s { s with phase := .sending }
  | inputCancelled (hat : s.phase = .waiting) (hdone : inputDone = true) : Step b inputDone objectDone s { s with
        phase := .returned (some "broadcast cancelled by input context, context canceled")
        cut := true }
  | objectCancelled (hat : s.phase = .waiting) (hdone : objectDone = true) : Step b inputDone objectDone s { s with
        phase := .returned (some "broadcast cancelled by object context, context canceled")
        cut := true }

variable {b : ControlEventBroadcaster} {inputDone objectDone : Bool} {s s' : Broadcast}

/-- A sender is to be tried again, or it has sent the event. -/
structure Counted (b : ControlEventBroadcaster) (retrySenders : List Nat) (delivered : Finset Nat) : Prop where
  nodup : retrySenders.Nodup
  subset : ∀ i ∈ retrySenders, i < b.senders
  delivered_eq : delivered = Finset.range b.senders \ retrySenders.toFinset

variable {retrySenders failed : List Nat} {delivered : Finset Nat}

theorem Counted.card_delivered (h : Counted b retrySenders delivered) :
    delivered.card = b.senders - retrySenders.length := by
  have hsubset : retrySenders.toFinset ⊆ Finset.range b.senders := fun i hi => by
    simpa using h.subset i (mem_toFinset.mp hi)
  rw [h.delivered_eq, Finset.card_sdiff_of_subset hsubset, Finset.card_range, toFinset_card_of_nodup h.nodup]

theorem Counted.round (h : Counted b retrySenders delivered) {sent}
    (hfailed : failed.Perm (retrySenders.filter fun i => !sent i)) :
    Counted b failed (delivered ∪ (retrySenders.filter sent).toFinset) where
  nodup := hfailed.nodup_iff.mpr (h.nodup.filter _)
  subset i hi := h.subset i (mem_filter.mp (hfailed.mem_iff.mp hi)).1
  delivered_eq := by
    ext i
    simp only [h.delivered_eq, Finset.mem_union, Finset.mem_sdiff, Finset.mem_range, mem_toFinset,
      mem_filter, hfailed.mem_iff]
    by_cases hmem : i ∈ retrySenders
    · cases sent i <;> simp [hmem, h.subset i hmem]
    · simp [hmem]

/-- When the call has returned, enough senders have sent the event iff the call was not cut short. -/
structure Inv (b : ControlEventBroadcaster) (s : Broadcast) : Prop where
  counted : Counted b s.retrySenders s.delivered
  phase : match s.phase with
    | .sending => s.cut = false
    | .waiting => s.cut = false ∧ s.delivered.card < b.threshold
    | .returned _ => b.threshold ≤ s.delivered.card ↔ s.cut = false

theorem inv_start (b) : (start b).Inv b where
  counted :=
    { nodup := nodup_range
      subset := fun i hi => by simpa [start] using hi
      delivered_eq := by
        ext i
        simp [start] }
  phase := rfl

theorem Step.inv (h : Step b inputDone objectDone s s') (hs : s.Inv b) : s'.Inv b := by
  have hphase := hs.phase
  cases h with
  | @round failed hat _ hfailed =>
    rw [hat] at hphase
    have hcounted := hs.counted.round hfailed
    by_cases henough : b.threshold ≤ b.senders - failed.length
    · rw [if_pos henough]
      refine ⟨hcounted, iff_of_true ?_ hphase⟩
      rw [hcounted.card_delivered]
      exact henough
    · rw [if_neg henough]
      refine ⟨hcounted, hphase, ?_⟩
      rw [hcounted.card_delivered]
      exact Nat.lt_of_not_le henough
  | retry hat =>
    rw [hat] at hphase
    exact ⟨hs.counted, hphase.1⟩
  | inputCancelled hat | objectCancelled hat =>
    rw [hat] at hphase
    exact ⟨hs.counted, iff_of_false (Nat.not_le.mpr hphase.2) (by simp)⟩

theorem Step.cut_eq (h : Step b inputDone objectDone s s') (hnone : inputDone = false ∧ objectDone = false) :
    s'.cut = s.cut := by
  cases h with
  | round | retry => rfl
  | inputCancelled _ hdone => simp [hnone.1] at hdone
  | objectCancelled _ hdone => simp [hnone.2] at hdone

end Broadcast

/-! ## The role and the stop -/

/-- How far `SoftStop` or `Stop` of the batcher has come. -/
inductive Stopping where
  | running
  /-- `controlEventBroadcaster.Stop` was called: its context is cancelled. -/
  | broadcasterStopped
  /-- The role's stop channel is closed. -/
  | roleStopped
  /-- The role's context is cancelled, from which the contexts of its sends are derived. -/
  | roleCancelled
  deriving DecidableEq, Repr

/-- An execution of `removeRequestsByIDs`: the fragment of the batch, the senders that have sent it then, and whether
its broadcast was cut short. -/
structure Removal where
  baf : BAF
  delivered : Finset Nat
  cut : Bool

/-- A batcher's role with the broadcast that it waits for. Those that it no longer waits for have no effect on it. -/
structure Attesting (W : Wire) (party : PartyID) (shard : ShardID) where
  role : BatcherRole W party shard
  send : Option Broadcast
  stopping : Stopping
  removed : List Removal

namespace Attesting

variable {W : Wire} {party : PartyID} {shard : ShardID} {b : ControlEventBroadcaster} {s s' : Attesting W party shard}

/-- A role with which no broadcast was started yet. -/
def fresh (role : BatcherRole W party shard) : Attesting W party shard := ⟨role, none, .running, []⟩

/-- One step of the role, of the broadcast or of the stop. -/
inductive Step (b : ControlEventBroadcaster) (s : Attesting W party shard) : Attesting W party shard → Prop
  | role {r} (hstep : s.role.Step r) (hstop : r.stopChan = s.role.stopChan) : Step b s { s with role := r }
  | startSend {baf} (hat : s.role.control = .startSend baf) :
      Step b s { s with role := { s.role with control := .awaitSend baf }, send := some (.start b) }
  | broadcast {baf send send'} (hat : s.role.control = .awaitSend baf) (hsend : s.send = some send)
      (hstep : Broadcast.Step b (s.stopping = .roleCancelled) (s.stopping ≠ .running) send send') :
      Step b s { s with send := some send' }
  /-- `SendBAF` has returned, with whatever result, and the role takes that from its `select`. -/
  | sendDone {baf send err}
      (hat : s.role.control = .awaitSend baf) (hsend : s.send = some send) (hdone : send.phase = .returned err) :
      Step b s { s with
        role := { s.role with
          seq := s.role.seq + 1
          control := if s.role.primary = party then .waitForSecondaries else .receive }
        removed := s.removed ++ [⟨baf, send.delivered, send.cut⟩] }
  | stopBroadcaster (hat : s.stopping = .running) : Step b s { s with stopping := .broadcasterStopped }
  | closeStopChan (hat : s.stopping = .broadcasterStopped) :
      Step b s { s with role := { s.role with stopChan := true }, stopping := .roleStopped }
  | cancelBatch (hat : s.stopping = .roleStopped) : Step b s { s with stopping := .roleCancelled }

/-- What a batcher with such a role can come to. -/
def Reachable (b : ControlEventBroadcaster) (s : Attesting W party shard) : Prop :=
  ∃ role, Relation.ReflTransGen (Step b) (fresh role) s

/-- The broadcast keeps its invariant, and the removals keep what it says of them. -/
structure Inv (b : ControlEventBroadcaster) (s : Attesting W party shard) : Prop where
  send : ∀ send, s.send = some send → send.Inv b ∧ (send.cut = true → s.stopping ≠ .running)
  removed : ∀ removal ∈ s.removed, (b.n - b.f ≤ removal.delivered.card ↔ removal.cut = false) ∧
    (removal.cut = true → s.stopping ≠ .running)

theorem inv_fresh (role : BatcherRole W party shard) : (fresh role).Inv b :=
  ⟨by simp [fresh], by simp [fresh]⟩

theorem Inv.stop (hs : s.Inv b) {role : BatcherRole W party shard} {stopping}
    (hstop : s.stopping ≠ .running → stopping ≠ .running) : Inv b { s with role, stopping } where
  send send hsend := ⟨(hs.send send hsend).1, fun hcut => hstop ((hs.send send hsend).2 hcut)⟩
  removed removal hmem := ⟨(hs.removed removal hmem).1, fun hcut => hstop ((hs.removed removal hmem).2 hcut)⟩

theorem Step.inv (h : Step b s s') (hs : s.Inv b) : s'.Inv b := by
  cases h with
  | role => exact hs.stop id
  | startSend =>
    refine ⟨fun send hsend => ?_, hs.removed⟩
    cases hsend
    exact ⟨Broadcast.inv_start b, nofun⟩
  | @broadcast _ send _ _ hsend hstep =>
    obtain ⟨hinv, hcut⟩ := hs.send send hsend
    refine ⟨fun send'' hsend'' => ?_, hs.removed⟩
    cases hsend''
    refine ⟨hstep.inv hinv, fun hcut' hrunning => ?_⟩
    change s.stopping = .running at hrunning
    -- while nobody stops the batcher, no context is cancelled
    rw [hstep.cut_eq ⟨by simp [hrunning], by simp [hrunning]⟩] at hcut'
    exact hcut hcut' hrunning
  | @sendDone _ send _ _ hsend hdone =>
    obtain ⟨hinv, hcut⟩ := hs.send send hsend
    refine ⟨hs.send, fun removal hmem => ?_⟩
    rcases mem_append.mp hmem with hmem | hmem
    · exact hs.removed removal hmem
    · obtain rfl := mem_singleton.mp hmem
      have hphase := hinv.phase
      rw [hdone] at hphase
      exact ⟨hphase, hcut⟩
  | stopBroadcaster | closeStopChan | cancelBatch => exact hs.stop (fun _ => nofun)

theorem Reachable.inv (h : Reachable b s) : s.Inv b := by
  obtain ⟨role, hrun⟩ := h
  induction hrun with
  | refl => exact inv_fresh role
  | tail _ hstep ih => exact hstep.inv ih

/-- **When the requests of a batch are removed**, its fragment has been sent by `n - f` senders iff the broadcast of the
fragment was not cut short by a cancelled context. That happens only when the batcher is being stopped. -/
theorem Reachable.removed_iff (h : Reachable b s) :
    ∀ removal ∈ s.removed, (b.n - b.f ≤ removal.delivered.card ↔ removal.cut = false) ∧
      (removal.cut = true → s.stopping ≠ .running) :=
  h.inv.removed

/-! ## A secondary of four parties -/

def fourSenders : ControlEventBroadcaster := ⟨4, 4, 1⟩

/-- The secondary takes a batch of its primary and stores it, and starts the broadcast of its fragment. -/
theorem exists_sending (W : Wire) : ∃ (role : BatcherRole W 1 1) (baf : BAF), role.control = .awaitSend baf ∧
    Reachable fourSenders ⟨role, some (.start fourSenders), .running, []⟩ := by
  have hpart : (BatcherRole.secondaryRole W 0).ledger.part 2 = .ok (newBatchLedgerPart W (.empty 1 2)) := rfl
  obtain ⟨ledger, happend⟩ := BatchLedgerArray.exists_append hpart rfl 0
    (BatcherRole.batchSignedUnder W 0).requests (BatcherRole.batchSignedUnder W 0).digest
    (BatcherRole.batchSignedUnder W 0).primarySignature
  have hreceived : Relation.ReflTransGen (Step fourSenders) (fresh (BatcherRole.secondaryRole W 0)) _ :=
    .single (.role (.received rfl (BatcherRole.batchSignedUnder W 0)) rfl)
  have hverified := hreceived.tail
    (.role (.verified rfl (fun _ => .ok []) (BatcherRole.verifyBatch_secondaryRole W 0 0)) rfl)
  have hstored := hverified.tail (.role (.appendPulled rfl happend) rfl)
  have hsigned := hstored.tail (.role (.signPulled rfl (fun msg => .ok (1 :: msg)) rfl) rfl)
  exact ⟨_, _, rfl, _, hsigned.tail (.startSend rfl)⟩

/-- If all senders succeed at once, four of them have sent the fragment when the requests are removed. -/
theorem removed_sent : ∃ (s : Attesting refWire 1 1) (removal : Removal), Reachable fourSenders s ∧
    s.removed = [removal] ∧ fourSenders.n - fourSenders.f ≤ removal.delivered.card := by
  obtain ⟨role, baf, hat, hstart, hrun⟩ := exists_sending refWire
  have hsent := hrun.tail (.broadcast hat rfl (.round rfl (fun _ => true) (.refl _)))
  have hdone := hsent.tail (.sendDone hat rfl rfl)
  have hreach : Reachable fourSenders _ := ⟨hstart, hdone⟩
  exact ⟨_, _, hreach, rfl, (hreach.removed_iff _ (mem_singleton.mpr rfl)).1.mpr rfl⟩

/-- **The requests of a batch are removed and nobody has its fragment**: no consenter can be reached, and while the
broadcast waits for its next round the batcher is stopped. The broadcaster is stopped first, so `SendBAF` returns
before the role is told to stop. -/
theorem removed_unsent : ∃ (s : Attesting refWire 1 1) (removal : Removal), Reachable fourSenders s ∧
    s.removed = [removal] ∧ removal.delivered.card < fourSenders.n - fourSenders.f := by
  obtain ⟨role, baf, hat, hstart, hrun⟩ := exists_sending refWire
  have hfailed := hrun.tail (.broadcast hat rfl (.round rfl (fun _ => false) (.refl _)))
  have hstopped := hfailed.tail (.stopBroadcaster rfl)
  have hcancelled := hstopped.tail (.broadcast hat rfl (.objectCancelled rfl rfl))
  have hdone := hcancelled.tail (.sendDone hat rfl rfl)
  have hnobody : (∅ : Finset Nat).card < fourSenders.n - fourSenders.f := by decide
  exact ⟨_, _, ⟨hstart, hdone⟩, rfl, hnobody⟩

end Attesting

end Arma
