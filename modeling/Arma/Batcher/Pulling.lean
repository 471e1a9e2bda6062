import Arma.Batcher.Attest
import Arma.Lib.Pull

/-!
# Pulling batches from the primary

Model of one call of `BatchPuller.PullBatches` (`node/batcher/puller.go`) and of what `runSecondary` does with its
channel. The puller is a client as in `Lib/Pull.lean`: the server's log is the primary's chain, the channel holds
100 batches and survives a failed stream, and at each connection the client asks for the batches from the height
of its own ledger on. That height counts the batches that `runSecondary` has stored. Those that wait in the
channel, and the one in its hands, are not among them.

**`PullCall.consecutive_iff`**: the batches pulled over the streams of one call are consecutive iff every stream that
gave anything was opened where the one before ended, which is when all batches pulled before were stored. Then no
batch of an honest primary fails `verifyBatch` for its sequence. `PullCall.repeated_batch` is a run in which one does.

`BatcherRole.InStep` ties the sequence that the role expects to the height of its ledger, for any batcher.
-/

namespace Arma

open Arma.Lib List BatchLedgerArray BatcherRole

variable {W : Wire} {party : PartyID} {shard : ShardID}

/-! ## The expected sequence and the ledger -/

/-- How many batches with the sequence that the role works on are in the ledger. -/
def Control.stored : Control → Option Nat
  | .loop | .returned => none
  | .attest _ | .startSend _ | .awaitSend _ => some 1
  | _ => some 0

/-- The points of `runPrimary` before a batch is stored. -/
def Control.asPrimary : Control → Bool
  | .waitForSecondaries | .nextRequests | .createBAF _ _ | .appendOwn _ _ _ => true
  | _ => false

namespace BatcherRole

variable {r r' : BatcherRole W party shard}

/-- The role expects the batch that its ledger lacks. -/
structure InStep (r : BatcherRole W party shard) : Prop where
  height : ∀ n, r.control.stored = some n → (r.ledger.batches r.primary).length = r.seq + n
  own : r.control.asPrimary = true → r.primary = party

theorem inStep_of_loop (hat : r.control = .loop) : r.InStep where
  height n hn := by simp [hat, Control.stored] at hn
  own h := by simp [hat, Control.asPrimary] at h

/-- A step that leaves the chain, the sequence and the kind of work as they are. -/
theorem InStep.of_eq (hr : r.InStep) (hledger : r'.ledger = r.ledger) (hprimary : r'.primary = r.primary)
    (hseq : r'.seq = r.seq) (hstored : r'.control.stored = r.control.stored)
    (hown : r'.control.asPrimary = true → r.control.asPrimary = true) : r'.InStep where
  height := by
    rw [hledger, hprimary, hseq, hstored]
    exact hr.height
  own h := hprimary.trans (hr.own (hown h))

theorem inStep_append {primary configSeq reqs digest signature ledger}
    (happend : r.ledger.append primary r.seq configSeq reqs digest signature = .ok ledger)
    (hprimary : r.primary = primary) {control} (hstored : control.stored = some 1)
    (hown : control.asPrimary = false) : ({ r with ledger, control } : BatcherRole W party shard).InStep where
  height n hn := by
    obtain rfl : n = 1 := Option.some.inj (hn.symm.trans hstored)
    obtain ⟨hseq, batch, -, -, hbatches⟩ := append_eq_ok happend
    subst hprimary
    rw [congrFun hbatches r.primary, Function.update_self, length_append, hseq]
    rfl
  own h := by simp [hown] at h

theorem Step.inStep (h : r.Step r') (hr : r.InStep) : r'.InStep := by
  cases h with
  | runReturn => exact ⟨fun n hn => by simp [Control.stored] at hn, fun h => by simp [Control.asPrimary] at h⟩
  | newTerm | stopped => exact inStep_of_loop rfl
  | runPrimary _ _ _ hseq =>
    refine ⟨fun n hn => ?_, fun _ => rfl⟩
    obtain rfl : 0 = n := Option.some.inj hn
    exact (height_eq_ok hseq).symm
  | runSecondary _ _ _ _ hseq =>
    refine ⟨fun n hn => ?_, fun h => by simp [Control.asPrimary] at h⟩
    obtain rfl : 0 = n := Option.some.inj hn
    exact (height_eq_ok hseq).symm
  | appendOwn hat happend =>
    exact inStep_append happend (hr.own (by rw [hat]; rfl)) rfl rfl
  | appendPulled _ happend => exact inStep_append happend rfl rfl rfl
  | secondariesReady hat | noRequests hat | batched hat | signOwn hat | pull hat | received hat | complain hat
  | verified hat | signPulled hat =>
    exact hr.of_eq rfl rfl rfl (by rw [hat]; rfl) (by simp [hat, Control.asPrimary])
  | readState | notify | notifierReturn | stop => exact hr.of_eq rfl rfl rfl rfl id

theorem verifyBatch_of_seq_ne {verifyBatchedRequests batch seq} (hprimary : batch.primary = r.primary)
    (hshard : batch.shard = shard) (hseq : batch.seq = seq) (hne : seq ≠ r.seq) :
    r.verifyBatch verifyBatchedRequests batch =
      .error (.err s!"batch seq ({seq}) not equal to expected seq ({r.seq})") := by
  subst hseq
  simp only [verifyBatch, Outcome.require, if_pos hprimary, if_pos hshard, if_neg hne]
  rfl

end BatcherRole

/-- **Every batcher expects the batch that its ledger lacks**, at all times. -/
theorem Batcher.Reachable.expects_missing {b : Batcher W party shard} (h : b.Reachable) :
    ∀ r, b.process = .up r → r.InStep := by
  induction h with
  | refl => simp [Batcher.blank]
  | tail _ hstep ih =>
    cases hstep with
    | role hstep =>
      rintro _ ⟨⟩
      exact hstep.inStep (ih _ rfl)
    | startSend hat =>
      rintro _ ⟨⟩
      exact (ih _ rfl).of_eq rfl rfl rfl (by rw [hat]; rfl) (by simp [Control.asPrimary])
    | sendBAF => exact ih
    | @sendDone r _ _ _ hat =>
      rintro _ ⟨⟩
      have hr := (ih _ rfl).height 1 (by rw [hat]; rfl)
      by_cases hp : r.primary = party
      · exact ⟨fun n hn => by simp_all [Control.stored], fun _ => hp⟩
      · exact ⟨fun n hn => by simp_all [Control.stored], fun h => by simp [hp, Control.asPrimary] at h⟩
    | reconfigure _ _ _ hnew | restart _ hnew =>
      rintro _ ⟨⟩
      exact inStep_of_loop (configureBatcher_eq_ok hnew).control
    | crash => simp

/-- A primary after its first batch. -/
theorem Batcher.expects_missing_sole : ∃ (b : Batcher refWire 1 1) (r : _), b.process = .up r ∧ b.sent ≠ [] ∧
    r.seq = 1 ∧ (r.ledger.batches r.primary).length = 1 := by
  obtain ⟨b, r, hb, hsent, hup, hseq, hat⟩ := Batcher.exists_reachable_sent refWire 1 1
  have hstep := Batcher.Reachable.expects_missing hb r hup
  exact ⟨b, r, hup, hsent, hseq, hseq ▸ hstep.height 0 (by rw [hat]; rfl)⟩

/-! ## One call of `PullBatches` -/

/-- The batches that a point of `runSecondary` has taken from the channel and whose sequence the role still
expects. The other points are outside of the call. -/
def Control.inHand : Control → Option Nat
  | .receive => some 0
  | .verify _ | .appendPulled _ | .attest _ | .startSend _ | .awaitSend _ => some 1
  | _ => none

/-- The capacity of the channel that `PullBatches` makes. -/
def pullBatchesChanSize : Nat := 100

/-- A call of `PullBatches`: the chain of an honest primary, the secondary and its puller. -/
structure PullCall (W : Wire) (party : PartyID) (shard : ShardID) (primary : PartyID) where
  source : BatchChain shard primary
  role : BatcherRole W party shard
  puller : Puller FabricBatch

namespace PullCall

variable {primary : PartyID} {c c₀ : PullCall W party shard primary} {start : Nat}

/-- The call is made: nothing was pulled yet. -/
structure Begins (c : PullCall W party shard primary) : Prop where
  control : c.role.control = .receive
  inStep : c.role.InStep
  primary_eq : c.role.primary = primary
  idle : c.puller = .idle

/-- The batches that were pulled, also the one that waits for room in the channel. -/
def pulled (c : PullCall W party shard primary) : List FabricBatch := c.puller.emitted ++ c.puller.handing

/-- One step of the primary, of the puller or of the secondary, as long as the secondary reads from this call's
channel. -/
inductive Step (c : PullCall W party shard primary) : PullCall W party shard primary → Prop
  | extend {source} (happend : c.source.batches <+: source.batches) : Step c { c with source }
  /-- The puller goes on. `requestEnvelopeFactoryFunc` reads the height of the ledger at each connection. -/
  | pull {seq puller} (hseq : c.role.ledger.height primary = .ok seq)
      (hstep : Puller.Step (fun block => [block]) pullBatchesChanSize c.source.batches seq c.puller puller) :
      Step c { c with puller }
  | take {batch rest} (hat : c.role.control = .receive) (hchan : c.puller.chan = batch :: rest) : Step c { c with
        role := { c.role with control := .verify batch }
        puller := { c.puller with chan := rest } }
  /-- The secondary works on the batch, or the term notifier goes on. A bad batch, a new term and the end lead out of
  the call. -/
  | role {r} (hstep : c.role.Step r)
      (htaken : c.role.control = .receive → r.control = .receive) (hcall : r.control.inHand.isSome = true) :
      Step c { c with role := r }
  | startSend {baf} (hat : c.role.control = .startSend baf) :
      Step c { c with role := { c.role with control := .awaitSend baf } }
  | sendDone {baf} (hat : c.role.control = .awaitSend baf) :
      Step c { c with role := { c.role with seq := c.role.seq + 1, control := .receive } }

/-- The calls that a call can come to. -/
def Run : PullCall W party shard primary → PullCall W party shard primary → Prop := Relation.ReflTransGen Step

/-- What holds during a call that began at a height: the puller is faithful, and the secondary has taken the
batches of the channel one after the other, `k` of which it has finished. -/
structure Inv (start : Nat) (c : PullCall W party shard primary) : Prop where
  faithful : c.puller.Faithful (fun block => [block]) c.source.batches
  taken : ∃ k n, c.role.control.inHand = some n ∧ c.role.seq = start + k ∧
    c.puller.chan = c.puller.emitted.drop (k + n) ∧ k + n ≤ c.puller.emitted.length ∧
    ∀ batch, c.role.control = .verify batch → c.puller.emitted[k]? = some batch

end PullCall

theorem BatcherRole.Step.inCall {r r' : BatcherRole W party shard} (h : r.Step r')
    (htaken : r.control = .receive → r'.control = .receive) (hcall : r'.control.inHand.isSome = true)
    (hin : r.control.inHand.isSome = true) : r'.seq = r.seq ∧ r'.control.inHand = r.control.inHand ∧
      ∀ batch, r'.control = .verify batch → r.control = .verify batch := by
  cases h with
  | readState | notify | notifierReturn | stop => exact ⟨rfl, rfl, fun _ => id⟩
  | verified hat | appendPulled hat | signPulled hat => exact ⟨rfl, by rw [hat]; rfl, by simp⟩
  | received hat => simp [hat] at htaken
  | appendOwn hat | pull hat => simp [hat, Control.inHand] at hin
  | _ => simp [Control.inHand] at hcall

namespace PullCall

variable {primary : PartyID} {c c' c₀ : PullCall W party shard primary} {start : Nat}

theorem Begins.inv (h : c.Begins) : c.Inv (c.role.ledger.batches primary).length where
  faithful := h.idle ▸ Puller.faithful_idle
  taken := by
    have hheight := h.inStep.height 0 (by rw [h.control]; rfl)
    rw [h.primary_eq] at hheight
    refine ⟨0, 0, by rw [h.control]; rfl, hheight.symm, ?_, Nat.zero_le _, by simp [h.control]⟩
    rw [h.idle]
    rfl

theorem Step.inv (h : Step c c') (hc : c.Inv start) : c'.Inv start := by
  obtain ⟨k, n, hin, hseq, hchan, hle, hverify⟩ := hc.taken
  cases h with
  | extend happend =>
    obtain ⟨more, hmore⟩ := happend
    exact ⟨hmore ▸ hc.faithful.grow more, hc.taken⟩
  | pull _ hstep =>
    refine ⟨hstep.faithful hc.faithful, ?_⟩
    obtain ⟨items, hemitted, hchan'⟩ := hstep.emitted
    refine ⟨k, n, hin, hseq, ?_, ?_, fun batch hat => ?_⟩
    · rw [hchan', hemitted, hchan, drop_append_of_le_length hle]
    · rw [hemitted, length_append]
      exact Nat.le_add_right_of_le hle
    · rw [hemitted]
      exact getElem?_append_left (lt_of_getElem? (hverify batch hat)) ▸ hverify batch hat
  | @take batch rest hat hbatch =>
    refine ⟨⟨hc.faithful.emitted, hc.faithful.bound⟩, ?_⟩
    obtain rfl : 0 = n := by rw [hat] at hin; exact Option.some.inj hin
    have hdrop : c.puller.emitted.drop k = batch :: rest := hchan.symm.trans hbatch
    have hk : c.puller.emitted[k]? = some batch := by
      rw [← Nat.add_zero k, ← getElem?_drop, hdrop]
      rfl
    refine ⟨k, 1, rfl, hseq, ?_, lt_of_getElem? hk, ?_⟩
    · rw [← drop_drop, hdrop]
      rfl
    · rintro _ ⟨⟩
      exact hk
  | role hstep htaken hcall =>
    obtain ⟨hseq', hin', hverify'⟩ := hstep.inCall htaken hcall (by rw [hin]; rfl)
    exact ⟨hc.faithful, k, n, hin'.trans hin, hseq'.trans hseq, hchan, hle,
      fun batch hat => hverify batch (hverify' batch hat)⟩
  | startSend hat =>
    rw [hat] at hin
    exact ⟨hc.faithful, k, n, hin, hseq, hchan, hle, by simp⟩
  | sendDone hat =>
    obtain rfl : 1 = n := by rw [hat] at hin; exact Option.some.inj hin
    exact ⟨hc.faithful, k + 1, 0, rfl, by simp [hseq, Nat.add_assoc], hchan, hle, by simp⟩

theorem Run.inv (h : Run c₀ c) (hbegin : c₀.Begins) : c.Inv (c₀.role.ledger.batches primary).length := by
  induction h with
  | refl => exact hbegin.inv
  | tail _ hstep ih => exact hstep.inv ih

theorem Inv.map_seq (hc : c.Inv start) : c.pulled.map FabricBatch.seq = c.puller.positions :=
  hc.faithful.map_eq_positions fun n batch h => (c.source.at_index n batch h).seq

/-- If the pulled batches are consecutive, the secondary works on the batch that it expects. -/
theorem Inv.seq_eq (hc : c.Inv start) (hpulled : c.pulled.map FabricBatch.seq = range' start c.pulled.length) {batch}
    (hat : c.role.control = .verify batch) : batch.seq = c.role.seq := by
  obtain ⟨k, n, -, hseq, -, -, hverify⟩ := hc.taken
  have hk : c.pulled[k]? = some batch := by
    rw [pulled, getElem?_append_left (lt_of_getElem? (hverify batch hat))]
    exact hverify batch hat
  have hmap : (c.pulled.map FabricBatch.seq)[k]? = some batch.seq := by rw [getElem?_map, hk]; rfl
  rw [hpulled, List.getElem?_range' (lt_of_getElem? hk)] at hmap
  rw [hseq, ← Option.some.inj hmap, Nat.one_mul]

/-- **When reconnections do no harm**: in every run of a call, the pulled batches are consecutive from the height on
at which the call was made iff every stream that gave anything was opened where the one before ended. Then
`verifyBatch` finds the sequence that it expects. -/
theorem consecutive_iff (hbegin : c₀.Begins) (hrun : Run c₀ c) :
    (c.pulled.map FabricBatch.seq = List.range' (c₀.role.ledger.batches primary).length c.pulled.length ↔
      Session.InOrder (c₀.role.ledger.batches primary).length c.puller.sessions) ∧
    (Session.InOrder (c₀.role.ledger.batches primary).length c.puller.sessions →
      ∀ batch, c.role.control = .verify batch → batch.seq = c.role.seq) := by
  have hc := hrun.inv hbegin
  have hiff : c.pulled.map FabricBatch.seq = range' (c₀.role.ledger.batches primary).length c.pulled.length ↔
      Session.InOrder (c₀.role.ledger.batches primary).length c.puller.sessions := by
    rw [← Session.positions_eq_range'_iff, ← c.pulled.length_map FabricBatch.seq, hc.map_seq]
    rfl
  exact ⟨hiff, fun horder batch hat => hc.seq_eq (hiff.mpr horder) hat⟩

/-! ## A secondary that reconnects -/

/-- Party 2 has made one batch, and party 1 begins to pull. -/
def firstCall (W : Wire) : PullCall W 1 1 2 where
  source := (BatchChain.empty 1 2).extend (batchSignedUnder W 0) ⟨shard_new, primary_new, seq_new⟩
  role := secondaryRole W 0
  puller := .idle

theorem begins_firstCall (W : Wire) : (firstCall W).Begins where
  control := rfl
  inStep := ⟨fun n hn => by obtain rfl : 0 = n := Option.some.inj hn; rfl, fun h => by cases h⟩
  primary_eq := rfl
  idle := rfl

/-- The puller gets the batch and loses the stream, `m` times. The batch waits in the channel as often. -/
def pulledTimes (W : Wire) (m : Nat) : PullCall W 1 1 2 :=
  { firstCall W with
    puller :=
      { past := replicate m ⟨0, 1⟩
        stream := none
        handing := []
        chan := replicate m (batchSignedUnder W 0)
        emitted := replicate m (batchSignedUnder W 0) } }

/-- As long as there is room in the channel and the secondary takes nothing, this can go on. -/
theorem run_pulledTimes (W : Wire) {m} (hm : m ≤ pullBatchesChanSize) : Run (firstCall W) (pulledTimes W m) := by
  induction m with
  | zero => exact .refl
  | succ m ih =>
    have hconnected := (ih (Nat.le_of_succ_le hm)).tail (.pull rfl (.connect rfl))
    have hreceived := hconnected.tail (.pull rfl (.receive rfl rfl rfl))
    have hhanded := hreceived.tail (.pull rfl (.hand rfl (by simp only [pulledTimes, length_replicate]; exact hm)))
    have hfailed := hhanded.tail (.pull rfl (.fail rfl rfl))
    simp only [pulledTimes, replicate_succ'] at hfailed ⊢
    exact hfailed

/-- The secondary takes a batch with the sequence that it expects, stores it and attests it. -/
theorem run_handled (W : Wire) (m : Nat) : ∃ ledger : BatchLedgerArray W 1, ledger.height 2 = .ok 1 ∧
    Run (pulledTimes W (m + 1)) { pulledTimes W (m + 1) with
      role := { secondaryRole W 0 with ledger, seq := 1 }
      puller := { (pulledTimes W (m + 1)).puller with
        chan := replicate m (batchSignedUnder W 0) } } := by
  have hpart : (secondaryRole W 0).ledger.part 2 = .ok (newBatchLedgerPart W (.empty 1 2)) := rfl
  obtain ⟨ledger, happend⟩ := exists_append hpart rfl 0 (batchSignedUnder W 0).requests (batchSignedUnder W 0).digest
    (batchSignedUnder W 0).primarySignature
  have htaken : Run (pulledTimes W (m + 1)) _ := .single (.take rfl rfl)
  have hverified := htaken.tail (.role (.verified rfl (fun _ => .ok []) (verifyBatch_secondaryRole W 0 0)) nofun rfl)
  have hstored := hverified.tail (.role (.appendPulled rfl happend) nofun rfl)
  have hsigned := hstored.tail (.role (.signPulled rfl (fun msg => .ok (1 :: msg)) rfl) nofun rfl)
  have hsending := hsigned.tail (.startSend rfl)
  exact ⟨ledger, height_append_self happend, hsending.tail (.sendDone rfl)⟩

/-- The stream is lost, and the next one is opened when the first batch is stored. -/
theorem consecutive_reconnected : ∃ c, Run (firstCall refWire) c ∧ c.puller.sessions = [⟨0, 1⟩, ⟨1, 1⟩] ∧
    c.pulled.map FabricBatch.seq = [0, 1] := by
  obtain ⟨ledger, hheight, hhandled⟩ := run_handled refWire 0
  let source := (firstCall refWire).source.extend (newFabricBatchFromRequests 1 2 1 twoRequests [] 0 [] [])
    ⟨shard_new, primary_new, seq_new⟩
  have hgrows : (firstCall refWire).source.batches <+: source.batches := prefix_append _ _
  have hextended := ((run_pulledTimes refWire (by decide)).trans hhandled).tail (.extend hgrows)
  have hconnected := hextended.tail (.pull hheight (.connect rfl))
  have hreceived := hconnected.tail (.pull hheight (.receive rfl rfl rfl))
  exact ⟨_, hreceived, rfl,
    (consecutive_iff (begins_firstCall refWire) hreceived).1.mpr ⟨.inr rfl, .inr rfl, trivial⟩⟩

/-- **A secondary complains about an honest primary**: it has pulled the first batch, and the stream fails before
the batch is stored. The next stream brings it again. When the second copy is taken the first one is stored, and
`verifyBatch` refuses the second. -/
theorem repeated_batch :
    ∃ c, (firstCall refWire).Begins ∧ Run (firstCall refWire) c ∧ c.pulled.map FabricBatch.seq = [0, 0] ∧
      c.role.control = .verify (BatcherRole.batchSignedUnder refWire 0) ∧
      ∀ verifyBatchedRequests, c.role.verifyBatch verifyBatchedRequests (BatcherRole.batchSignedUnder refWire 0) =
          .error (.err s!"batch seq ({0}) not equal to expected seq ({1})") := by
  obtain ⟨ledger, -, hhandled⟩ := run_handled refWire 1
  have hrun := (run_pulledTimes refWire (by decide)).trans (hhandled.tail (.take rfl rfl))
  refine ⟨_, begins_firstCall refWire, hrun, ?_, rfl, fun verifyBatchedRequests => ?_⟩
  · rw [(Run.inv hrun (begins_firstCall refWire)).map_seq]
    rfl
  · have hseq : FabricBatch.seq (batchSignedUnder refWire 0) = 0 := seq_new
    refine verifyBatch_of_seq_ne ?_ ?_ hseq ?_
    · exact primary_new
    · exact shard_new
    · exact Nat.zero_ne_one

end PullCall

end Arma
