import Arma.Batcher.Attest
import Arma.Batcher.Decisions

/-!
# Term changes and the end of a role

What `getTermAndNotifyChange` and `run` (`node/batcher/batcher_role.go`) make of a new term, with the calls that stop
them. The notifier stores a term and then sends it into the term channel, which has room for one; `run` loads the stored
term and then works in it until a `select` brings it back.

* `TermWatch` adds to a batcher the term that `run` has loaded. **`no_term_change_lost`**: while `run` works in a term
  that is not the stored one, a notification is in the channel or on its way into it.
* `StoppingRole` adds a call of `Stop` or `SoftStop`, with its program counter: both close the stop channel and wait for
  the two goroutines; `Stop` empties the term channel before, `SoftStop` after.
* Nobody empties the channel while the call waits and `run` has returned. **`stopping_deadlocks`**: a notifier that has
  taken up a term with the channel full then blocks, and the call with it. **`stop_cannot_deadlock_when`** says when it
  does not.
-/

namespace Arma

open Batcher (soleConfig soleRole configureBatcher_sole getPrimaryID_sole)

variable {W : Wire} {party : PartyID} {shard : ShardID}

/-! ## Notifications -/

/-- `run` is in `runPrimary` or `runSecondary`. -/
def Control.running : Control → Bool
  | .loop | .returned => false
  | _ => true

namespace BatcherRole

variable {r r' : BatcherRole W party shard} {t : Nat}

/-- The notifier has stored a term that it has not sent yet. -/
def Notifying (r : BatcherRole W party shard) : Prop := ∃ newTerm, r.notifier = .notifying newTerm

/-- If `run` works in term `t` and another one is stored, it will be told. -/
def Noticed (t : Nat) (r : BatcherRole W party shard) : Prop :=
  r.control.running = true → t ≠ r.term → r.termChan ≠ none ∨ r.Notifying

theorem noticed_of_not_running (h : r.control.running = false) : r.Noticed t :=
  fun hrun => absurd (h.symm.trans hrun) Bool.false_ne_true

/-- A step that leaves the term and its notification alone, and does not begin a term. -/
theorem Noticed.keep (h : r.Noticed t) (hrun : r'.control.running = true → r.control.running = true)
    (hterm : r'.term = r.term) (hchan : r'.termChan = r.termChan) (hnotifying : r.Notifying → r'.Notifying) :
    r'.Noticed (if r.control = .loop then r.term else t) := by
  intro hrun' hne
  have hworks := hrun hrun'
  have hloop : r.control ≠ .loop := by
    intro hloop
    rw [hloop] at hworks
    cases hworks
  rw [if_neg hloop, hterm] at hne
  rw [hchan]
  exact (h hworks hne).imp_right hnotifying

theorem Step.noticed (h : r.Step r') (hr : r.Noticed t) : r'.Noticed (if r.control = .loop then r.term else t) := by
  cases h with
  | runReturn | newTerm | stopped => exact noticed_of_not_running rfl
  | runPrimary hat | runSecondary hat =>
    rw [if_pos hat]
    exact fun _ hne => absurd rfl hne
  | readState => exact fun _ _ => .inr ⟨_, rfl⟩
  | notify => exact fun _ _ => .inl (Option.some_ne_none _)
  | notifierReturn hat =>
    refine hr.keep id rfl rfl ?_
    rintro ⟨newTerm, hnew⟩
    rw [hat] at hnew
    cases hnew
  | stop => exact hr.keep id rfl rfl id
  | secondariesReady hat | noRequests hat | batched hat | signOwn hat | appendOwn hat | pull hat | received hat
  | complain hat | verified hat | appendPulled hat | signPulled hat =>
    exact hr.keep (fun _ => by rw [hat]; rfl) rfl rfl id

/-- The two goroutines can bring `run` back from a `select`, if it was to be told of a new term. -/
theorem exists_back_to_loop (hselect : r.control.selects = true) (h : r.termChan ≠ none ∨ r.Notifying) :
    ∃ r', Relation.ReflTransGen Step r r' ∧ r'.control = .loop ∧ r'.term = r.term := by
  cases hchan : r.termChan with
  | some newTerm => exact ⟨_, .single (.newTerm hselect hchan), rfl, rfl⟩
  | none =>
    obtain ⟨newTerm, hnotifying⟩ := h.resolve_left fun hne => hne hchan
    exact ⟨_, .tail (.single (.notify hnotifying hchan)) (.newTerm hselect rfl), rfl, rfl⟩

end BatcherRole

/-- A batcher, with the term that `run` has loaded last. -/
structure TermWatch (W : Wire) (party : PartyID) (shard : ShardID) where
  batcher : Batcher W party shard
  runTerm : Nat

namespace TermWatch

/-- The term that `run` has loaded after a step: it is loaded at the head of the loop. -/
def load (b : Batcher W party shard) (runTerm : Nat) : Nat :=
  match b.process with
  | .up r => if r.control = .loop then r.term else runTerm
  | .down _ => runTerm

inductive Step (w : TermWatch W party shard) : TermWatch W party shard → Prop
  | step {b} (hstep : w.batcher.Step b) : Step w ⟨b, load w.batcher w.runTerm⟩

/-- The runs of a batcher that was never started before. -/
def Reachable (w : TermWatch W party shard) : Prop := Relation.ReflTransGen Step ⟨.blank W party shard, 0⟩ w

variable {w w' : TermWatch W party shard}

def Inv (w : TermWatch W party shard) : Prop := ∀ r, w.batcher.process = .up r → r.Noticed w.runTerm

theorem Step.inv (h : Step w w') (hw : w.Inv) : w'.Inv := by
  obtain ⟨hstep⟩ := h
  intro r' hr'
  obtain ⟨⟨process, inflight, sent⟩, runTerm⟩ := w
  cases hstep with
  | role hstep =>
    cases hr'
    exact hstep.noticed (hw _ rfl)
  | startSend hat | sendDone hat =>
    cases hr'
    exact (hw _ rfl).keep (fun _ => by rw [hat]; rfl) rfl rfl id
  | sendBAF =>
    cases hr'
    exact (hw _ rfl).keep id rfl rfl id
  | reconfigure _ _ _ hnew | restart _ hnew =>
    cases hr'
    exact BatcherRole.noticed_of_not_running (by rw [(configureBatcher_eq_ok hnew).control]; rfl)
  | crash => cases hr'

theorem Reachable.inv (h : w.Reachable) : w.Inv := by
  induction h with
  | refl => exact fun r hr => by cases hr
  | tail _ hstep ih => exact hstep.inv ih

/-- **No term change is lost**: in every run, while `run` works as primary or secondary in a term that is not the stored
one, a notification is in the channel or the notifier is about to send it; so a `select` can always be left. -/
theorem no_term_change_lost (h : w.Reachable) {r : BatcherRole W party shard} (hr : w.batcher.process = .up r)
    (hrun : r.control.running = true) (hpast : w.runTerm ≠ r.term) :
    (r.termChan ≠ none ∨ ∃ newTerm, r.notifier = .notifying newTerm) ∧
      (r.control.selects = true → ∃ r', Relation.ReflTransGen BatcherRole.Step r r' ∧ r'.control = .loop ∧
        r'.term = r.term) := by
  have hnoticed := h.inv r hr hrun hpast
  exact ⟨hnoticed, fun hselect => BatcherRole.exists_back_to_loop hselect hnoticed⟩

/-- The only batcher of a shard waits as the primary of term 0, while term 1 is stored. -/
def toldTermOne : BatcherRole refWire 1 1 :=
  { soleRole refWire 1 1 with primary := 1, control := .waitForSecondaries, term := 1, notifier := .notifying 1 }

theorem reachable_toldTermOne : Reachable ⟨⟨.up toldTermOne, [], []⟩, 0⟩ := by
  have hheight : (soleRole refWire 1 1).ledger.height 1 = .ok 0 := rfl
  have hup : Reachable ⟨⟨.up (soleRole refWire 1 1), [], []⟩, 0⟩ :=
    .single (.step (.restart (soleConfig 1 1) configureBatcher_sole))
  have hprimary := hup.tail (.step (.role (.runPrimary rfl rfl (getPrimaryID_sole 0) hheight)))
  exact hprimary.tail (.step (.role (.readState rfl (Follower.stateInTerm 1) rfl (by decide))))

theorem term_one_not_lost :
    Reachable ⟨⟨.up toldTermOne, [], []⟩, 0⟩ ∧ toldTermOne.control.running = true ∧ 0 ≠ toldTermOne.term ∧
      (toldTermOne.termChan ≠ none ∨ ∃ newTerm, toldTermOne.notifier = .notifying newTerm) :=
  ⟨reachable_toldTermOne, rfl, by decide, (no_term_change_lost reachable_toldTermOne rfl rfl (by decide)).1⟩

end TermWatch

/-! ## StoppingRole -/

inductive StopCall where
  | stop
  | softStop
  deriving DecidableEq, Repr

inductive StopPoint where
  | notCalled
  /-- At the condition of the loop that empties the term channel. -/
  | draining
  /-- In that loop, before it receives. -/
  | receiving
  | waiting
  | done
  deriving DecidableEq, Repr

namespace StopCall

/-- After the stop channel is closed. `Stop` empties the term channel first. -/
def closed : StopCall → StopPoint
  | .stop => .draining
  | .softStop => .waiting

/-- After the term channel was empty. -/
def drained : StopCall → StopPoint
  | .stop => .waiting
  | .softStop => .done

/-- After both goroutines have returned. -/
def waited : StopCall → StopPoint
  | .stop => .done
  | .softStop => .draining

end StopCall

/-- A role that is being stopped by one call, with the fragments as in `Batcher`. -/
structure StoppingRole (W : Wire) (party : PartyID) (shard : ShardID) where
  call : StopCall
  point : StopPoint
  role : BatcherRole W party shard
  inflight : List BAF
  sent : List BAF

namespace StoppingRole

/-- One step of the role's goroutines, with the states that the notifier is handed, or of the call. -/
inductive Step (s : StoppingRole W party shard) : StoppingRole W party shard → Prop
  | role {r inflight sent} (hstep : Batcher.Step ⟨.up s.role, s.inflight, s.sent⟩ ⟨.up r, inflight, sent⟩)
      (hstop : r.stopChan = s.role.stopChan) : Step s { s with role := r, inflight, sent }
  | close (hat : s.point = .notCalled) :
      Step s { s with point := s.call.closed, role := { s.role with stopChan := true } }
  | full (hat : s.point = .draining) (hchan : s.role.termChan ≠ none) : Step s { s with point := .receiving }
  | empty (hat : s.point = .draining) (hchan : s.role.termChan = none) : Step s { s with point := s.call.drained }
  | receive (hat : s.point = .receiving) (hchan : s.role.termChan ≠ none) :
      Step s { s with point := .draining, role := { s.role with termChan := none } }
  | wait (hat : s.point = .waiting) (hrun : s.role.control = .returned)
      (hnotifier : s.role.notifier = .returned) : Step s { s with point := s.call.waited }

def Run : StoppingRole W party shard → StoppingRole W party shard → Prop := Relation.ReflTransGen Step

/-- A role that was just started, and not stopped yet. -/
structure Begins (s : StoppingRole W party shard) : Prop where
  notCalled : s.point = .notCalled
  configured : ∃ config disk, configureBatcher W party config disk = .ok s.role

/-- The notifier waits for room in the term channel. -/
def Blocked (s : StoppingRole W party shard) : Prop := s.role.Notifying ∧ s.role.termChan ≠ none

/-- `run` has returned, the call waits for both goroutines, and the notifier is blocked. -/
structure Deadlocked (s : StoppingRole W party shard) : Prop where
  returned : s.role.control = .returned
  waiting : s.point = .waiting
  blocked : s.Blocked

variable {s s' s₀ : StoppingRole W party shard}

/-- What a step of a role does whose `run` has returned and whose notifier is blocked. -/
theorem role_step_of_blocked {r r' : BatcherRole W party shard} {inflight sent inflight' sent'}
    (h : Batcher.Step ⟨.up r, inflight, sent⟩ ⟨.up r', inflight', sent'⟩) (hreturned : r.control = .returned)
    (hnotifying : r.Notifying) (hchan : r.termChan ≠ none) :
    r'.control = .returned ∧ r'.notifier = r.notifier ∧ r'.termChan = r.termChan := by
  obtain ⟨newTerm, hnew⟩ := hnotifying
  cases h with
  | role hstep =>
    cases hstep with
    | notify _ hroom => exact absurd hroom hchan
    | readState hat | notifierReturn hat =>
      rw [hnew] at hat
      cases hat
    | stop => exact ⟨hreturned, rfl, rfl⟩
    | _ hat =>
      rw [hreturned] at hat
      cases hat
  | sendBAF => exact ⟨hreturned, rfl, rfl⟩
  | startSend hat | sendDone hat =>
    rw [hreturned] at hat
    cases hat
  | reconfigure _ _ hnotifier =>
    rw [hnew] at hnotifier
    cases hnotifier

theorem Deadlocked.step (h : Step s s') (hs : s.Deadlocked) : s'.Deadlocked := by
  obtain ⟨hreturned, hwaiting, hblocked⟩ := hs
  cases h with
  | role hstep =>
    obtain ⟨hcontrol, hnotifier, hchan⟩ := role_step_of_blocked hstep hreturned hblocked.1 hblocked.2
    refine ⟨hcontrol, hwaiting, ?_, hchan ▸ hblocked.2⟩
    obtain ⟨newTerm, hnew⟩ := hblocked.1
    exact ⟨newTerm, hnotifier.trans hnew⟩
  | wait _ _ hnotifier =>
    obtain ⟨newTerm, hnew⟩ := hblocked.1
    rw [hnew] at hnotifier
    cases hnotifier
  | close hat | full hat | empty hat | receive hat =>
    rw [hwaiting] at hat
    cases hat

theorem Deadlocked.run (h : Run s s') (hs : s.Deadlocked) : s'.Deadlocked := by
  induction h with
  | refl => exact hs
  | tail _ hstep ih => exact ih.step hstep

/-! ### When the call cannot deadlock -/

/-- The stop channel is closed at a moment when the notifier is not blocked, and from then on the notifier takes up a
state of another term only while the term channel is empty. -/
def Undisturbed (s s' : StoppingRole W party shard) : Prop :=
  s'.role.stopChan = true → (s.role.stopChan = false → ¬ s.Blocked) ∧
    (¬ s.role.Notifying → s'.role.Notifying → s.role.termChan = none)

/-- The runs in which no term change interferes with the end. -/
def UndisturbedRun : StoppingRole W party shard → StoppingRole W party shard → Prop :=
  Relation.ReflTransGen fun s s' => Step s s' ∧ Undisturbed s s'

structure Inv (s : StoppingRole W party shard) : Prop where
  called : s.point ≠ .notCalled → s.role.stopChan = true
  free : s.role.stopChan = true → ¬ s.Blocked

theorem chan_full_before {r r' : BatcherRole W party shard} {inflight sent inflight' sent'}
    (h : Batcher.Step ⟨.up r, inflight, sent⟩ ⟨.up r', inflight', sent'⟩) (hnotifying : r'.Notifying)
    (hchan : r'.termChan ≠ none) : r.termChan ≠ none := by
  cases h with
  | role hstep =>
    cases hstep with
    | newTerm => exact absurd rfl hchan
    | notify =>
      obtain ⟨newTerm, hnew⟩ := hnotifying
      cases hnew
    | _ => exact hchan
  | startSend | sendBAF | sendDone => exact hchan
  | reconfigure _ _ _ hnew =>
    obtain ⟨newTerm, hnew'⟩ := hnotifying
    rw [(configureBatcher_eq_ok hnew).idle.1] at hnew'
    cases hnew'

theorem Begins.inv (h : s.Begins) : s.Inv := by
  obtain ⟨config, disk, hnew⟩ := h.configured
  refine ⟨fun hne => absurd h.notCalled hne, fun hstop => ?_⟩
  rw [(configureBatcher_eq_ok hnew).idle.2.1] at hstop
  cases hstop

theorem Step.inv (h : Step s s') (hcalm : s.Undisturbed s') (hs : s.Inv) : s'.Inv := by
  cases h with
  | role hstep hstop =>
    refine ⟨fun hne => hstop.trans (hs.called hne), fun hclosed hblocked => ?_⟩
    have hfull := chan_full_before hstep hblocked.1 hblocked.2
    by_cases hnotifying : s.role.Notifying
    · exact hs.free (hstop.symm.trans hclosed) ⟨hnotifying, hfull⟩
    · exact hfull ((hcalm hclosed).2 hnotifying hblocked.1)
  | close =>
    refine ⟨fun _ => rfl, fun hclosed hblocked => ?_⟩
    cases hstop : s.role.stopChan with
    | false => exact (hcalm hclosed).1 hstop hblocked
    | true => exact hs.free hstop hblocked
  | full hat | empty hat | wait hat => exact ⟨fun _ => hs.called (by rw [hat]; decide), hs.free⟩
  | receive hat => exact ⟨fun _ => hs.called (by rw [hat]; decide), fun _ hblocked => hblocked.2 rfl⟩

/-- **StoppingRole cannot deadlock** if no term change interferes. -/
theorem stop_cannot_deadlock_when (hbegin : s₀.Begins) (hrun : UndisturbedRun s₀ s) : ¬ s.Deadlocked := by
  have hinv : s.Inv := by
    induction hrun with
    | refl => exact hbegin.inv
    | tail _ hstep ih => exact hstep.1.inv hstep.2 ih
  intro hdead
  exact hinv.free (hinv.called (by rw [hdead.waiting]; decide)) hdead.blocked

/-- The only batcher of a shard, before it is stopped. -/
def beforeStop (call : StopCall) : StoppingRole refWire 1 1 := ⟨call, .notCalled, soleRole refWire 1 1, [], []⟩

theorem begins_beforeStop (call : StopCall) : (beforeStop call).Begins :=
  ⟨rfl, soleConfig 1 1, .blank 1, configureBatcher_sole⟩

theorem run_twoTerms (call : StopCall) : Run (beforeStop call)
    { beforeStop call with
      role := { soleRole refWire 1 1 with term := 2, termChan := some 1, notifier := .notifying 2 } } := by
  have hread : Run (beforeStop call) _ := .single (.role (.role (.readState rfl (Follower.stateInTerm 1) rfl
    Nat.one_ne_zero)) rfl)
  have hsent := hread.tail (.role (.role (.notify rfl rfl)) rfl)
  exact hsent.tail (.role (.role (.readState rfl (Follower.stateInTerm 2) rfl (Nat.succ_ne_self 1))) rfl)

theorem Deadlocked.exists_stuck (hs : s.Deadlocked) (h : Run s₀ s) :
    ∃ s, Run s₀ s ∧ ∀ s', Run s s' → s'.Deadlocked := ⟨s, h, fun _ hrun => hs.run hrun⟩

def CanDeadlock (call : StopCall) : Prop :=
  ∃ s₀ : StoppingRole refWire 1 1, s₀.call = call ∧ s₀.Begins ∧ ∃ s, Run s₀ s ∧ ∀ s', Run s s' → s'.Deadlocked

/-- **Stopping can deadlock**, by either call: `run` is still at the head of its loop when two terms come.
`SoftStop` closes the stop channel and waits, `run` returns, and nobody receives the first term. `Stop` receives it and
waits; then the notifier sends the second one, takes up a third, and `run` returns. -/
theorem stopping_deadlocks : CanDeadlock .softStop ∧ CanDeadlock .stop := by
  refine ⟨⟨_, rfl, begins_beforeStop .softStop, ?_⟩, ⟨_, rfl, begins_beforeStop .stop, ?_⟩⟩
  · have hclosed := (run_twoTerms .softStop).tail (.close rfl)
    have hreturned := hclosed.tail (.role (.role (.runReturn rfl rfl)) rfl)
    exact Deadlocked.exists_stuck ⟨rfl, rfl, ⟨2, rfl⟩, Option.some_ne_none 1⟩ hreturned
  · have hdrained := (((run_twoTerms .stop).tail (.close rfl)).tail (.full rfl (Option.some_ne_none 1))).tail
      (.receive rfl (Option.some_ne_none 1))
    have hsent := (hdrained.tail (.empty rfl rfl)).tail (.role (.role (.notify rfl rfl)) rfl)
    have hread := hsent.tail (.role (.role (.readState rfl (Follower.stateInTerm 3) rfl (Nat.succ_ne_self 2))) rfl)
    have hreturned := hread.tail (.role (.role (.runReturn rfl rfl)) rfl)
    exact Deadlocked.exists_stuck ⟨rfl, rfl, ⟨3, rfl⟩, Option.some_ne_none 2⟩ hreturned

theorem Undisturbed.of_open (h : s'.role.stopChan = false) : s.Undisturbed s' :=
  fun hclosed => absurd (h.symm.trans hclosed) Bool.false_ne_true

theorem Undisturbed.of_idle (h : s.role.notifier = .listening ∨ s.role.notifier = .returned)
    (h' : s'.role.notifier = .listening ∨ s'.role.notifier = .returned) : s.Undisturbed s' := by
  have hidle : ∀ {r : BatcherRole W party shard}, r.notifier = .listening ∨ r.notifier = .returned → ¬ r.Notifying := by
    rintro r hat ⟨newTerm, hnew⟩
    rw [hnew] at hat
    rcases hat with hat | hat <;> cases hat
  exact fun _ => ⟨fun _ hblocked => hidle h hblocked.1, fun _ hnotifying => absurd hnotifying (hidle h')⟩

/-- A term comes before the stop channel is closed, and none after. -/
theorem soft_stop_returns :
    ∃ s : StoppingRole refWire 1 1, (beforeStop .softStop).Begins ∧ UndisturbedRun (beforeStop .softStop) s ∧
      s.point = .done ∧ ¬ s.Deadlocked := by
  have hread : UndisturbedRun (beforeStop .softStop) _ := .single
    ⟨.role (.role (.readState rfl (Follower.stateInTerm 1) rfl Nat.one_ne_zero)) rfl, .of_open rfl⟩
  have hsent := hread.tail ⟨.role (.role (.notify rfl rfl)) rfl, .of_open rfl⟩
  have hclosed := hsent.tail ⟨.close rfl, .of_idle (.inl rfl) (.inl rfl)⟩
  have hreturned := hclosed.tail ⟨.role (.role (.runReturn rfl rfl)) rfl, .of_idle (.inl rfl) (.inl rfl)⟩
  have hboth := hreturned.tail ⟨.role (.role (.notifierReturn rfl rfl)) rfl, .of_idle (.inl rfl) (.inr rfl)⟩
  have hwaited := hboth.tail ⟨.wait rfl rfl rfl, .of_idle (.inr rfl) (.inr rfl)⟩
  have hfull := hwaited.tail ⟨.full rfl (Option.some_ne_none 1), .of_idle (.inr rfl) (.inr rfl)⟩
  have hreceived := hfull.tail ⟨.receive rfl (Option.some_ne_none 1), .of_idle (.inr rfl) (.inr rfl)⟩
  have hdone := hreceived.tail ⟨.empty rfl rfl, .of_idle (.inr rfl) (.inr rfl)⟩
  exact ⟨_, begins_beforeStop _, hdone, rfl, stop_cannot_deadlock_when (begins_beforeStop _) hdone⟩

end StoppingRole

end Arma
