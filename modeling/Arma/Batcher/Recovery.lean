import Arma.Batcher.Replication
import Arma.Batcher.TermChange

/-!
# The term of a batcher that comes back

A batcher over its life: it replicates decisions as in `Replication`, and it is stopped or dies and is configured anew
(`configureBatcher`, `getLastKnownDecisionNum` in `node/batcher/batcher_builder.go`). The write-ahead log keeps the
headers of the decisions, and the ledger the batches; the term of the role is not kept.

* The role of a restarted batcher begins in term 0, and `run` does not wait for a decision. The states of decisions come
  to it later, one by one, from the replicator. **`stale_primary_after_restart`**: so it makes batches as the primary of
  term 0 although the last decision in its log names another primary.
* `Life.term_read`: the stored term is that of the state that the notifier has read last.
  **`acts_in_recorded_term_iff`**: so `run` does not begin in a term that was left iff that state is of the term of the
  last decision in the log, or of a later one.
-/

namespace Arma

open Arma.Lib List Follower

namespace Replication

variable {W : Wire} {party : PartyID} {shard : ShardID} {c c' : Replication W party shard}

/-- A batcher that is configured with a write-ahead log and a disk. -/
structure Configured (wal : List Header) (disk : Disk shard) (c : Replication W party shard) : Prop where
  configured : ∃ config lastConfigBlockNum, newFollower shard config lastConfigBlockNum wal = .ok c.follower ∧
    configureBatcher W party config disk = .ok c.role
  seek : ∃ fromConfigStore, c.seek = getLastKnownDecisionNum wal fromConfigStore
  idle : c.puller = .idle
  handed : c.handed = []
  running : c.returned = false
  read : c.read = 0

inductive LifeStep (c : Replication W party shard) : Replication W party shard → Prop
  | step {c' : Replication W party shard} (hstep : Step c c') : LifeStep c c'
  | startSend {baf} (hat : c.role.control = .startSend baf) :
      LifeStep c { c with role := { c.role with control := .awaitSend baf } }
  | sendDone {baf} (hat : c.role.control = .awaitSend baf) : LifeStep c { c with role := { c.role with
        seq := c.role.seq + 1
        control := if c.role.primary = party then .waitForSecondaries else .receive } }
  /-- The batcher is stopped or dies, and is configured anew. -/
  | restart {c' : Replication W party shard} (hnew : Configured c.follower.wal c.role.ledger.disk c') : LifeStep c c'

/-- What a batcher that was never started before can come to. -/
inductive Life : Replication W party shard → Prop
  | start {c : Replication W party shard} (hnew : Configured [] (.blank shard) c) : Life c
  | step {c c' : Replication W party shard} (hlife : Life c) (hstep : LifeStep c c') : Life c'

/-- The stored term is that of the last state that was read. -/
def TermRead (c : Replication W party shard) : Prop :=
  c.role.term = 0 ∧ c.read = 0 ∨ ∃ n state, c.read = n + 1 ∧ c.follower.states[n]? = some state ∧
    BatcherRole.getTerm shard state = .ok c.role.term

theorem Configured.termRead {wal disk} (h : Configured wal disk c) : c.TermRead := by
  obtain ⟨config, lastConfigBlockNum, -, hrole⟩ := h.configured
  exact .inl ⟨(configureBatcher_eq_ok hrole).idle.2.2, h.read⟩

theorem Step.termRead (h : Step c c') (hc : c.TermRead) : c'.TermRead := by
  cases h with
  | handle _ _ hround =>
    obtain ⟨-, states, -, hstates⟩ := replicateDecision_eq_ok hround
    refine hc.imp_right ?_
    rintro ⟨n, state, hread, hstate, hterm⟩
    refine ⟨n, state, hread, ?_, hterm⟩
    rw [hstates]
    exact getElem?_append_left (lt_of_getElem? hstate) ▸ hstate
  | @readState state newTerm _ hstate hterm =>
    refine .inr ⟨c.read, state, rfl, hstate, ?_⟩
    by_cases hnew : newTerm = c.role.term <;> simpa [hnew] using hterm
  | role _ hterm =>
    unfold TermRead
    rw [hterm]
    exact hc
  | decide | pull | stop => exact hc

theorem Life.term_read (h : Life c) : c.TermRead := by
  induction h with
  | start hnew => exact hnew.termRead
  | step _ hstep ih =>
    cases hstep with
    | step hstep => exact hstep.termRead ih
    | startSend | sendDone => exact ih
    | restart hnew => exact hnew.termRead

/-- `run` begins to work in the stored term. -/
structure Enters (r r' : BatcherRole W party shard) : Prop where
  step : r.Step r'
  loop : r.control = .loop
  running : r'.control.running = true

/-- The notifier has read the state of the last decision in the write-ahead log. -/
def Informed (c : Replication W party shard) : Prop :=
  ∀ header, c.follower.wal.getLast? = some header →
    c.read = c.follower.states.length ∧ c.follower.states.getLast? = header.state

theorem Enters.getPrimaryID {r r' : BatcherRole W party shard} (h : Enters r r') :
    r.getPrimaryID r.term = .ok r'.primary := by
  obtain ⟨hstep, hloop, hrunning⟩ := h
  cases hstep with
  | runPrimary _ _ hprimary | runSecondary _ _ hprimary => exact hprimary
  | runReturn | newTerm | stopped => cases hrunning
  | readState | notify | notifierReturn | stop =>
    rw [show Control.running _ = _ from congrArg Control.running hloop] at hrunning
    cases hrunning
  | _ hat =>
    rw [hloop] at hat
    cases hat

/-- The notifier has read a state of that term or a later one last, or it is the first term. -/
def Recalls (c : Replication W party shard) (term : Nat) : Prop :=
  term = 0 ∨ ∃ n state term', c.read = n + 1 ∧ c.follower.states[n]? = some state ∧
    BatcherRole.getTerm shard state = .ok term' ∧ term ≤ term'

theorem TermRead.recalls_iff (h : c.TermRead) (term : Nat) : term ≤ c.role.term ↔ c.Recalls term := by
  constructor
  · intro hle
    rcases h with ⟨hzero, -⟩ | ⟨n, state, hn, hstate, hterm⟩
    · exact .inl (Nat.le_zero.mp (hzero ▸ hle))
    · exact .inr ⟨n, state, _, hn, hstate, hterm, hle⟩
  · rintro (rfl | ⟨n, state, term', hn, hstate, hterm, hle⟩)
    · exact Nat.zero_le _
    · rcases h with ⟨-, hzero⟩ | ⟨n', state', hn', hstate', hterm'⟩
      · cases hn.symm.trans hzero
      · obtain rfl : n = n' := Nat.succ.inj (hn.symm.trans hn')
        cases hstate.symm.trans hstate'
        exact hle.trans_eq (Except.ok.inj (hterm.symm.trans hterm'))

theorem TermRead.eq_of_informed (h : c.TermRead) (hinformed : c.Informed) {header : Header} {state : State} {term : Nat}
    (hlast : c.follower.wal.getLast? = some header) (hstate : header.state = some state)
    (hterm : BatcherRole.getTerm shard state = .ok term) : c.role.term = term := by
  obtain ⟨hread, hstates⟩ := hinformed header hlast
  rw [hstate] at hstates
  rcases h with ⟨-, hzero⟩ | ⟨n, state', hn, hstate', hterm'⟩
  · rw [length_eq_zero_iff.mp (hread.symm.trans hzero)] at hstates
    cases hstates
  · rw [getLast?_eq_getElem?, ← hread, hn, Nat.add_sub_cancel] at hstates
    cases hstate'.symm.trans hstates
    exact Except.ok.inj (hterm'.symm.trans hterm)

/-- **When a batcher acts in a term that it has left**: the term in which it begins, and whose primary it takes, is not
below the one of the last decision in its log iff the notifier has read a state of that term or a later one. If it has
read the state of that decision, it is the term of the decision. -/
theorem acts_in_recorded_term_iff (h : Life c) {r : BatcherRole W party shard} (henters : Enters c.role r)
    {header : Header} {state : State} {term : Nat} (hlast : c.follower.wal.getLast? = some header)
    (hstate : header.state = some state) (hterm : BatcherRole.getTerm shard state = .ok term) :
    c.role.getPrimaryID c.role.term = .ok r.primary ∧ (term ≤ c.role.term ↔ c.Recalls term) ∧
      (c.Informed → c.role.term = term) :=
  ⟨henters.getPrimaryID, h.term_read.recalls_iff term, fun hinformed =>
    h.term_read.eq_of_informed hinformed hlast hstate hterm⟩

/-! ## Four batchers -/

/-- The ledger of party 2 on a disk. -/
def fourLedger (W : Wire) (disk : Disk 1) : BatchLedgerArray W 1 :=
  match newBatchLedgerArray W 2 [1, 2, 3, 4] disk with
  | .ok ledger => ledger
  | .error _ => ⟨fun _ => none⟩

/-- The role of party 2 on a disk. It is the primary of term 0. -/
def fourRole (W : Wire) (disk : Disk 1) : BatcherRole W 2 1 where
  batchers := [1, 2, 3, 4]
  n := 4
  configSequence := 0
  verifySignature _ _ _ := .ok ()
  ledger := fourLedger W disk
  primary := 0
  seq := 0
  term := 0
  termChan := none
  stopChan := false
  control := .loop
  notifier := .listening

theorem configureBatcher_four (W : Wire) (disk : Disk 1) :
    configureBatcher W 2 fourBatchers disk = .ok (fourRole W disk) := by
  have hparties : fourBatchers.parties 1 = [1, 2, 3, 4] := rfl
  have hledger : newBatchLedgerArray W 2 [1, 2, 3, 4] disk = .ok (fourLedger W disk) := rfl
  simp only [configureBatcher, batchersFromConfig_fourBatchers, hparties, hledger, Outcome.orPanic_ok,
    Outcome.ok_bind]
  rfl

theorem newFollower_four (wal : List Header) :
    newFollower 1 fourBatchers 0 wal = .ok { startedFollower with wal } := by
  simp only [newFollower, batchersFromConfig_fourBatchers]
  rfl

/-- The batcher, configured with a log and a disk. -/
def fourConfigured (W : Wire) (wal : List Header) (disk : Disk 1) : Replication W 2 1 where
  log := twoDecisions
  seek := getLastKnownDecisionNum wal 0
  puller := .idle
  follower := { startedFollower with wal }
  handed := []
  returned := false
  role := fourRole W disk
  read := 0

theorem configured_four (W : Wire) (wal : List Header) (disk : Disk 1) :
    Configured wal disk (fourConfigured W wal disk) :=
  ⟨⟨fourBatchers, 0, newFollower_four wal, configureBatcher_four W disk⟩, ⟨0, rfl⟩, rfl, rfl, rfl, rfl⟩

/-- The batcher has replicated two decisions, of terms 0 and 1, while its role did nothing. -/
def fourInformed (W : Wire) : Replication W 2 1 :=
  { fourConfigured W [] (.blank 1) with
    puller := ⟨[], some ⟨0, 2⟩, [], [], twoDecisions.headers⟩
    follower := { startedFollower with
      primaryID := 3
      term := 1
      wal := twoDecisions.headers
      states := [stateInTerm 0, stateInTerm 1] }
    handed := twoDecisions.headers
    role := { fourRole W (.blank 1) with term := 1, notifier := .notifying 1 }
    read := 2 }

theorem life_fourInformed : Life (fourInformed refWire) := by
  have hstart : Life (fourConfigured refWire [] (.blank 1)) := .start (configured_four refWire [] _)
  have hpulled := ((hstart.step (.step (.pull (.connect rfl)))).step (.step (.pull (.receive rfl rfl rfl)))).step
    (.step (.pull (.hand rfl (by decide))))
  have hhandled := (hpulled.step (.step (.handle rfl rfl rfl (by decide)))).step (.step (.readState rfl rfl rfl))
  have hpulled' := (hhandled.step (.step (.pull (.receive rfl rfl rfl)))).step (.step (.pull (.hand rfl (by decide))))
  have hhandled' := (hpulled'.step (.step (.handle rfl rfl rfl (by decide)))).step (.step (.readState rfl rfl rfl))
  exact hhandled'

theorem enters_fourInformed : Enters (fourInformed refWire).role
    { (fourInformed refWire).role with primary := 3, seq := 0, control := .pullBatches } :=
  ⟨.runSecondary rfl rfl rfl (by decide) rfl, rfl, rfl⟩

/-- Party 2 begins as a secondary of party 3, which is the primary of term 1. -/
theorem informed_acts_in_term_one : ∃ r, Life (fourInformed refWire) ∧ Enters (fourInformed refWire).role r ∧
    (fourInformed refWire).Recalls 1 ∧ 1 ≤ (fourInformed refWire).role.term ∧
    (fourInformed refWire).role.getPrimaryID (fourInformed refWire).role.term = .ok 3 := by
  have hrecalls : (fourInformed refWire).Recalls 1 := .inr ⟨1, _, 1, rfl, rfl, rfl, le_rfl⟩
  obtain ⟨hprimary, hiff, -⟩ := acts_in_recorded_term_iff life_fourInformed enters_fourInformed rfl rfl rfl
  exact ⟨_, life_fourInformed, enters_fourInformed, hrecalls, hiff.mpr hrecalls, hprimary⟩

/-- The batcher after it has died and come back. -/
def fourRestarted : Replication refWire 2 1 :=
  fourConfigured refWire twoDecisions.headers (fourInformed refWire).role.ledger.disk

theorem life_fourRestarted : Life fourRestarted := life_fourInformed.step (.restart (configured_four _ _ _))

/-- **A restarted batcher acts in a term that it has left**: the last decision in its log is of term 1, in which party 3
is the primary. It begins as the primary of term 0, and stores a batch of its own. -/
theorem stale_primary_after_restart :
    ∃ (r : BatcherRole refWire 2 1) (header : Header) (state : State) (c : Replication refWire 2 1),
      Life fourRestarted ∧ Enters fourRestarted.role r ∧ fourRestarted.follower.wal.getLast? = some header ∧
      header.state = some state ∧ BatcherRole.getTerm 1 state = .ok 1 ∧ fourRestarted.role.getPrimaryID 1 = .ok 3 ∧
      fourRestarted.role.term = 0 ∧ r.primary = 2 ∧
      Life c ∧ c.follower.wal = fourRestarted.follower.wal ∧ c.role.ledger.batches 2 ≠ [] := by
  have henters : fourRestarted.role.Step
      { fourRestarted.role with primary := 2, seq := 0, control := .waitForSecondaries } := .runPrimary rfl rfl rfl rfl
  obtain ⟨baf, hbaf⟩ : ∃ baf, fourRestarted.role.createBAF (fun _ => .ok []) 0 2
      (twoRequests.digest refWire.sha256) 2 [] = .ok baf := ⟨_, rfl⟩
  have hpart : fourRestarted.role.ledger.part 2 = .ok (newBatchLedgerPart refWire (.empty 1 2)) := rfl
  obtain ⟨ledger, happend⟩ := BatchLedgerArray.exists_append hpart rfl 0 twoRequests
    (twoRequests.digest refWire.sha256) baf.signature
  have hprimary := life_fourRestarted.step (.step (.role henters rfl))
  have hbatched := (hprimary.step (.step (.role (.secondariesReady rfl) rfl))).step
    (.step (.role (.batched rfl twoRequests (cons_ne_nil _ _)) rfl))
  have hsigned := hbatched.step (.step (.role (.signOwn rfl (fun _ => .ok []) hbaf) rfl))
  have hstored := hsigned.step (.step (.role (.appendOwn rfl happend) rfl))
  obtain ⟨-, batch, -, -, hbatches⟩ := BatchLedgerArray.append_eq_ok happend
  refine ⟨_, _, _, _, life_fourRestarted, ⟨henters, rfl, rfl⟩, rfl, rfl, rfl, rfl, rfl, rfl, hstored, rfl, ?_⟩
  change ledger.batches 2 ≠ []
  rw [hbatches, Function.update_self]
  exact append_ne_nil_of_right_ne_nil _ (cons_ne_nil _ _)

end Replication

end Arma
