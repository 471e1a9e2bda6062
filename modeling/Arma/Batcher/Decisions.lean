import Arma.Batcher.Role
import Arma.Consensus.Reference

/-!
# A batcher that follows the decisions

Model of `Batcher.replicateDecision` (`node/batcher/batcher.go`) with `getPrimaryIDAndTerm`, `GetTerm` and
`createComplaint`, and of how `configureBatcher` sets the primary and the term.

* `Follower` is what `replicateDecision` reads and writes: the write-ahead log, the number of the last block in
  the config store, the states handed on to the role, and the primary with its term.
* A decision with a newer config block ends the goroutine: the batcher is stopped and configured anew, and
  begins again with the zero state. Of the config store only the number of the last block is read.
* `ResubmitPendingBAFs` and `ResubmitStaleConfigBAFs` fill the mem pool and are left out here.

The primary and its term are stored together, and only when the primary is another one. So the term is the
decision's iff the primary changed whenever the term did: **`complaints_current_iff`**. With `N` parties the
primary is the same again after `N` terms, and a batcher that starts in term `N` believes to be in term 0
(`complaint_of_older_term`).
-/

namespace Arma

open Arma.Lib Outcome List

structure Follower where
  config : BatcherNodeConfig
  batchers : List PartyID
  primaryID : PartyID
  term : Nat
  /-- The number of the last block in the config store. -/
  lastConfigBlockNum : Nat
  wal : List Header
  /-- The states handed to the role's notifier. -/
  states : List State

def computeZeroState (config : BatcherNodeConfig) : State :=
  { (default : State) with
    shards := config.shards.map fun info => ⟨info.shardId, 0⟩
    n := UInt16.ofNat config.consenters.length }

def getPrimaryIDAndTerm (shard : ShardID) (batchers : List PartyID) (state : State) : Outcome (PartyID × Nat) := do
  let term ← BatcherRole.getTerm shard state
  if state.n = 0 then .error (.panic "runtime error: integer divide by zero")
  let primaryID ← Outcome.index batchers ((shard.toNat + term) % state.n.toNat)
  return (primaryID, term)

/-- What `configureBatcher` sets: the primary and the term are those of the zero state. -/
def newFollower (shard : ShardID) (config : BatcherNodeConfig) (lastConfigBlockNum : Nat) (wal : List Header) :
    Outcome Follower := do
  let batchers := batchersFromConfig config shard
  if batchers = [] then .error (.panic s!"Failed locating the configuration of our shard ({shard})")
  let (primaryID, term) ← getPrimaryIDAndTerm shard batchers (computeZeroState config)
  return { config, batchers, primaryID, term, lastConfigBlockNum, wal, states := [] }

namespace Follower

/-- What a decision is to the config store. -/
inductive ConfigCheck where
  /-- It has no config block, or the one that the store already ends with. -/
  | proceed
  /-- Its config block was processed before. -/
  | old
  /-- It has a new config block, of this number. -/
  | new (lastBlockNum : Nat)
  deriving DecidableEq, Repr

/-- The part of `replicateDecision` that compares the decision with the config store. -/
def checkConfig (W : Wire) (b : Follower) (header : Header) : Outcome ConfigCheck :=
  if header.num = header.decisionNumOfLastConfigBlock ∧ header.num ≠ 0 then
    match header.availableCommonBlocks.getLast? with
    | none => .error (.panic "runtime error: index out of range [-1]")
    | some lastBlock =>
      if isConfigBlock W lastBlock then
        let lastBlockNum := (lastBlock.header.map BlockHeader.number).getD 0
        if b.lastConfigBlockNum = lastBlockNum then .ok .proceed
        else if lastBlockNum < b.lastConfigBlockNum then .ok .old
        else .ok (.new lastBlockNum)
      else .ok .proceed
  else .ok .proceed

/-- The end of one round of `replicateDecision`. -/
inductive Handled where
  | processed (b : Follower) (state : State)
  | skipped (b : Follower)
  /-- The goroutine returns; the batcher will be configured anew. -/
  | newConfig (b : Follower)

/-- The primary and the term of the decision's state are taken over if the primary is another one. -/
def setPrimary (b : Follower) (primaryID : PartyID) (term : Nat) : Follower :=
  if b.primaryID ≠ primaryID then { b with primaryID, term } else b

def replicateDecision (W : Wire) (shard : ShardID) (b : Follower) (header : Header) : Outcome Handled := do
  let b := { b with wal := b.wal ++ [header] }
  match ← b.checkConfig W header with
  | .old => return .skipped b
  | .new lastBlockNum => return .newConfig { b with lastConfigBlockNum := lastBlockNum }
  | .proceed =>
    let state ← deref header.state
    let (primaryID, term) ← getPrimaryIDAndTerm shard b.batchers state
    return .processed ({ b with states := b.states ++ [state] }.setPrimary primaryID term) state

def createComplaint (b : Follower) (party : PartyID) (shard : ShardID) (sign : Bytes → Except String Bytes)
    (reason : String) : Outcome Complaint :=
  let c : Complaint :=
    { shardTerm := ⟨shard, b.term⟩, signer := party, signature := [], reason, configSeq := b.config.configSequence }
  match sign c.toBeSigned with
  | .ok signature => .ok { c with signature }
  | .error err => .error (.panic s!"Failed creating complaint: {err}")

/-- A run of `replicateDecision` on arbitrary headers: after each decision that was processed, its state and the
batcher then. -/
inductive Follows (W : Wire) (shard : ShardID) : Follower → List (State × Follower) → Prop
  | nil {b} : Follows W shard b []
  | processed {b b' header state trace} (hround : b.replicateDecision W shard header = .ok (.processed b' state))
      (hrest : Follows W shard b' trace) : Follows W shard b ((state, b') :: trace)
  | skipped {b b' header trace}
      (hround : b.replicateDecision W shard header = .ok (.skipped b')) (hrest : Follows W shard b' trace) :
      Follows W shard b trace

/-- The batcher has the term of its shard in the state, and consensus, in that state, takes every complaint that
it creates to be of the current term. -/
structure Current (party : PartyID) (shard : ShardID) (state : State) (b : Follower) : Prop where
  term : BatcherRole.getTerm shard state = .ok b.term
  complaint : ∀ sign reason c, b.createComplaint party shard sign reason = .ok c → c.shardTerm ∈ state.shards

variable {W : Wire} {party : PartyID} {shard : ShardID} {b b' : Follower} {state : State}
  {trace : List (State × Follower)}

theorem shardTerm_createComplaint {sign reason c}
    (h : b.createComplaint party shard sign reason = .ok c) : c.shardTerm = ⟨shard, b.term⟩ := by
  unfold createComplaint at h
  simp only at h
  split at h
  · cases h
    rfl
  · cases h

theorem mem_shards_of_getTerm {term} (h : BatcherRole.getTerm shard state = .ok term) :
    ⟨shard, term⟩ ∈ state.shards := by
  unfold BatcherRole.getTerm at h
  split at h
  · next st hst =>
    cases h
    obtain ⟨hmem, hshard⟩ := mem_filter.mp (mem_of_getLast? hst)
    obtain rfl : st.shard = shard := by simpa using hshard
    exact hmem
  · cases h

theorem current_iff : Current party shard state b ↔ BatcherRole.getTerm shard state = .ok b.term := by
  refine ⟨Current.term, fun hterm => ⟨hterm, fun sign reason c hc => ?_⟩⟩
  rw [shardTerm_createComplaint hc]
  exact mem_shards_of_getTerm hterm

/-- From one state to the next the term stays, or the primary changes. -/
def Moves (shard : ShardID) (batchers : List PartyID) (state state' : State) : Prop :=
  ∀ place place', getPrimaryIDAndTerm shard batchers state = .ok place →
    getPrimaryIDAndTerm shard batchers state' = .ok place' → place'.2 = place.2 ∨ place'.1 ≠ place.1

theorem getTerm_of_getPrimaryIDAndTerm {batchers place} (h : getPrimaryIDAndTerm shard batchers state = .ok place) :
    BatcherRole.getTerm shard state = .ok place.2 := by
  simp only [getPrimaryIDAndTerm, bind_eq_ok] at h
  obtain ⟨term, hterm, hret⟩ := h
  split at hret
  · cases hret
  · simp only [bind_eq_ok] at hret
    obtain ⟨primaryID, -, hret⟩ := hret
    cases hret
    exact hterm

/-- What a processed decision leaves of the batchers, the primary and the term. -/
theorem replicateDecision_processed {header} (h : b.replicateDecision W shard header = .ok (.processed b' state)) :
    b'.batchers = b.batchers ∧ ∃ place, getPrimaryIDAndTerm shard b.batchers state = .ok place ∧
      (b'.primaryID, b'.term) = if b.primaryID ≠ place.1 then place else (b.primaryID, b.term) := by
  simp only [replicateDecision, bind_eq_ok] at h
  obtain ⟨check, -, hret⟩ := h
  cases check with
  | old | new => cases hret
  | proceed =>
    simp only [bind_eq_ok] at hret
    obtain ⟨state', hstate, place, hplace, hret⟩ := hret
    cases hret
    simp only [setPrimary]
    by_cases hp : b.primaryID = place.1 <;> exact ⟨by simp [hp], place, hplace, by simp [hp]⟩

theorem replicateDecision_skipped {header} (h : b.replicateDecision W shard header = .ok (.skipped b')) :
    b'.batchers = b.batchers ∧ b'.primaryID = b.primaryID ∧ b'.term = b.term := by
  simp only [replicateDecision, bind_eq_ok] at h
  obtain ⟨check, -, hret⟩ := h
  cases check with
  | old =>
    cases hret
    exact ⟨rfl, rfl, rfl⟩
  | new => cases hret
  | proceed =>
    simp only [bind_eq_ok] at hret
    obtain ⟨state', hstate, place, hplace, hret⟩ := hret
    cases hret

theorem Follows.current_iff_isChain (hrun : Follows W shard b trace) {before}
    (hbefore : getPrimaryIDAndTerm shard b.batchers before = .ok (b.primaryID, b.term)) :
    (∀ x ∈ trace, Current party shard x.1 x.2) ↔ IsChain (Moves shard b.batchers) (before :: trace.map Prod.fst) := by
  induction hrun generalizing before with
  | nil => simp
  | skipped hround _ ih =>
    obtain ⟨hbatchers, hprimary, hterm⟩ := replicateDecision_skipped hround
    rw [← hbatchers]
    exact ih (by rw [hbatchers, hprimary, hterm]; exact hbefore)
  | @processed b b' _ state _ hround _ ih =>
    obtain ⟨hbatchers, place, hplace, hstored⟩ := replicateDecision_processed hround
    have hmoves : Moves shard b.batchers before state ↔ place.2 = b.term ∨ place.1 ≠ b.primaryID := by
      simp [Moves, hbefore, hplace]
    have hcurrent : Current party shard state b' ↔ b'.term = place.2 := by
      rw [current_iff, getTerm_of_getPrimaryIDAndTerm hplace, Except.ok.injEq, eq_comm]
    rw [forall_mem_cons, map_cons, isChain_cons_cons, hmoves, hcurrent]
    by_cases hp : b.primaryID = place.1
    · rw [if_neg (by simpa using hp)] at hstored
      obtain ⟨hprimary, hterm⟩ := Prod.mk.inj hstored
      rw [hterm]
      by_cases ht : place.2 = b.term
      · -- the stored pair is the pair of the state
        have hnext : getPrimaryIDAndTerm shard b'.batchers state = .ok (b'.primaryID, b'.term) := by
          rw [hbatchers, hplace, hprimary, hterm, hp, ← ht]
        rw [ih hnext, hbatchers]
        simp [ht]
      · simp [hp, ht, eq_comm]
    · rw [if_pos (by simpa using hp)] at hstored
      have hnext : getPrimaryIDAndTerm shard b'.batchers state = .ok (b'.primaryID, b'.term) := by
        rw [hbatchers, hplace, hstored]
      obtain ⟨hprimary, hterm⟩ := Prod.mk.inj hstored
      rw [ih hnext, hbatchers]
      simp [hterm, Ne.symm hp]

theorem newFollower_eq_ok {config lastConfigBlockNum wal}
    (h : newFollower shard config lastConfigBlockNum wal = .ok b) : b.batchers = batchersFromConfig config shard ∧
      getPrimaryIDAndTerm shard b.batchers (computeZeroState config) = .ok (b.primaryID, b.term) := by
  simp only [newFollower] at h
  split at h
  · cases h
  · simp only [bind_eq_ok] at h
    obtain ⟨place, hplace, hret⟩ := h
    cases hret
    exact ⟨rfl, hplace⟩

/-- **When a batcher's complaints name the current term**: from a start on, with any config and anything on its
disk, it has the term of every decision that it processed iff from each of those decisions to the next one, and
from the zero state to the first one, the primary changed whenever the term did. -/
theorem complaints_current_iff {config : BatcherNodeConfig} {lastConfigBlockNum : Nat} {wal : List Header}
    (hstart : newFollower shard config lastConfigBlockNum wal = .ok b) (hrun : Follows W shard b trace) :
    (∀ x ∈ trace, Current party shard x.1 x.2) ↔ List.IsChain (Moves shard (batchersFromConfig config shard))
        (computeZeroState config :: trace.map Prod.fst) := by
  obtain ⟨hbatchers, hzero⟩ := newFollower_eq_ok hstart
  rw [← hbatchers]
  exact hrun.current_iff_isChain hzero

/-! ## Four batchers -/

/-- Four parties with a batcher in shard 1 and a consenter each. -/
def fourBatchers : BatcherNodeConfig where
  shards := [⟨1, [1, 2, 3, 4]⟩]
  consenters := [1, 2, 3, 4]
  configSequence := 0
  verifySignature _ _ _ := .ok ()

/-- A state of four parties in which shard 1 is in the given term. -/
def stateInTerm (term : Nat) : State := { (default : State) with n := 4, shards := [⟨1, term⟩] }

/-- A decision with that state and no blocks. -/
def decisionInTerm (num : DecisionNum) (term : Nat) : Header where
  num
  prevHash := []
  availableCommonBlocks := []
  state := some (stateInTerm term)
  decisionNumOfLastConfigBlock := 0

theorem batchersFromConfig_fourBatchers : batchersFromConfig fourBatchers 1 = [1, 2, 3, 4] :=
  mergeSort_of_pairwise (by decide)

/-- The batcher of shard 1 after its start. -/
def startedFollower : Follower where
  config := fourBatchers
  batchers := [1, 2, 3, 4]
  primaryID := 2
  term := 0
  lastConfigBlockNum := 0
  wal := []
  states := []

theorem newFollower_fourBatchers : newFollower 1 fourBatchers 0 [] = .ok startedFollower := by
  simp only [newFollower, batchersFromConfig_fourBatchers]
  rfl

/-- A decision of term 1: the primary changes, and the batcher is in term 1. -/
theorem complaints_current_firstTerm :
    ∃ b b', newFollower 1 fourBatchers 0 [] = .ok b ∧ Follows refWire 1 b [(stateInTerm 1, b')] ∧
      ∀ x ∈ [(stateInTerm 1, b')], Current 1 1 x.1 x.2 := by
  have hround : startedFollower.replicateDecision refWire 1 (decisionInTerm 0 1) = .ok (.processed
      { startedFollower with
        primaryID := 3
        term := 1
        wal := [decisionInTerm 0 1]
        states := [stateInTerm 1] } (stateInTerm 1)) := rfl
  have hrun : Follows refWire 1 startedFollower _ := .processed hround .nil
  refine ⟨_, _, newFollower_fourBatchers, hrun, (complaints_current_iff newFollower_fourBatchers hrun).mpr ?_⟩
  refine isChain_cons_cons.mpr ⟨fun place place' hplace hplace' => .inr ?_, .singleton _⟩
  rw [batchersFromConfig_fourBatchers] at hplace hplace'
  obtain rfl : place = (2, 0) := (Except.ok.inj hplace).symm
  obtain rfl : place' = (3, 1) := (Except.ok.inj hplace').symm
  decide

/-- **A batcher that starts in term 4 complains about term 0**: the primary of term 4 is that of the zero state, so
the term is not stored, and consensus will find no such term in the decision's state. -/
theorem complaint_of_older_term : ∃ b b', newFollower 1 fourBatchers 0 [] = .ok b ∧
      b.replicateDecision refWire 1 (decisionInTerm 0 4) = .ok (.processed b' (stateInTerm 4)) ∧
      BatcherRole.getTerm 1 (stateInTerm 4) = .ok 4 ∧ b'.term = 0 ∧
      ∀ sign reason c, b'.createComplaint 1 1 sign reason = .ok c → c.shardTerm ∉ (stateInTerm 4).shards := by
  refine ⟨_, { startedFollower with wal := [decisionInTerm 0 4], states := [stateInTerm 4] },
    newFollower_fourBatchers, rfl, rfl, rfl, fun sign reason c hc => ?_⟩
  rw [shardTerm_createComplaint hc]
  decide

end Follower

end Arma
