import Arma.Batcher.Decisions
import Arma.Batcher.Verify
import Arma.Consensus.Terms
import Arma.Lib.Pull

/-!
# Replicating the decisions

Model of `ConsensusDecisionReplicator` (`node/delivery/consensus_decision_deliver_client.go`) and of what
`Batcher.replicateDecision` and the role's `getTermAndNotifyChange` do with its decisions, from one
`configureBatcher` to the next. The replicator is a client as in `Lib/Pull.lean`: the server's log is the decisions
of an honest consenter, and the position that it asks for is fixed when it is made. So each new stream brings the
decisions again from that position on, and nothing on the way drops those that were processed before.

**`Replication.forward_iff`**: the numbers of the decisions handed to `replicateDecision` increase iff they all came
over one stream. Then the term of the role and the number of the last decision in the write-ahead log never go
down. `Replication.back_to_older_decision` is a run in which all three go back.
-/

namespace Arma

open Arma.Lib Outcome List

/-! ## The decisions of an honest consenter -/

/-- What an honest consenter serves: every decision has the number of its block, and the terms only grow
(`Ordering.pairwise_termsLe`). -/
structure DecisionLog where
  headers : List Header
  num : ∀ (i : Nat) (header : Header), headers[i]? = some header → header.num = i
  terms : headers.Pairwise fun header header' =>
    ∀ s s', header.state = some s → header'.state = some s' → s.TermsLe s'

theorem BatcherRole.getTerm_le {shard s s' t t'} (h : s.TermsLe s')
    (ht : getTerm shard s = .ok t) (ht' : getTerm shard s' = .ok t') : t ≤ t' := by
  unfold getTerm at ht ht'
  have hfilter : Forall₂ (fun st st' : ShardTerm => st'.shard = st.shard ∧ st.term ≤ st'.term)
      ((s.shards.filter fun st => st.shard = shard).reverse)
      ((s'.shards.filter fun st => st.shard = shard).reverse) :=
    rel_reverse (rel_filter (fun st st' hst => by simp [hst.1]) h)
  rw [← head?_reverse] at ht ht'
  generalize (s.shards.filter fun st => st.shard = shard).reverse = l,
    (s'.shards.filter fun st => st.shard = shard).reverse = l' at hfilter ht ht'
  cases hfilter with
  | nil => simp at ht
  | cons hst _ =>
    cases ht
    cases ht'
    exact hst.2

/-- `getLastKnownDecisionNum`: the position that the replicator of a started batcher asks for. The last config
block's decision counts if the write-ahead log knows of none. -/
def getLastKnownDecisionNum (wal : List Header) (fromConfigStore : DecisionNum) : DecisionNum :=
  match wal.getLast? with
  | some header => if 0 < header.num then header.num else fromConfigStore
  | none => fromConfigStore

namespace Follower

/-- The batcher after a round of `replicateDecision`. -/
def Handled.follower : Handled → Follower
  | .processed b _ | .skipped b | .newConfig b => b

/-- Whether the goroutine returns after the round. -/
def Handled.returns : Handled → Bool
  | .newConfig _ => true
  | _ => false

theorem replicateDecision_eq_ok {W : Wire} {shard : ShardID} {b : Follower} {header handled}
    (h : b.replicateDecision W shard header = .ok handled) : handled.follower.wal = b.wal ++ [header] ∧
      ∃ states, states.Sublist header.state.toList ∧ handled.follower.states = b.states ++ states := by
  simp only [replicateDecision, bind_eq_ok] at h
  obtain ⟨check, -, hret⟩ := h
  cases check with
  | old | new =>
    cases hret
    exact ⟨rfl, [], nil_sublist _, (append_nil _).symm⟩
  | proceed =>
    simp only [bind_eq_ok] at hret
    obtain ⟨state, hstate, place, -, hret⟩ := hret
    cases hret
    rw [deref_eq_ok.mp hstate]
    simp only [Handled.follower, setPrimary]
    split <;> exact ⟨rfl, [state], Sublist.refl _, rfl⟩

end Follower

/-- The capacity of the replicator's channel. -/
def replicateDecisionChanSize : Nat := 100

/-! ## The run -/

/-- A batcher that replicates the decisions: the consenter's log, the replicator with the position it asks for, the
state of `replicateDecision`, the decisions handed to it, the role, and how many of the states handed on the role
has read. -/
structure Replication (W : Wire) (party : PartyID) (shard : ShardID) where
  log : DecisionLog
  seek : DecisionNum
  puller : Puller Header
  follower : Follower
  handed : List Header
  returned : Bool
  role : BatcherRole W party shard
  read : Nat

namespace Replication

variable {W : Wire} {party : PartyID} {shard : ShardID} {c c' c₀ c₁ : Replication W party shard}

/-- The number of the last decision in the write-ahead log. -/
def lastInWAL (c : Replication W party shard) : DecisionNum :=
  (c.follower.wal.getLast?.map Header.num).getD 0

/-- The batcher begins, after `configureBatcher`. -/
structure Begins (c : Replication W party shard) : Prop where
  idle : c.puller = .idle
  handed : c.handed = []
  states : c.follower.states = []
  term : c.role.term = 0
  read : c.read = 0
  known : c.lastInWAL ≤ c.seek

/-- One step of the consenter, of the replicator or of the batcher's goroutines. -/
inductive Step (c : Replication W party shard) : Replication W party shard → Prop
  | decide {log} (hlog : c.log.headers <+: log.headers) : Step c { c with log }
  | pull {puller}
      (hstep : Puller.Step (fun header => [header]) replicateDecisionChanSize c.log.headers c.seek c.puller
        puller) : Step c { c with puller }
  /-- `replicateDecision` takes a decision. The channel to the role holds one state. -/
  | handle {header rest handled} (hrunning : c.returned = false) (hchan : c.puller.chan = header :: rest)
      (hround : c.follower.replicateDecision W shard header = .ok handled)
      (hroom : handled.follower.states.length ≤ c.read + 1) :
      Step c { c with
        puller := { c.puller with chan := rest }
        follower := handled.follower
        handed := c.handed ++ [header]
        returned := handled.returns }
  | stop : Step c { c with returned := true }
  /-- The role's notifier reads the next state, and stores its term. -/
  | readState {state newTerm} (hat : c.role.notifier = .listening) (hstate : c.follower.states[c.read]? = some state)
      (hterm : BatcherRole.getTerm shard state = .ok newTerm) :
      Step c { c with
        role := if newTerm = c.role.term then c.role
          else { c.role with term := newTerm, notifier := .notifying newTerm }
        read := c.read + 1 }
  | role {r} (hstep : c.role.Step r) (hterm : r.term = c.role.term) : Step c { c with role := r }

def Run : Replication W party shard → Replication W party shard → Prop := Relation.ReflTransGen Step

/-- What holds in a run from a start: the replicator is faithful and asks for one position only, `replicateDecision`
has taken the decisions of its channel one after the other, the write-ahead log and the states handed on are made
of them, and the role has the term of the last state that it has read. -/
structure Inv (wal : List Header) (c : Replication W party shard) : Prop where
  faithful : c.puller.Faithful (fun header => [header]) c.log.headers
  first : ∀ s ∈ c.puller.sessions, s.first = c.seek
  emitted : c.puller.emitted = c.handed ++ c.puller.chan
  wal_eq : c.follower.wal = wal ++ c.handed
  states : c.follower.states.Sublist (c.handed.flatMap fun header => header.state.toList)
  term : c.role.term = 0 ∧ c.read = 0 ∨ ∃ n state, c.read = n + 1 ∧ c.follower.states[n]? = some state ∧
    BatcherRole.getTerm shard state = .ok c.role.term

theorem Begins.inv (h : c.Begins) : c.Inv c.follower.wal where
  faithful := h.idle ▸ Puller.faithful_idle
  first := by simp [h.idle, Puller.idle, Puller.sessions]
  emitted := by simp [h.idle, h.handed, Puller.idle]
  wal_eq := by simp [h.handed]
  states := by simp [h.states]
  term := .inl ⟨h.term, h.read⟩

theorem Step.seek_eq (h : Step c c') : c'.seek = c.seek := by cases h <;> rfl

theorem Step.inv {wal : List Header} (h : Step c c') (hc : c.Inv wal) : c'.Inv wal := by
  cases h with
  | decide hlog =>
    obtain ⟨more, hmore⟩ := hlog
    exact ⟨hmore ▸ hc.faithful.grow more, hc.first, hc.emitted, hc.wal_eq, hc.states, hc.term⟩
  | pull hstep =>
    obtain ⟨items, hemitted, hchan⟩ := hstep.emitted
    refine ⟨hstep.faithful hc.faithful, hstep.first_eq hc.first, ?_, hc.wal_eq, hc.states, hc.term⟩
    rw [hemitted, hchan, hc.emitted, append_assoc]
  | @handle _ _ _ _ hchan hround =>
    obtain ⟨hwal, states, hsub, hstates⟩ := Follower.replicateDecision_eq_ok hround
    refine ⟨⟨hc.faithful.emitted, hc.faithful.bound⟩, hc.first, ?_, ?_, ?_, ?_⟩
    · rw [hc.emitted, hchan]
      simp
    · rw [hwal, hc.wal_eq, append_assoc]
    · rw [hstates, flatMap_append, flatMap_singleton]
      exact hc.states.append hsub
    · refine hc.term.imp_right ?_
      rintro ⟨n, state, hread, hstate, hterm⟩
      refine ⟨n, state, hread, ?_, hterm⟩
      rw [hstates]
      exact getElem?_append_left (lt_of_getElem? hstate) ▸ hstate
  | stop => exact ⟨hc.faithful, hc.first, hc.emitted, hc.wal_eq, hc.states, hc.term⟩
  | @readState state newTerm _ hstate hterm =>
    refine ⟨hc.faithful, hc.first, hc.emitted, hc.wal_eq, hc.states, .inr ⟨c.read, state, rfl, hstate, ?_⟩⟩
    by_cases hnew : newTerm = c.role.term <;> simpa [hnew] using hterm
  | role _ hterm =>
    exact ⟨hc.faithful, hc.first, hc.emitted, hc.wal_eq, hc.states, by rw [hterm]; exact hc.term⟩

theorem Run.inv (h : Run c₀ c) (hbegin : c₀.Begins) : c.Inv c₀.follower.wal ∧ c.seek = c₀.seek := by
  induction h with
  | refl => exact ⟨hbegin.inv, rfl⟩
  | tail _ hstep ih => exact ⟨hstep.inv ih.1, hstep.seek_eq.trans ih.2⟩

/-! ## Going forward -/

theorem Step.grows (h : Step c c') :
    c.handed <+: c'.handed ∧ c.follower.states <+: c'.follower.states ∧ c.read ≤ c'.read := by
  cases h with
  | handle _ _ hround =>
    obtain ⟨-, states, -, hstates⟩ := Follower.replicateDecision_eq_ok hround
    exact ⟨prefix_append _ _, ⟨states, hstates.symm⟩, le_rfl⟩
  | readState => exact ⟨prefix_rfl, prefix_rfl, Nat.le_succ _⟩
  | _ => exact ⟨prefix_rfl, prefix_rfl, le_rfl⟩

theorem Run.grows (h : Run c c') :
    c.handed <+: c'.handed ∧ c.follower.states <+: c'.follower.states ∧ c.read ≤ c'.read := by
  induction h with
  | refl => exact ⟨prefix_rfl, prefix_rfl, le_rfl⟩
  | tail _ hstep ih =>
    exact ⟨ih.1.trans hstep.grows.1, ih.2.1.trans hstep.grows.2.1, ih.2.2.trans hstep.grows.2.2⟩

section Invariant

variable {wal : List Header} (hc : c.Inv wal)

include hc

theorem Inv.map_num : c.handed.map Header.num = c.puller.positions.take c.handed.length :=
  hc.faithful.map_taken c.log.num hc.emitted

theorem Inv.log_num {header} (h : header ∈ c.handed) : c.log.headers[header.num]? = some header := by
  have hmem : header ∈ c.puller.emitted ++ c.puller.handing := by
    rw [hc.emitted]
    exact mem_append_left _ (mem_append_left _ h)
  obtain ⟨n, hn⟩ := hc.faithful.exists_getElem? hmem
  rw [c.log.num n header hn]
  exact hn

/-- **The decisions increase as long as they come over one stream.** -/
theorem Inv.increasing_iff :
    (c.handed.map Header.num).Pairwise (· < ·) ↔ Session.FromOne c.puller.sessions c.handed.length :=
  hc.faithful.increasing_iff c.log.num hc.emitted hc.first

theorem Inv.states_termsLe (h : (c.handed.map Header.num).Pairwise (· < ·)) :
    c.follower.states.Pairwise State.TermsLe := by
  refine Pairwise.sublist hc.states (pairwise_flatMap.mpr ⟨fun header _ => ?_, ?_⟩)
  · cases header.state <;> simp
  · refine (pairwise_map.mp h).imp_of_mem fun {header header'} hmem hmem' hlt s hs s' hs' => ?_
    obtain ⟨hi, hget⟩ := List.getElem?_eq_some_iff.mp (hc.log_num hmem)
    obtain ⟨hj, hget'⟩ := List.getElem?_eq_some_iff.mp (hc.log_num hmem')
    have hterms := pairwise_iff_getElem.mp c.log.terms _ _ hi hj hlt
    rw [hget, hget'] at hterms
    exact hterms s s' (Option.mem_toList.mp hs) (Option.mem_toList.mp hs')

end Invariant

/-- Of a list that does not decrease, the last entry of a first part is not above the last entry. -/
theorem getLastD_le_of_prefix {l m : List Nat} {a} (h : l <+: m) (hm : (a :: m).Pairwise (· ≤ ·)) :
    l.getLastD a ≤ m.getLastD a := by
  obtain ⟨rest, rfl⟩ := h
  cases rest using List.reverseRecOn with
  | nil => simp
  | append_singleton _ n =>
    rw [← append_assoc, getLastD_concat]
    have hmem : l.getLastD a ∈ a :: l := by
      rw [getLastD_eq_getLast?]
      cases hl : l.getLast? with
      | none => exact mem_cons_self
      | some b => exact mem_cons_of_mem _ (mem_of_getLast? hl)
    rw [← cons_append] at hm
    exact (pairwise_append.mp hm).2.2 _ hmem n (by simp)

theorem Inv.term_le {wal} (hc₁ : c₁.Inv wal) (hc : c.Inv wal) (hrun : Run c₁ c)
    (hstates : c.follower.states.Pairwise State.TermsLe) : c₁.role.term ≤ c.role.term := by
  obtain ⟨-, hprefix, hread⟩ := hrun.grows
  rcases hc₁.term with ⟨hzero, -⟩ | ⟨n₁, state₁, hn₁, hstate₁, hterm₁⟩
  · rw [hzero]
    exact Nat.zero_le _
  · rcases hc.term with ⟨-, hnone⟩ | ⟨n, state, hn, hstate, hterm⟩
    · omega
    · have hstate₁' : c.follower.states[n₁]? = some state₁ := by
        obtain ⟨more, hmore⟩ := hprefix
        rw [← hmore, getElem?_append_left (lt_of_getElem? hstate₁)]
        exact hstate₁
      rcases Nat.eq_or_lt_of_le (show n₁ ≤ n by omega) with rfl | hlt
      · cases hstate₁'.symm.trans hstate
        exact (Except.ok.inj (hterm₁.symm.trans hterm)).le
      · obtain ⟨hi, rfl⟩ := List.getElem?_eq_some_iff.mp hstate₁'
        obtain ⟨hj, rfl⟩ := List.getElem?_eq_some_iff.mp hstate
        exact BatcherRole.getTerm_le (pairwise_iff_getElem.mp hstates _ _ hi hj hlt) hterm₁ hterm

theorem Inv.lastInWAL_eq (hc : c.Inv c₀.follower.wal) :
    c.lastInWAL = (c.handed.map Header.num).getLastD c₀.lastInWAL := by
  rw [lastInWAL, hc.wal_eq]
  cases c.handed using List.reverseRecOn with
  | nil => simp [lastInWAL]
  | append_singleton => simp

theorem Inv.lastInWAL_le (hbegin : c₀.Begins) (hc₁ : c₁.Inv c₀.follower.wal) (hc : c.Inv c₀.follower.wal)
    (hseek : c.seek = c₀.seek) (hrun : Run c₁ c) (h : (c.handed.map Header.num).Pairwise (· < ·)) :
    c₁.lastInWAL ≤ c.lastInWAL := by
  rw [hc₁.lastInWAL_eq, hc.lastInWAL_eq]
  refine getLastD_le_of_prefix (hrun.grows.1.map _) (pairwise_cons.mpr ⟨fun n hn => ?_, h.imp Nat.le_of_lt⟩)
  rw [hc.map_num] at hn
  refine hbegin.known.trans ?_
  rw [← hseek]
  exact Session.le_of_mem_positions hc.first (mem_of_mem_take hn)

/-- **When a batcher goes forward only**: in every run between two starts, the numbers of the decisions handed to
`replicateDecision` increase iff these decisions came over one stream. Then neither the term of the role nor the
last number in the write-ahead log goes down from any point of the run to a later one. -/
theorem forward_iff (hbegin : c₀.Begins) (hrun : Run c₀ c) :
    ((c.handed.map Header.num).Pairwise (· < ·) ↔ Session.FromOne c.puller.sessions c.handed.length) ∧
    (Session.FromOne c.puller.sessions c.handed.length → ∀ c₁, Run c₀ c₁ → Run c₁ c →
      c₁.role.term ≤ c.role.term ∧ c₁.lastInWAL ≤ c.lastInWAL) := by
  obtain ⟨hc, hseek⟩ := hrun.inv hbegin
  refine ⟨hc.increasing_iff, fun hone c₁ hrun₁ hrest => ?_⟩
  have hc₁ := (hrun₁.inv hbegin).1
  have hincreasing := hc.increasing_iff.mpr hone
  exact ⟨hc₁.term_le hc hrest (hc.states_termsLe hincreasing), hc₁.lastInWAL_le hbegin hc hseek hrest hincreasing⟩

/-! ## A batcher that reconnects -/

/-- Decision 0 in term 0 and decision 1 in term 1. -/
def twoDecisions : DecisionLog where
  headers := [Follower.decisionInTerm 0 0, Follower.decisionInTerm 1 1]
  num := by
    intro i header h
    match i, h with
    | 0, h | 1, h => cases h; rfl
  terms := by
    refine pairwise_pair.mpr fun s s' hs hs' => ?_
    cases hs
    cases hs'
    exact .cons ⟨rfl, Nat.zero_le 1⟩ .nil

/-- A batcher of shard 1 that was started for the first time. -/
def firstReplication (W : Wire) : Replication W 1 1 where
  log := twoDecisions
  seek := getLastKnownDecisionNum [] 0
  puller := .idle
  follower := Follower.startedFollower
  handed := []
  returned := false
  role := BatcherRole.secondaryRole W 0
  read := 0

theorem begins_firstReplication (W : Wire) : (firstReplication W).Begins := ⟨rfl, rfl, rfl, rfl, rfl, le_rfl⟩

/-- It handles both decisions and its role is told the new term. -/
def bothHandled (W : Wire) : Replication W 1 1 :=
  { firstReplication W with
    puller := ⟨[], some ⟨0, 2⟩, [], [], twoDecisions.headers⟩
    follower := { Follower.startedFollower with
      primaryID := 3
      term := 1
      wal := twoDecisions.headers
      states := [Follower.stateInTerm 0, Follower.stateInTerm 1] }
    handed := twoDecisions.headers
    role := { BatcherRole.secondaryRole W 0 with term := 1, termChan := some 1 }
    read := 2 }

theorem run_bothHandled : Run (firstReplication refWire) (bothHandled refWire) := by
  have hconnected : Run (firstReplication refWire) _ := .single (.pull (.connect rfl))
  have hpulled := (hconnected.tail (.pull (.receive rfl rfl rfl))).tail (.pull (.hand rfl (by decide)))
  have hhandled := (hpulled.tail (.handle rfl rfl rfl (by decide))).tail (.readState rfl rfl rfl)
  have hpulled' := (hhandled.tail (.pull (.receive rfl rfl rfl))).tail (.pull (.hand rfl (by decide)))
  have hhandled' := (hpulled'.tail (.handle rfl rfl rfl (by decide))).tail (.readState rfl rfl rfl)
  exact hhandled'.tail (.role (.notify rfl rfl) rfl)

/-- Over one stream the batcher goes forward. -/
theorem forward_bothHandled : ((bothHandled refWire).handed.map Header.num).Pairwise (· < ·) ∧
      (firstReplication refWire).role.term ≤ (bothHandled refWire).role.term ∧
      (firstReplication refWire).lastInWAL ≤ (bothHandled refWire).lastInWAL := by
  have hforward := forward_iff (begins_firstReplication refWire) run_bothHandled
  have hone : Session.FromOne (bothHandled refWire).puller.sessions (bothHandled refWire).handed.length := Nat.le_refl 2
  exact ⟨hforward.1.mpr hone, hforward.2 hone _ .refl run_bothHandled⟩

/-- **A batcher goes back to an older decision**: after the stream has failed, the new one begins with decision 0
again. The write-ahead log then ends with it, and the role falls back to its term. -/
theorem back_to_older_decision :
    ∃ c, (firstReplication refWire).Begins ∧ Run (firstReplication refWire) (bothHandled refWire) ∧
      Run (bothHandled refWire) c ∧ c.handed.map Header.num = [0, 1, 0] ∧
      (bothHandled refWire).role.term = 1 ∧ c.role.term = 0 ∧
      (bothHandled refWire).lastInWAL = 1 ∧ c.lastInWAL = 0 := by
  have hfailed : Run (bothHandled refWire) _ := .single (.pull (.fail rfl rfl))
  have hconnected := hfailed.tail (.pull (.connect rfl))
  have hpulled := (hconnected.tail (.pull (.receive rfl rfl rfl))).tail (.pull (.hand rfl (by decide)))
  have hhandled := (hpulled.tail (.handle rfl rfl rfl (by decide))).tail (.readState rfl rfl rfl)
  exact ⟨_, begins_firstReplication refWire, run_bothHandled, hhandled, rfl, rfl, rfl, rfl, rfl⟩

end Replication

end Arma
