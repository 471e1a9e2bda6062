import Arma.State.Invariant
import Arma.Consensus.Node

/-!
# The state transition of a decision

Model of `node/consensus/consenter.go` and of `ApplyConfigToState` (`consensus_config_applier.go`): the
events of a payload are run through `State.Process`, fragments of a digest that the BADB knows being left
out; the extracted fragments are grouped into one group per batch; and a config request changes the
number of parties.

* `aggregateFragments_eq`: there is one group for each batch that was extracted, with all its fragments.
* `simulateStateTransition_eq`: from a sound state and a payload that decodes, the transition ends, and
  its result is that of the round.
-/

namespace Arma

open Arma.Lib Outcome List

def batchIDKeyOf (baf : BAF) : BatchIDKey := ⟨baf.shard, baf.primary, baf.seq, baf.digest⟩

theorem batchIDKeyOf_eq_iff {b b'} :
    batchIDKeyOf b' = batchIDKeyOf b ↔ batchKeyOf b' = batchKeyOf b ∧ b'.digest = b.digest := by
  simp only [batchIDKeyOf, batchKeyOf, BatchIDKey.mk.injEq, BatchKey.mk.injEq]
  tauto

def aggregateFragments (fragments : List BAF) : List (List BAF) :=
  groupsInOrder batchIDKeyOf fragments

def requestsToControlEvents (W : Wire) (requests : BatchedRequests) : Outcome (List ControlEvent) :=
  mapEach (fun _ => ControlEvent.fromBytes W) 0 requests

/-- The loop of `SimulateStateTransition` that prunes the fragments of digests that are in the DB. -/
def pruneKnown (badb : List Bytes) (controlEvents : List ControlEvent) : List ControlEvent :=
  controlEvents.filter fun ce =>
    match ce with
    | .baf b => b.digest ∉ badb
    | _ => true

/-- **`SimulateStateTransition`**: the next state, the groups of fragments and the config requests. -/
def simulateStateTransition (W : Wire) (badb : List Bytes) (prevState : State)
    (configSeq : ConfigSequence) (requests : BatchedRequests) :
    Outcome (State × List (List BAF) × List ConfigRequest) := do
  let controlEvents ← (requestsToControlEvents W requests).orPanic id
  let (newState, fragments, configRequests) ←
    prevState.process W configSeq (pruneKnown badb controlEvents)
  return (newState, aggregateFragments fragments, configRequests)

/-- `Index`: the digests are put into the DB. -/
def index (badb : List Bytes) (digests : List Bytes) : List Bytes := badb ++ digests

/-- `ApplyConfigToState`: new threshold and quorum; when the number of parties changes, every term is
raised. -/
def applyConfigToState {W : Wire} (L : ConfigLib W) (s : State) (configRequest : ConfigRequest) : Outcome State := do
  let sharedConfig ← ofExcept (L.sharedConfig configRequest.envelope)
  let n := UInt16.ofNat sharedConfig.parties.length
  let (_, t, q) := computeFTQ n
  let newState := { s with
    n
    threshold := t
    quorum := q
    shards := if n ≠ s.n then s.shards.map ShardTerm.next else s.shards }
  return newState.retainAssemblerHeights sharedConfig.partyIDs

/-! ## The groups -/

theorem mem_aggregateFragments {fragments g} : g ∈ aggregateFragments fragments ↔
      ∃ b ∈ fragments, g = fragments.filter (batchIDKeyOf · = batchIDKeyOf b) :=
  mem_groupsInOrder

theorem aggregateFragments_ne_nil {fragments g} (h : g ∈ aggregateFragments fragments) : g ≠ [] := by
  obtain ⟨b, hb, rfl⟩ := mem_aggregateFragments.mp h
  exact ne_nil_of_mem (mem_filter.mpr ⟨hb, by simp⟩)

/-- The fragment that stands for each group, `ba[0]`. -/
def firstFragments (attestations : List (List BAF)) : List BAF := attestations.filterMap List.head?

theorem forall₂_firstFragments {attestations} (h : ∀ g ∈ attestations, g ≠ []) :
    Forall₂ (fun g b => g[0]? = some b) attestations (firstFragments attestations) := by
  induction attestations with
  | nil => exact Forall₂.nil
  | cons g rest ih =>
    obtain ⟨b, g', rfl⟩ := exists_cons_of_ne_nil (h g (by simp))
    exact Forall₂.cons rfl (ih fun g hg => h g (by simp [hg]))

/-- **The groups are one per batch**: the batches of the first fragments are the extracted ones, each
once. -/
theorem map_batchIDKeyOf_firstFragments (fragments : List BAF) :
    (firstFragments (aggregateFragments fragments)).map batchIDKeyOf = firstSeen batchIDKeyOf fragments := by
  unfold firstFragments aggregateFragments
  rw [groupsInOrder_eq]
  have hkey : ∀ k ∈ firstSeen batchIDKeyOf fragments,
      ((fragments.filter (batchIDKeyOf · = k)).head?.map batchIDKeyOf) = some k := by
    intro k hk
    obtain ⟨b, hb, hbk⟩ := mem_firstSeen.mp hk
    cases hg : fragments.filter (batchIDKeyOf · = k) with
    | nil =>
      have hmem : b ∈ fragments.filter (batchIDKeyOf · = k) := mem_filter.mpr ⟨hb, by simpa using hbk⟩
      simp [hg] at hmem
    | cons b' g =>
      have hb' : b' ∈ fragments.filter (batchIDKeyOf · = k) := by simp [hg]
      simpa using (mem_filter.mp hb').2
  revert hkey
  induction firstSeen batchIDKeyOf fragments with
  | nil => simp
  | cons k ks ih =>
    intro hkey
    obtain ⟨b, hb, hbk⟩ := Option.map_eq_some_iff.mp (hkey k (by simp))
    rw [map_cons, filterMap_cons, hb]
    simp only [map_cons, hbk]
    rw [ih fun k' hk' => hkey k' (by simp [hk'])]

theorem nodup_firstFragments (fragments : List BAF) :
    ((firstFragments (aggregateFragments fragments)).map batchIDKeyOf).Nodup := by
  rw [map_batchIDKeyOf_firstFragments]
  exact nodup_firstSeen

theorem mem_firstFragments {attestations b} :
    b ∈ firstFragments attestations ↔ ∃ g ∈ attestations, g.head? = some b := by
  simp [firstFragments]

theorem mem_digests_firstFragments {fragments d} :
    d ∈ (firstFragments (aggregateFragments fragments)).map (·.digest) ↔ ∃ b ∈ fragments, b.digest = d := by
  rw [mem_map]
  constructor
  · rintro ⟨b, hb, rfl⟩
    obtain ⟨g, hg, hhead⟩ := mem_firstFragments.mp hb
    obtain ⟨b₀, -, rfl⟩ := mem_aggregateFragments.mp hg
    exact ⟨b, (mem_filter.mp (mem_of_head? hhead)).1, rfl⟩
  · rintro ⟨b, hb, rfl⟩
    have hkey : batchIDKeyOf b ∈ (firstFragments (aggregateFragments fragments)).map batchIDKeyOf := by
      rw [map_batchIDKeyOf_firstFragments]
      exact mem_firstSeen.mpr ⟨b, hb, rfl⟩
    obtain ⟨b₀, hb₀, hsame⟩ := mem_map.mp hkey
    exact ⟨b₀, hb₀, (batchIDKeyOf_eq_iff.mp hsame).2⟩

/-! ## The transition -/

variable {W : Wire} {badb : List Bytes} {s s' : State} {configSeq : ConfigSequence}
  {requests : BatchedRequests} {ces : List ControlEvent} {attestations : List (List BAF)}
  {configRequests : List ConfigRequest}

theorem requestsToControlEvents_eq_ok : requestsToControlEvents W requests = .ok ces ↔
      Forall₂ (fun req ce => ControlEvent.fromBytes W req = .ok ce) requests ces :=
  mapEach_eq_ok

theorem simulateStateTransition_eq_ok :
    simulateStateTransition W badb s configSeq requests = .ok (s', attestations, configRequests) ↔
      ∃ ces extracted, requestsToControlEvents W requests = .ok ces ∧
        s.process W configSeq (pruneKnown badb ces) = .ok (s', extracted, configRequests) ∧
        attestations = aggregateFragments extracted := by
  simp only [simulateStateTransition, bind_eq_ok, orPanic_eq_ok]
  constructor
  · rintro ⟨ces, hces, ⟨s₁, extracted, rs⟩, hp, hret⟩
    obtain ⟨rfl, rfl, rfl⟩ : s₁ = s' ∧ aggregateFragments extracted = attestations ∧
      rs = configRequests := by simpa using hret
    exact ⟨ces, extracted, hces, hp, rfl⟩
  · rintro ⟨ces, extracted, hces, hp, rfl⟩
    exact ⟨ces, hces, (s', extracted, configRequests), hp, rfl⟩

theorem simulateStateTransition_eq (h : s.Sound) (hces : requestsToControlEvents W requests = .ok ces) :
    ∃ r, simulateStateTransition W badb s configSeq requests = .ok r := by
  obtain ⟨r, cs, hp, -⟩ := @State.process_eq W configSeq (pruneKnown badb ces) s h
  exact ⟨_, simulateStateTransition_eq_ok.mpr ⟨ces, _, hces, hp, rfl⟩⟩

theorem simulateStateTransition_sound (h : s.Sound) (hsim : simulateStateTransition W badb s configSeq requests =
      .ok (s', attestations, configRequests)) : s'.Sound := by
  obtain ⟨ces, extracted, -, hp, -⟩ := simulateStateTransition_eq_ok.mp hsim
  exact h.process hp

section

variable (hsim : simulateStateTransition W badb s configSeq requests = .ok (s', attestations, configRequests))
include hsim

theorem simulateStateTransition_frame :
    s'.n = s.n ∧ s'.threshold = s.threshold ∧ s'.quorum = s.quorum ∧ s'.appContext = s.appContext := by
  obtain ⟨ces, extracted, -, hp, -⟩ := simulateStateTransition_eq_ok.mp hsim
  obtain ⟨hs', -, -⟩ := State.process_frame hp
  rw [hs', State.collected_frame]
  exact ⟨rfl, rfl, rfl, rfl⟩

theorem simulateStateTransition_groups : ∀ g ∈ attestations, g ≠ [] := by
  obtain ⟨ces, extracted, -, -, rfl⟩ := simulateStateTransition_eq_ok.mp hsim
  exact fun g hg => aggregateFragments_ne_nil hg

/-- A config request that comes out of a transition is the next config of the sequence. -/
theorem simulateStateTransition_configRequests : ∀ r ∈ configRequests, r.configSequence W = .ok (configSeq + 1) := by
  obtain ⟨ces, extracted, -, hp, -⟩ := simulateStateTransition_eq_ok.mp hsim
  obtain ⟨-, -, rfl⟩ := State.process_frame hp
  intro r hr
  obtain ⟨ce, hce, hcr⟩ := mem_filterMap.mp hr
  cases ce with
  | configRequest r' =>
    obtain rfl : r' = r := by simpa using hcr
    have hkeep : filterCE W configSeq (.configRequest r') = .keep := by
      simpa using (mem_filter.mp hce).2
    simp only [filterCE] at hkeep
    split at hkeep
    · rename_i seq hseq
      split at hkeep
      · rename_i heq
        rw [hseq, heq]
      · cases hkeep
    · cases hkeep
  | baf | complaint | assemblerReport => simp at hcr

end

end Arma
