import Arma.Assembler.Partition

/-!
# Stopping an assembler for a new config

Model of `Assembler.SoftStop` (`node/assembler/assembler.go`) with `Prefetcher.Stop`, `handleReplication` and
`Collator.Stop`. `Prefetcher.Stop` cancels its context and waits for the goroutines of the shards, and only after it
`Collator.Stop` stops the index. The goroutines look at the context of the prefetcher between two batches; a `Put` that
waits for room looks at that of the index.

* A `Put` that does not wait has the lock until it returns: its evictions and the insertion are one step (`Puts`).
* When `SoftStop` is called the collator has returned, so nothing is popped any more. TTL timers are left out, and
  `handleBatchRequests`, which never waits.

**`soft_stop_completes`**: if no goroutine waits in `Put`, and none comes to a batch that it would wait with (`Fits`),
then from every state of every run the stop can be completed. `soft_stop_blocked` is a run to a stop that cannot.
-/

namespace Arma

open List Function

open Arma.Partition (oneRequest)

/-- `handleReplication` of a shard. -/
structure Replicating where
  chan : List FabricBatch
  waiting : Option FabricBatch
  returned : Bool

/-- How far `SoftStop` is. -/
inductive StopStage where
  | running
  /-- In `wg.Wait` of `Prefetcher.Stop`. -/
  | prefetcherStop
  | collatorStop
  | stopped
  deriving DecidableEq, Repr

structure Prefetching where
  indexes : ShardPrimary → PartitionPrefetchIndex
  goroutines : List Replicating
  stage : StopStage

/-- `Put` goes to wait for a batch. -/
def PartitionPrefetchIndex.Waits (pi : PartitionPrefetchIndex) (batch : FabricBatch) : Prop :=
  pi.full batch = true ∧ pi.cancelled = false ∧ pi.maxPoppedCallSeq < batch.seq

theorem PartitionPrefetchIndex.waits_putEnter {pi pi' : PartitionPrefetchIndex} {batch r}
    (h : pi.putEnter batch = .ok (pi', r)) : pi'.Waits batch = pi.Waits batch := by
  obtain ⟨seq, rfl⟩ := putEnter_eq_ok h
  rfl

/-- The loop of `Put` and what follows, if it does not wait. -/
inductive PartitionPrefetchIndex.Puts (batch : FabricBatch) : PartitionPrefetchIndex → PartitionPrefetchIndex → Prop
  | evict {pi pi' pi''}
      (hfull : pi.full batch = true) (hrunning : pi.cancelled = false) (hasked : batch.seq ≤ pi.maxPoppedCallSeq)
      (hevict : pi.evictOldestBatch = .ok (pi', .ok ())) (hputs : Puts batch pi' pi'') : Puts batch pi pi''
  | evictFails {pi pi' e}
      (hfull : pi.full batch = true) (hrunning : pi.cancelled = false) (hasked : batch.seq ≤ pi.maxPoppedCallSeq)
      (hevict : pi.evictOldestBatch = .ok (pi', .error e)) : Puts batch pi pi'
  | fails {pi : PartitionPrefetchIndex} (hfull : pi.full batch = true) (hfail : pi.cancelled = true) : Puts batch pi pi
  | save {pi pi' r} (hroom : pi.full batch = false)
      (hsave : pi.saveOrdinaryBatch batch = .ok (pi', r)) : Puts batch pi pi'

/-- `handleReplication` puts a batch from its channel into the index of the batch, or goes on with one that has
waited. -/
inductive Replicating.Step (batch : FabricBatch) (index : PartitionPrefetchIndex) :
    Replicating → PartitionPrefetchIndex → Replicating → Prop
  | putRefused {rest pi e} (hput : index.putEnter batch = .ok (pi, .error e)) :
      Step batch index ⟨batch :: rest, none, false⟩ pi ⟨rest, none, false⟩
  | put {rest pi pi'} (hput : index.putEnter batch = .ok (pi, .ok ()))
      (hputs : pi.Puts batch pi') : Step batch index ⟨batch :: rest, none, false⟩ pi' ⟨rest, none, false⟩
  | putWaits {rest pi} (hput : index.putEnter batch = .ok (pi, .ok ()))
      (hwaits : pi.Waits batch) : Step batch index ⟨batch :: rest, none, false⟩ pi ⟨rest, some batch, false⟩
  | putWakes {chan pi} (hputs : index.Puts batch pi) :
      Step batch index ⟨chan, some batch, false⟩ pi ⟨chan, none, false⟩

namespace Prefetching

inductive Step (s : Prefetching) : Prefetching → Prop
  /-- The batcher of the own party streams a batch. -/
  | stream {before after g batch} (hg : s.goroutines = before ++ g :: after) :
      Step s { s with goroutines := before ++ { g with chan := g.chan ++ [batch] } :: after }
  | replicate {before after g g' batch pi} (hg : s.goroutines = before ++ g :: after)
      (hstep : g.Step batch (s.indexes batch.batchID.partition) pi g') :
      Step s { s with
        indexes := update s.indexes batch.batchID.partition pi
        goroutines := before ++ g' :: after }
  /-- The collator is in `PopOrWait`. -/
  | pop {p batchId pi} (hstage : s.stage = .running)
      (hpop : (s.indexes p).popEnter batchId = .ok pi ∨ ∃ r, (s.indexes p).popRound batchId = .ok (pi, r)) :
      Step s { s with indexes := update s.indexes p pi }
  /-- A batch that was asked for arrives. -/
  | putForce {p batch pi r} (hput : (s.indexes p).putForce batch = .ok (pi, r)) :
      Step s { s with indexes := update s.indexes p pi }
  /-- The collator has returned, and `SoftStop` cancels the context of the prefetcher. -/
  | softStop (hstage : s.stage = .running) : Step s { s with stage := .prefetcherStop }
  /-- `handleReplication` finds the context cancelled. -/
  | leave {before after g}
      (hg : s.goroutines = before ++ g :: after) (hat : g.waiting = none) (hstage : s.stage ≠ .running) :
      Step s { s with goroutines := before ++ { g with returned := true } :: after }
  /-- All goroutines have returned, and the batch fetcher and the replicator are stopped. -/
  | prefetcherStopped (hstage : s.stage = .prefetcherStop)
      (hall : ∀ g ∈ s.goroutines, g.returned) : Step s { s with stage := .collatorStop }
  | indexStopped (hstage : s.stage = .collatorStop) :
      Step s { s with indexes := fun p => (s.indexes p).stop, stage := .stopped }

def Run : Prefetching → Prefetching → Prop := Relation.ReflTransGen Step

/-- An assembler that starts with so many shards. -/
def start (maxSizeBytes shards : Nat) : Prefetching :=
  ⟨fun p => .new p maxSizeBytes, replicate shards ⟨[], none, false⟩, .running⟩

variable {s s' : Prefetching}

theorem run_returned (hstage : s.stage ≠ .running) {done rest}
    (hg : s.goroutines = done ++ rest) (hwaiting : ∀ g ∈ rest, g.waiting = none) :
    Run s { s with goroutines := done ++ rest.map fun g => { g with returned := true } } := by
  induction rest generalizing s done with
  | nil =>
    rw [map_nil, ← hg]
    exact .refl
  | cons g rest ih =>
    obtain ⟨hat, hrest⟩ := forall_mem_cons.mp hwaiting
    have hfirst : Run s { s with goroutines := done ++ { g with returned := true } :: rest } :=
      .single (.leave hg hat hstage)
    have hothers := hfirst.trans (@ih { s with goroutines := done ++ { g with returned := true } :: rest } hstage
        (done ++ [{ g with returned := true }]) (append_cons ..) hrest)
    rwa [← append_cons] at hothers

/-- The batch that a goroutine comes to next is not one that `Put` waits with: there is room for it, or it is not ahead
of the calls of `PopOrWait`. -/
def Fits (s : Prefetching) : Prop :=
  ∀ g ∈ s.goroutines, g.returned = false → ∀ batch ∈ g.chan.head?, ¬ (s.indexes batch.batchID.partition).Waits batch

/-- A run through states where the next batches fit. -/
def FittingRun : Prefetching → Prefetching → Prop := Relation.ReflTransGen fun s s' => s.Fits ∧ Step s s'

/-- No goroutine waits in `Put`. -/
def Free (s : Prefetching) : Prop := ∀ g ∈ s.goroutines, g.waiting = none

/-- The context of the prefetcher stays cancelled, and no goroutine goes to wait. -/
theorem Free.step (hfree : s.Free) (hstage : s.stage ≠ .running) (hfits : s.Fits) (hstep : Step s s') :
    s'.Free ∧ s'.stage ≠ .running := by
  have hreplace : ∀ {before after g g'}, s.goroutines = before ++ g :: after → g'.waiting = none →
      ∀ x ∈ before ++ g' :: after, x.waiting = none := by
    intro before after g g' hg hnone
    have hall : ∀ x ∈ s.goroutines, x.waiting = none := hfree
    rw [hg] at hall
    exact Lib.forall_mem_replace hall fun _ => hnone
  cases hstep with
  | @stream _ _ g _ hg => exact ⟨hreplace hg (hfree g (hg ▸ mem_append_cons_self)), hstage⟩
  | @replicate _ _ _ _ batch _ hg hstep =>
    refine ⟨hreplace hg ?_, hstage⟩
    cases hstep with
    | putRefused | put | putWakes => rfl
    | putWaits hput hwaits =>
      have hbatch := hfits _ (hg ▸ mem_append_cons_self) rfl batch rfl
      exact absurd (PartitionPrefetchIndex.waits_putEnter hput ▸ hwaits) hbatch
  | pop hrunning | softStop hrunning => exact absurd hrunning hstage
  | putForce => exact ⟨hfree, hstage⟩
  | leave hg hat => exact ⟨hreplace hg hat, hstage⟩
  | prefetcherStopped | indexStopped => exact ⟨hfree, nofun⟩

theorem Free.completes (hfree : s.Free) (hstage : s.stage ≠ .running) : ∃ s', Run s s' ∧ s'.stage = .stopped := by
  cases hs : s.stage with
  | running => exact absurd hs hstage
  | prefetcherStop =>
    have hreturned := @run_returned s hstage [] s.goroutines rfl hfree
    have hstopped := hreturned.tail (.prefetcherStopped hs (by simp))
    exact ⟨_, hstopped.tail (.indexStopped rfl), rfl⟩
  | collatorStop => exact ⟨_, .single (.indexStopped hs), rfl⟩
  | stopped => exact ⟨s, .refl, hs⟩

/-- **The stop can be completed**, from every state of every run of it in which the batches that the goroutines come to
fit, if no goroutine waits in `Put` when `SoftStop` is called. -/
theorem soft_stop_completes (hstage : s.stage ≠ .running) (hfree : s.Free) (hrun : FittingRun s s') :
    ∃ s'', Run s' s'' ∧ s''.stage = .stopped := by
  obtain ⟨hfree', hstage'⟩ : s'.Free ∧ s'.stage ≠ .running := by
    induction hrun with
    | refl => exact ⟨hfree, hstage⟩
    | tail _ hstep ih => exact ih.1.step ih.2 hstep.1 hstep.2
  exact hfree'.completes hstage'

/-- A batch is put when the context is cancelled already. -/
theorem idle_stop_completes : ∃ s s', Run (start 2 1) s ∧ s.stage = .prefetcherStop ∧
    s.goroutines = [⟨[oneRequest 2], none, false⟩] ∧ FittingRun s s' ∧ s'.goroutines = [⟨[], none, false⟩] ∧
    ∃ s'', Run s' s'' ∧ s''.stage = .stopped := by
  have h₁ : Run (start 2 1) _ := .single (@Step.stream _ [] [] _ (oneRequest 1) rfl)
  have h₂ := h₁.tail (@Step.stream _ [] [] _ (oneRequest 2) rfl)
  have h₃ := h₂.tail (@Step.replicate _ [] [] _ _ _ _ rfl (.put rfl (.save rfl rfl)))
  have h₄ := h₃.tail (.softStop rfl)
  have hcompletes : ∀ {s s'}, Run (start 2 1) s → s.stage = .prefetcherStop → s.Free → s.Fits → Step s s' →
      FittingRun s s' ∧ ∃ s'', Run s' s'' ∧ s''.stage = .stopped := fun _ hstage hfree hfits hstep =>
    ⟨.single ⟨hfits, hstep⟩, soft_stop_completes (hstage ▸ nofun) hfree (.single ⟨hfits, hstep⟩)⟩
  obtain ⟨hrun, hstopped⟩ := hcompletes h₄ rfl (forall_mem_singleton.mpr rfl)
    (forall_mem_singleton.mpr fun _ batch hbatch hwaits => by cases hbatch; exact nomatch hwaits.1)
    (@Step.replicate _ [] [] _ _ _ _ rfl (.put rfl (.save rfl rfl)))
  exact ⟨_, _, h₄, rfl, rfl, hrun, rfl, hstopped⟩

/-- Where the goroutine waits with a batch that is ahead of all calls of `PopOrWait`, and the index is full. -/
structure Blocked (s : Prefetching) : Prop where
  stage : s.stage = .prefetcherStop
  waiting : ∃ chan, s.goroutines = [⟨chan, some (oneRequest 2), false⟩]
  waits : (s.indexes (oneRequest 2).batchID.partition).Waits (oneRequest 2)

theorem Blocked.step (h : Blocked s) (hstep : Step s s') : Blocked s' := by
  obtain ⟨hstage, ⟨chan, hgs⟩, hwaits⟩ := h
  have honly : ∀ {before after g}, s.goroutines = before ++ g :: after →
      before = [] ∧ g = ⟨chan, some (oneRequest 2), false⟩ ∧ after = [] := by
    intro before after g hg
    rw [hgs, eq_comm, append_eq_singleton_iff] at hg
    simpa using hg
  cases hstep with
  | stream hg =>
    obtain ⟨rfl, rfl, rfl⟩ := honly hg
    exact ⟨hstage, ⟨_, rfl⟩, hwaits⟩
  | replicate hg hstep =>
    obtain ⟨-, rfl, -⟩ := honly hg
    obtain ⟨hfull, hrunning, hahead⟩ := hwaits
    cases hstep with
    | putWakes hputs =>
      cases hputs with
      | evict _ _ hasked | evictFails _ _ hasked => exact absurd hahead (Nat.not_lt.mpr hasked)
      | fails _ hfail =>
        rw [hrunning] at hfail
        cases hfail
      | save hroom =>
        rw [hfull] at hroom
        cases hroom
  | @putForce p _ _ _ hput =>
    -- the cache that is full is the ordinary one
    refine ⟨hstage, ⟨chan, hgs⟩, ?_⟩
    by_cases hp : (oneRequest 2).batchID.partition = p
    · subst hp
      simp only [update_self]
      obtain rfl | ⟨_, -, rfl⟩ := PartitionPrefetchIndex.putForce_eq_ok hput <;> exact hwaits
    · simp only [update_of_ne hp]
      exact hwaits
  | pop hrunning | softStop hrunning =>
    rw [hstage] at hrunning
    cases hrunning
  | leave hg hat =>
    obtain ⟨-, rfl, -⟩ := honly hg
    cases hat
  | prefetcherStopped _ hall =>
    rw [hgs] at hall
    exact absurd (hall _ mem_cons_self) Bool.false_ne_true
  | indexStopped hcollator =>
    rw [hstage] at hcollator
    cases hcollator

/-- **The stop that never completes**: the first batch fills the index, and the goroutine waits in `Put` with the second
one when `SoftStop` is called. -/
theorem soft_stop_blocked : ∃ s, Run (start 1 1) s ∧ s.stage = .prefetcherStop ∧
    ∀ s', Run s s' → s'.stage = .prefetcherStop := by
  have h₁ : Run (start 1 1) _ := .single (@Step.stream _ [] [] _ (oneRequest 1) rfl)
  have h₂ := h₁.tail (@Step.stream _ [] [] _ (oneRequest 2) rfl)
  have h₃ := h₂.tail (@Step.replicate _ [] [] _ _ _ _ rfl (.put rfl (.save rfl rfl)))
  have h₄ := h₃.tail (@Step.replicate _ [] [] _ _ _ _ rfl (.putWaits rfl ⟨rfl, rfl, by decide⟩))
  have h₅ := h₄.tail (.softStop rfl)
  refine ⟨_, h₅, rfl, fun s' hrun => Blocked.stage ?_⟩
  induction hrun with
  | refl => exact ⟨rfl, ⟨[], rfl⟩, rfl, rfl, by decide⟩
  | tail _ hstep ih => exact ih.step hstep

end Prefetching

end Arma
