import Arma.Assembler.PrefetchIndex
import Arma.Lib.Pull

/-!
# The batches of one primary on their way to the index

Model of `pullFromParty` (`node/assembler/batch_fetcher.go`) over `Pull` (`node/delivery/deliver_client.go`), and of
`handleReplication` (`node/assembler/prefetcher.go`), for the batches of one shard and one primary. The batcher is
honest: batch `i` of its ledger has sequence `i`. The channel of the shard is shared with the other primaries, whose
batches come in between, so its capacity is any.

`pullFromParty` reads the sequence to start at once, and every new connection asks for it again:
`batches_increasing_iff` says what has to happen for the sequences to increase, and `batch_put_twice` that a lost stream
is enough for them not to.
-/

namespace Arma

open Arma.Lib List

/-- The batches of one primary: the batcher's ledger, the client, and what was handed to `Put`. -/
structure PartyPull (shard : ShardID) (primary : PartyID) where
  source : BatchChain shard primary
  puller : Puller FabricBatch
  put : List FabricBatch

namespace PartyPull

variable {shard : ShardID} {primary : PartyID}

inductive Step (cap : Nat) (seq : BatchSequence) (c : PartyPull shard primary) : PartyPull shard primary → Prop
  | extend {source} (happend : c.source.batches <+: source.batches) : Step cap seq c { c with source }
  | pull {puller} (hstep : Puller.Step (fun block => [block]) cap c.source.batches seq c.puller puller) :
      Step cap seq c { c with puller }
  | put {batch rest} (hchan : c.puller.chan = batch :: rest) :
      Step cap seq c { c with puller := { c.puller with chan := rest }, put := c.put ++ [batch] }

def Run (cap : Nat) (seq : BatchSequence) : PartyPull shard primary → PartyPull shard primary → Prop :=
  Relation.ReflTransGen (Step cap seq)

def start (source : BatchChain shard primary) : PartyPull shard primary := ⟨source, .idle, []⟩

variable {c c' : PartyPull shard primary} {source : BatchChain shard primary} {cap : Nat} {seq : BatchSequence}

/-- What holds in every run: the client is faithful, asks for one position only, and `Put` has got what came out of the
channel. -/
structure Inv (seq : BatchSequence) (c : PartyPull shard primary) : Prop where
  faithful : c.puller.Faithful (fun block => [block]) c.source.batches
  first : ∀ s ∈ c.puller.sessions, s.first = seq
  emitted : c.puller.emitted = c.put ++ c.puller.chan

theorem Step.inv (h : Step cap seq c c') (hc : c.Inv seq) : c'.Inv seq := by
  cases h with
  | extend happend =>
    obtain ⟨more, hmore⟩ := happend
    exact ⟨hmore ▸ hc.faithful.grow more, hc.first, hc.emitted⟩
  | pull hstep =>
    obtain ⟨items, hemitted, hchan⟩ := hstep.emitted
    refine ⟨hstep.faithful hc.faithful, hstep.first_eq hc.first, ?_⟩
    rw [hemitted, hchan, hc.emitted, append_assoc]
  | put hchan =>
    refine ⟨⟨hc.faithful.emitted, hc.faithful.bound⟩, hc.first, ?_⟩
    rw [hc.emitted, hchan, append_assoc]
    rfl

theorem Run.inv (h : Run cap seq (start source) c) : c.Inv seq := by
  induction h with
  | refl => exact ⟨Puller.faithful_idle, nofun, rfl⟩
  | tail _ hstep ih => exact hstep.inv ih

/-- **The sequences handed to `Put` increase** just when all of the batches came over one stream. -/
theorem batches_increasing_iff (h : Run cap seq (start source) c) :
    (c.put.map FabricBatch.seq).Pairwise (· < ·) ↔ Session.FromOne c.puller.sessions c.put.length :=
  h.inv.faithful.increasing_iff (fun n batch hn => (c.source.at_index n batch hn).seq) h.inv.emitted h.inv.first

def batchOf (seq : BatchSequence) : FabricBatch := newFabricBatchFromRequests 1 2 seq [[7]] [] 0 [] []

def oneBatch : BatchChain 1 2 := (BatchChain.empty 1 2).extend (batchOf 0) ⟨shard_new, primary_new, seq_new⟩

/-- The first stream is lost before it brings anything, and the second brings the batch. -/
def pulledOne : PartyPull 1 2 := ⟨oneBatch, ⟨[⟨0, 0⟩], some ⟨0, 1⟩, [], [], [batchOf 0]⟩, [batchOf 0]⟩

theorem run_pulledOne : Run 1 0 (start oneBatch) pulledOne := by
  have hlost : Run 1 0 (start oneBatch) _ := .tail (.single (.pull (.connect rfl))) (.pull (.fail rfl rfl))
  have hreceived := (hlost.tail (.pull (.connect rfl))).tail (.pull (.receive rfl rfl rfl))
  exact (hreceived.tail (.pull (.hand rfl Nat.one_pos))).tail (.put rfl)

/-- The second batch comes over the same stream. -/
theorem two_batches_in_order : ∃ c, Run 1 0 (start oneBatch) c ∧ c.puller.sessions = [⟨0, 0⟩, ⟨0, 2⟩] ∧
    c.put = [batchOf 0, batchOf 1] ∧ (c.put.map FabricBatch.seq).Pairwise (· < ·) := by
  let source := oneBatch.extend (batchOf 1) ⟨shard_new, primary_new, seq_new⟩
  have hgrows : oneBatch.batches <+: source.batches := prefix_append _ _
  have hreceived := (run_pulledOne.tail (.extend hgrows)).tail (.pull (.receive rfl rfl rfl))
  have hput := (hreceived.tail (.pull (.hand rfl Nat.one_pos))).tail (.put rfl)
  exact ⟨_, hput, rfl, rfl, (batches_increasing_iff hput).mpr (Nat.le_refl 2)⟩

/-- The stream is lost, and the batch comes again over the next one. -/
theorem batch_put_twice : ∃ c, Run 1 0 (start oneBatch) c ∧ c.put.map FabricBatch.seq = [0, 0] := by
  have hlost := (run_pulledOne.tail (.pull (.fail rfl rfl))).tail (.pull (.connect rfl))
  have hhanded := (hlost.tail (.pull (.receive rfl rfl rfl))).tail (.pull (.hand rfl Nat.one_pos))
  exact ⟨_, hhanded.tail (.put rfl), rfl⟩

end PartyPull

end Arma
