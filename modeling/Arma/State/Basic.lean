import Arma.Wire

/-!
# The consensus state and the events it is fed

Model of the data types of `node/consensus/state`: `State` with everything it collects, the four
kinds of control event, and `utils.ComputeFTQ`, from which the threshold and the quorum come.

A `ControlEvent` is, in the source's words, exactly one of a batch attestation fragment, a complaint,
a config request or an assembler decision report; it is an inductive type here. What a config request
says about its sequence is read through the layers of its envelope (`ConfigRequest.configSequence`).
-/

namespace Arma

open Arma.Lib Outcome

/-- `utils.ComputeFTQ`: the number of faults tolerated, the threshold and the quorum of `n` parties,
in `uint16` arithmetic. The quorum is `⌈(n + f + 1) / 2⌉`. -/
def computeFTQ (n : UInt16) : UInt16 × UInt16 × UInt16 :=
  let f := (n - 1) / 3
  (f, f + 1, UInt16.ofNat ((n.toNat + f.toNat + 2) / 2))

@[ext] structure ShardTerm where
  shard : ShardID
  term : Nat
  deriving DecidableEq, Repr, Inhabited

/-- `Complaint`: a batcher's vote to rotate the primary of a shard at a term. -/
structure Complaint where
  shardTerm : ShardTerm
  signer : PartyID
  signature : Bytes
  reason : String
  configSeq : ConfigSequence
  deriving DecidableEq, Repr, Inhabited

abbrev Complaint.shard (c : Complaint) : ShardID := c.shardTerm.shard

abbrev Complaint.term (c : Complaint) : Nat := c.shardTerm.term

structure ConfigRequest where
  envelope : Envelope
  deriving DecidableEq, Repr, Inhabited

structure AssemblerDecisionReport where
  party : PartyID
  decisionNum : DecisionNum
  configSeq : ConfigSequence
  signature : Bytes
  deriving DecidableEq, Repr, Inhabited

inductive ControlEvent where
  | baf (baf : BAF)
  | complaint (complaint : Complaint)
  | configRequest (configRequest : ConfigRequest)
  | assemblerReport (report : AssemblerDecisionReport)
  deriving DecidableEq, Repr, Inhabited

/-- The fragment an event carries, if it carries one. -/
@[simp] def ControlEvent.baf? : ControlEvent → Option BAF
  | .baf b => some b
  | .complaint _ => none
  | .configRequest _ => none
  | .assemblerReport _ => none

/-- The complaint an event carries, if it carries one. -/
@[simp] def ControlEvent.complaint? : ControlEvent → Option Complaint
  | .baf _ => none
  | .complaint c => some c
  | .configRequest _ => none
  | .assemblerReport _ => none

/-- The config request an event carries, if it carries one. -/
@[simp] def ControlEvent.configRequest? : ControlEvent → Option ConfigRequest
  | .baf _ => none
  | .complaint _ => none
  | .configRequest r => some r
  | .assemblerReport _ => none

structure AssemblerHeight where
  party : PartyID
  decisionNum : DecisionNum
  deriving DecidableEq, Repr, Inhabited

structure PrunePoint where
  shard : ShardID
  primary : PartyID
  seq : BatchSequence
  deriving DecidableEq, Repr, Inhabited

structure State where
  n : UInt16
  quorum : UInt16
  threshold : UInt16
  shards : List ShardTerm
  pending : List BAF
  complaints : List Complaint
  appContext : Bytes
  staleConfigBAFs : List BAF
  assemblerHeights : List AssemblerHeight
  prunePoints : List PrunePoint
  durableWatermark : DecisionNum
  deriving DecidableEq, Repr, Inhabited

def ConfigRequest.configSequence (W : Wire) (r : ConfigRequest) : Outcome ConfigSequence := do
  let payload ← (W.unmarshalPayload r.envelope.payload).wrap "failed to unmarshal payload"
  let configEnvelope ← (ofExcept (W.configEnvelope.unmarshal payload.data)).wrap
    "failed to unmarshal config envelope"
  match configEnvelope.configSequence with
  | none => .error (.err "config envelope has nil config")
  | some seq => return seq

theorem ConfigRequest.configSequence_noPanic (W : Wire) (r : ConfigRequest) : (r.configSequence W).NoPanic := by
  unfold ConfigRequest.configSequence
  refine noPanic_bind_iff.mpr ⟨by simp [Wire.unmarshalPayload], fun payload _ => ?_⟩
  refine noPanic_bind_iff.mpr ⟨by simp, fun env _ => ?_⟩
  cases env.configSequence with
  | none => exact noPanic_fail _
  | some seq => exact noPanic_ok _

/-! ## The keys that fragments are grouped and deduplicated by -/

/-- `batchKey`: `<shard, primary, seq>`. -/
structure BatchKey where
  shard : ShardID
  primary : PartyID
  seq : BatchSequence
  deriving DecidableEq, Repr, Inhabited

/-- `batchKey.compare`: by shard, then primary, then sequence. -/
def BatchKey.compare (b other : BatchKey) : Ordering :=
  (Ord.compare b.shard other.shard).then <| (Ord.compare b.primary other.primary).then (Ord.compare b.seq other.seq)

/-- `attestationKey`: one signer's attestation of one digest of a batch. -/
structure AttestationKey where
  batch : BatchKey
  signer : PartyID
  digest : Bytes
  deriving DecidableEq, Repr, Inhabited

def batchKeyOf (baf : BAF) : BatchKey := ⟨baf.shard, baf.primary, baf.seq⟩

def attestationKeyOf (baf : BAF) : AttestationKey := ⟨batchKeyOf baf, baf.signer, baf.digest⟩

abbrev ThresholdDigestKey := BatchKey × Bytes

end Arma
