import Arma.Lib.Gather
import Arma.State.Basic

/-!
# `State.Process`

Model of `node/consensus/state/state.go`: the rules that one round of consensus applies to the state,
in the source's order and under its names, and `process`, which runs them.

* A Go map that is only looked up is a function or a list of keys; the map of votes, which is also
  iterated, is an `AList` filled by `gather`. A digest is its own map key, where the source uses its
  hexadecimal text.
* `shardExists` finds the first entry of a shard. Reading that entry's term is `termOf`, raising it
  is `bumpTerm`; reading the term of a shard that is not there indexes a slice at `-1` and panics.
* Logging is left out, and so is `UpdatePrunePoints`, whose body is empty.
-/

namespace Arma

open Arma.Lib

/-! ## Shards and terms -/

/-- The term in the entry that `shardExists` finds for `shard`. -/
def termOf (shards : List ShardTerm) (shard : ShardID) : Option Nat :=
  (shards.find? (·.shard = shard)).map (·.term)

/-- `s.Shards[i].Term++` at the first entry of `shard`. -/
def bumpTerm (shard : ShardID) : List ShardTerm → List ShardTerm
  | [] => []
  | st :: rest =>
    if st.shard = shard then { st with term := st.term + 1 } :: rest else st :: bumpTerm shard rest

/-- `s.Shards[shardIndex].Term`, with the index that `shardExists` gave. -/
def readTerm (shards : List ShardTerm) (shard : ShardID) : Outcome Nat :=
  match termOf shards shard with
  | some term => .ok term
  | none => .error (.panic "runtime error: index out of range [-1]")

/-! ## Filtering by config sequence -/

/-- What `filterCEsWithDiffConfigSeq` does with one event: keep it, surface it as a stale fragment,
or drop it. -/
inductive FilterResult where
  | keep
  | stale (baf : BAF)
  | drop
  deriving DecidableEq, Repr

/-- The switch in the loop of `filterCEsWithDiffConfigSeq`. A config request whose sequence cannot be
read is dropped. -/
def filterCE (W : Wire) (configSeq : ConfigSequence) : ControlEvent → FilterResult
  | .baf b =>
    if b.configSequence = configSeq then .keep
    else if b.configSequence < configSeq then .stale b
    else .drop
  | .complaint c => if c.configSeq = configSeq then .keep else .drop
  | .assemblerReport r => if r.configSeq = configSeq then .keep else .drop
  | .configRequest r =>
    match r.configSequence W with
    | .ok reqConfigSeq => if reqConfigSeq = configSeq + 1 then .keep else .drop
    | .error _ => .drop

/-- `filterCEsWithDiffConfigSeq`: the events kept and the stale fragments. -/
def filterCEsWithDiffConfigSeq (W : Wire) (configSeq : ConfigSequence) (ces : List ControlEvent) :
    List ControlEvent × List BAF :=
  (ces.filter fun ce => filterCE W configSeq ce = .keep, ces.filterMap fun ce =>
     match filterCE W configSeq ce with
     | .stale b => some b
     | _ => none)

namespace State

def filterPendingEventsWithDiffConfigSeq (configSeq : ConfigSequence) (s : State) : State :=
  { s with
    pending := s.pending.filter (·.configSequence = configSeq)
    complaints := s.complaints.filter (·.configSeq = configSeq) }

/-! ## Collecting events -/

/-- One round of the loop of `CollectAndDeduplicateEvents`. `shardsAndSequences` are the keys of the
fragments that were pending when the call began: it is not updated in the loop, unlike the complaints'
`<ShardTerm, signer>` pairs, which travel with the state. -/
def collectEvent (shardsAndSequences : List AttestationKey)
    (acc : State × List (ShardTerm × PartyID)) : ControlEvent → State × List (ShardTerm × PartyID)
  | .baf b =>
    if (termOf acc.1.shards b.shard).isNone then acc
    else if attestationKeyOf b ∈ shardsAndSequences then acc
    else ({ acc.1 with pending := acc.1.pending ++ [b] }, acc.2)
  | .complaint c =>
    if c.shardTerm ∉ acc.1.shards then acc
    else if (c.shardTerm, c.signer) ∈ acc.2 then acc
    else ({ acc.1 with complaints := acc.1.complaints ++ [c] }, acc.2 ++ [(c.shardTerm, c.signer)])
  | _ => acc

def collectAndDeduplicateEvents (ces : List ControlEvent) (s : State) : State :=
  (ces.foldl (collectEvent (s.pending.map attestationKeyOf)) (s, s.complaints.map fun c => (c.shardTerm, c.signer))).1

/-- The recorded height of `party`, in its first entry, is raised to `num` if it is below. -/
def raiseHeight (party : PartyID) (num : DecisionNum) : List AssemblerHeight → List AssemblerHeight
  | [] => []
  | h :: rest =>
    if h.party = party then
      (if h.decisionNum < num then { h with decisionNum := num } else h) :: rest
    else h :: raiseHeight party num rest

/-- One round of the loop of `CollectAssemblerReports`; the flag says that a party was added. -/
def collectReport (acc : List AssemblerHeight × Bool) : ControlEvent → List AssemblerHeight × Bool
  | .assemblerReport r =>
    if acc.1.any (·.party = r.party) then (raiseHeight r.party r.decisionNum acc.1, acc.2)
    else (acc.1 ++ [⟨r.party, r.decisionNum⟩], true)
  | _ => acc

def collectAssemblerReports (ces : List ControlEvent) (s : State) : State :=
  let (heights, added) := ces.foldl collectReport (s.assemblerHeights, false)
  { s with
    assemblerHeights :=
      if added then heights.insertionSort (fun a b => a.party ≤ b.party) else heights }

/-! ## Votes -/

/-- `batchAttestationVotesByDigests`: batch key, then digest, then the signers in pending order. -/
def batchAttestationVotesByDigests (excludeSelfSigned : Bool) (s : State) :
    AList fun _ : BatchKey => AList fun _ : Bytes => List PartyID :=
  gatherNested batchKeyOf BAF.digest (bucket BAF.signer)
    (s.pending.filter fun baf => ¬ (excludeSelfSigned ∧ baf.signer = baf.primary))

/-- One round of the loop of `DetectEquivocation`, over the shards and the shards rotated so far. -/
def rotateEquivocator (m : AList fun _ : BatchKey => AList fun _ : Bytes => List PartyID)
    (acc : List ShardTerm × List ShardID) (bk : BatchKey) : List ShardTerm × List ShardID :=
  if 1 < ((m.lookup bk).getD ∅).keys.length then
    if bk.shard ∈ acc.2 then acc
    else if (termOf acc.1 bk.shard).isSome then (bumpTerm bk.shard acc.1, bk.shard :: acc.2)
    else acc
  else acc

/-- `State.DetectEquivocation`: the batch keys are visited in the order of `BatchKey.compare`. -/
def detectEquivocation (s : State) : State :=
  let m := s.batchAttestationVotesByDigests true
  let batchKeys := m.keys.insertionSort (fun a b => a.compare b ≠ .gt)
  { s with shards := (batchKeys.foldl (rotateEquivocator m) (s.shards, [])).1 }

/-! ## Complaints -/

/-- The map `complaintsToNum`: complaints counted by `ShardTerm`, leaving out those of an unknown
shard and those of another term than the shard's. -/
def complaintsToNum (shards : List ShardTerm) (complaints : List Complaint) : ShardTerm → Nat :=
  complaints.foldl (fun num c =>
    if termOf shards c.shard = some c.term then Function.update num c.shardTerm (num c.shardTerm + 1)
    else num) fun _ => 0

/-- One round of the second loop of `PrimaryRotateDueToComplaints`, over the shards and the
complaints kept so far. -/
def rotateComplained (threshold : Nat) (num : ShardTerm → Nat) (acc : List ShardTerm × List Complaint) (c : Complaint) :
    Outcome (List ShardTerm × List Complaint) :=
  if threshold ≤ num c.shardTerm then do
    let term ← readTerm acc.1 c.shard
    if term ≠ c.term then return acc
    else return (bumpTerm c.shard acc.1, acc.2)
  else return (acc.1, acc.2 ++ [c])

def primaryRotateDueToComplaints (s : State) : Outcome State := do
  let num := complaintsToNum s.shards s.complaints
  let (shards, newComplaints) ←
    s.complaints.foldlM (rotateComplained s.threshold.toNat num) (s.shards, [])
  return { s with shards := shards, complaints := newComplaints }

/-- One round of the loop of `CleanupOldComplaints`. -/
def keepComplaint (shards : List ShardTerm) (kept : List Complaint) (c : Complaint) : Outcome (List Complaint) := do
  let term ← readTerm shards c.shard
  if c.term < term then return kept else return kept ++ [c]

def cleanupOldComplaints (s : State) : Outcome State := do
  let newComplaints ← s.complaints.foldlM (keepComplaint s.shards) []
  return { s with complaints := newComplaints }

/-! ## Extraction -/

/-- The digests of a batch that reached the threshold, with the batch. -/
def thresholdDigests (s : State) : List ThresholdDigestKey :=
  (s.batchAttestationVotesByDigests false).entries.flatMap fun e =>
    (e.2.entries.filter fun d => s.threshold.toNat ≤ d.2.length).map fun d => (e.1, d.1)

/-- The batches with at least one digest that reached the threshold. -/
def decidedBatches (s : State) : List BatchKey := s.thresholdDigests.map Prod.fst

/-- `ExtractBatchAttestationsFromPending`: the state without the fragments of decided batches, and the
fragments of the digests that reached the threshold. -/
def extractBatchAttestationsFromPending (s : State) : State × List BAF :=
  ({ s with pending := s.pending.filter fun baf => batchKeyOf baf ∉ s.decidedBatches }, s.pending.filter fun baf =>
     batchKeyOf baf ∈ s.decidedBatches ∧ (batchKeyOf baf, baf.digest) ∈ s.thresholdDigests)

def updateDurableWatermark (s : State) : State :=
  if s.n = 0 then s
  else
    let k := (2 * (computeFTQ s.n).1 + 1).toNat
    if s.assemblerHeights.length < k then s
    else
      let decisionNums := (s.assemblerHeights.map (·.decisionNum)).insertionSort (· ≤ ·)
      match decisionNums[decisionNums.length - k]? with
      | some watermark =>
        if s.durableWatermark < watermark then { s with durableWatermark := watermark } else s
      | none => s

def extractConfigRequests (ces : List ControlEvent) : List ConfigRequest :=
  ces.filterMap ControlEvent.configRequest?

def retainAssemblerHeights (parties : List PartyID) (s : State) : State :=
  { s with assemblerHeights := s.assemblerHeights.filter (·.party ∈ parties) }

/-! ## The round -/

variable (W : Wire) (configSeq : ConfigSequence) (ces : List ControlEvent) (s : State)

/-- The first half of a round: the events of the current config sequence are collected. -/
def collected : State :=
  let (filteredCEs, staleConfigBAFs) := filterCEsWithDiffConfigSeq W configSeq ces
  ((({ s with staleConfigBAFs }.filterPendingEventsWithDiffConfigSeq
    configSeq).collectAndDeduplicateEvents filteredCEs).collectAssemblerReports filteredCEs)

/-- **`State.Process`**: the next state, the fragments extracted and the config requests. -/
def process : Outcome (State × List BAF × List ConfigRequest) := do
  let rotated ← (s.collected W configSeq ces).detectEquivocation.primaryRotateDueToComplaints
  let cleaned ← rotated.cleanupOldComplaints
  let (next, extracted) := cleaned.extractBatchAttestationsFromPending
  return (next.updateDurableWatermark, extracted, extractConfigRequests (filterCEsWithDiffConfigSeq W configSeq ces).1)

end State

end Arma
