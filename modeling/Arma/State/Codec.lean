import Arma.State.Process

/-!
# Reading and writing states and events

Model of `State.Serialize` / `State.Deserialize`, `ControlEvent.Bytes` / `ControlEvent.FromBytes` and the
`toProto` / `fromProto` pairs they are made of. Every identifier is checked against `uint16` when it is
read, with the source's error texts. The threshold and the quorum are not written: they are computed
again from the number of parties (`State.refresh`).

* `State.deserialize_serialize`: a state that was serialized is read back as it was, threshold and
  quorum refreshed.
* **`State.encoding_lossless`**: so states whose threshold and quorum are `ComputeFTQ`'s are compared by
  comparing their bytes, and one that has parties is read back as it was.
* **`ControlEvent.fromBytes_bytes`**: so is a control event, its reporting party being above zero.
* `ControlEvent.fromBytes_noPanic`, `State.deserialize_noPanic`: no bytes make the readers panic.
-/

namespace Arma

open Arma.Lib Outcome AssemblerDecisionReport

/-- An identifier read from the wire: `if v > math.MaxUint16 { return err }`. -/
def readUint16 (v : UInt32) (msg : String) : Outcome UInt16 :=
  if maxUint16 < v.toNat then .error (.err msg) else .ok v.toUInt16

@[simp] theorem readUint16_toUInt32 (x : UInt16) (msg : String) : readUint16 x.toUInt32 msg = .ok x := by
  have hle : ¬ maxUint16 < x.toUInt32.toNat := by
    have := x.toNat_lt
    simp only [UInt16.toNat_toUInt32, maxUint16]
    omega
  rw [readUint16, if_neg hle, UInt16.toUInt16_toUInt32]

@[simp] theorem readUint16_noPanic (v : UInt32) (msg : String) : (readUint16 v msg).NoPanic := by
  unfold readUint16
  split <;> simp

/-! ## The parts -/

def BAF.toProto (b : BAF) : ProtoBAF where
  shard := b.shard.toUInt32
  primary := b.primary.toUInt32
  seq := b.seq
  digest := b.digest
  configSequence := b.configSequence
  txCount := b.txCount
  signer := b.signer.toUInt32
  signature := b.signature
  primarySignature := b.primarySignature

def BAF.fromProto (pb : ProtoBAF) : Outcome BAF := do
  let shard ← readUint16 pb.shard
    s!"the BAF Shard value {pb.shard} exceeds uint16 maximum {maxUint16}"
  let primary ← readUint16 pb.primary
    s!"the BAF Primary value {pb.primary} exceeds uint16 maximum {maxUint16}"
  let signer ← readUint16 pb.signer
    s!"the BAF Signer value {pb.signer} exceeds uint16 maximum {maxUint16}"
  return { shard, primary, signer
           seq := pb.seq
           digest := pb.digest
           configSequence := pb.configSequence
           txCount := pb.txCount
           signature := pb.signature
           primarySignature := pb.primarySignature }

def Complaint.toProto (c : Complaint) : ProtoComplaint where
  configSeq := c.configSeq
  shard := c.shard.toUInt32
  term := c.term
  signer := c.signer.toUInt32
  signature := c.signature
  reason := c.reason

def Complaint.fromProto (pc : ProtoComplaint) : Outcome Complaint := do
  let shard ← readUint16 pc.shard
    s!"the Complaint Shard value {pc.shard} that exceeds uint16 maximum {maxUint16}"
  let signer ← readUint16 pc.signer
    s!"the Complaint Signer value {pc.signer} at exceeds uint16 maximum {maxUint16}"
  return { shardTerm := ⟨shard, pc.term⟩, signer
           signature := pc.signature
           reason := pc.reason
           configSeq := pc.configSeq }

def ConfigRequest.toProto (W : Wire) (r : ConfigRequest) : ProtoConfigRequest :=
  ⟨W.envelope.marshal r.envelope⟩

def ConfigRequest.fromProto (W : Wire) (pc : ProtoConfigRequest) : Outcome ConfigRequest := do
  let envelope ← (W.unmarshalEnvelope pc.envelope).wrap "failed to unmarshal envelope"
  return ⟨envelope⟩

def AssemblerDecisionReport.toProto (r : AssemblerDecisionReport) : ProtoAssemblerDecisionReport where
  party := r.party.toUInt32
  decisionNum := r.decisionNum
  configSeq := r.configSeq
  signature := r.signature

def AssemblerDecisionReport.fromProto (pr : ProtoAssemblerDecisionReport) : Outcome AssemblerDecisionReport := do
  require (pr.party ≠ 0)
    "the AssemblerDecisionReport Party value must be greater than zero"
  let party ← readUint16 pr.party
    s!"the AssemblerDecisionReport Party value {pr.party} exceeds uint16 maximum {maxUint16}"
  return { party
           decisionNum := pr.decisionNum
           configSeq := pr.configSeq
           signature := pr.signature }

def AssemblerHeight.toProto (h : AssemblerHeight) : ProtoAssemblerHeight :=
  ⟨h.party.toUInt32, h.decisionNum⟩

def AssemblerHeight.fromProto (ph : ProtoAssemblerHeight) : Outcome AssemblerHeight := do
  let party ← readUint16 ph.party
    s!"the AssemblerHeight Party value {ph.party} exceeds uint16 maximum {maxUint16}"
  return ⟨party, ph.decisionNum⟩

def PrunePoint.toProto (p : PrunePoint) : ProtoPrunePoint :=
  ⟨p.shard.toUInt32, p.primary.toUInt32, p.seq⟩

def PrunePoint.fromProto (pp : ProtoPrunePoint) : Outcome PrunePoint := do
  let shard ← readUint16 pp.shard
    s!"the PrunePoint Shard value {pp.shard} exceeds uint16 maximum {maxUint16}"
  let primary ← readUint16 pp.primary
    s!"the PrunePoint Primary value {pp.primary} exceeds uint16 maximum {maxUint16}"
  return ⟨shard, primary, pp.seq⟩

@[simp] theorem BAF.fromProto_toProto (b : BAF) : BAF.fromProto b.toProto = .ok b := by
  simp [BAF.fromProto, BAF.toProto]

@[simp] theorem Complaint.fromProto_toProto (c : Complaint) : Complaint.fromProto c.toProto = .ok c := by
  simp [Complaint.fromProto, Complaint.toProto]

@[simp] theorem ConfigRequest.fromProto_toProto (W : Wire) (r : ConfigRequest) :
    ConfigRequest.fromProto W (r.toProto W) = .ok r := by
  simp [ConfigRequest.fromProto, ConfigRequest.toProto, Wire.unmarshalEnvelope]

@[simp] theorem AssemblerDecisionReport.fromProto_toProto {r}
    (h : r.party ≠ 0) : AssemblerDecisionReport.fromProto r.toProto = .ok r := by
  have hparty : r.toProto.party ≠ 0 := by
    intro h0
    have := congrArg UInt32.toUInt16 h0
    exact h (by simpa [toProto] using this)
  rw [AssemblerDecisionReport.fromProto, require_true _ hparty, ok_bind]
  simp [toProto]

@[simp] theorem AssemblerHeight.fromProto_toProto (h : AssemblerHeight) :
    AssemblerHeight.fromProto h.toProto = .ok h := by
  simp [AssemblerHeight.fromProto, AssemblerHeight.toProto]

@[simp] theorem PrunePoint.fromProto_toProto (p : PrunePoint) : PrunePoint.fromProto p.toProto = .ok p := by
  simp [PrunePoint.fromProto, PrunePoint.toProto]

theorem BAF.fromProto_noPanic (pb : ProtoBAF) : (BAF.fromProto pb).NoPanic := by
  simp [BAF.fromProto]

theorem Complaint.fromProto_noPanic (pc : ProtoComplaint) : (Complaint.fromProto pc).NoPanic := by
  simp [Complaint.fromProto]

theorem ConfigRequest.fromProto_noPanic (W : Wire) (pc) : (ConfigRequest.fromProto W pc).NoPanic := by
  simp [ConfigRequest.fromProto, Wire.unmarshalEnvelope]

theorem AssemblerDecisionReport.fromProto_noPanic (pr) : (AssemblerDecisionReport.fromProto pr).NoPanic := by
  simp [AssemblerDecisionReport.fromProto]

/-! ## Control events -/

namespace ControlEvent

def toProto (W : Wire) : ControlEvent → ProtoControlEvent
  | .baf b => .baf b.toProto
  | .complaint c => .complaint c.toProto
  | .configRequest r => .configRequest (r.toProto W)
  | .assemblerReport r => .assemblerDecisionReport r.toProto

def fromProto (W : Wire) : ProtoControlEvent → Outcome ControlEvent
  | .baf b => do return .baf (← BAF.fromProto b)
  | .complaint c => do return .complaint (← Complaint.fromProto c)
  | .configRequest r => do return .configRequest (← ConfigRequest.fromProto W r)
  | .assemblerDecisionReport r => do
    return .assemblerReport (← AssemblerDecisionReport.fromProto r)
  | .unset => .error (.err "unknown control event type")

def bytes (W : Wire) (ce : ControlEvent) : Bytes := W.controlEvent.marshal (ce.toProto W)

def fromBytes (W : Wire) (b : Bytes) : Outcome ControlEvent := do
  let pe ← (ofExcept (W.controlEvent.unmarshal b)).wrap "failed to unmarshal control event"
  fromProto W pe

/-- An event that the reader gives back: a report names a party above zero. -/
def Readable : ControlEvent → Prop
  | .assemblerReport r => r.party ≠ 0
  | _ => True

theorem fromBytes_bytes (W : Wire) {ce} (h : ce.Readable) : fromBytes W (ce.bytes W) = .ok ce := by
  have hproto : fromProto W (ce.toProto W) = .ok ce := by
    cases ce with
    | baf | complaint | configRequest => simp [fromProto, toProto]
    | assemblerReport =>
      simp only [fromProto, toProto, fromProto_toProto h]
      rfl
  simp [fromBytes, bytes, hproto]

theorem fromBytes_noPanic (W : Wire) (b : Bytes) : (fromBytes W b).NoPanic := by
  unfold fromBytes
  refine noPanic_bind_iff.mpr ⟨by simp, fun pe _ => ?_⟩
  cases pe with
  | unset => exact noPanic_fail _
  | baf => simp [fromProto, BAF.fromProto_noPanic]
  | complaint => simp [fromProto, Complaint.fromProto_noPanic]
  | configRequest => simp [fromProto, ConfigRequest.fromProto_noPanic]
  | assemblerDecisionReport =>
    simp [fromProto, fromProto_noPanic]

end ControlEvent

/-! ## The state -/

/-- The record of a shard in the state's message. -/
def ShardTerm.toProto (st : ShardTerm) : ProtoShardTerm := ⟨st.shard.toUInt32, st.term⟩

/-- Reading the shard at index `i`. -/
def ShardTerm.fromProto (i : Nat) (ps : ProtoShardTerm) : Outcome ShardTerm := do
  let shard ← readUint16 ps.shard
    s!"the Shard value {ps.shard} at index {i} exceeds uint16 maximum {maxUint16}"
  return ⟨shard, ps.term⟩

@[simp] theorem ShardTerm.fromProto_toProto (i : Nat) (st : ShardTerm) : ShardTerm.fromProto i st.toProto = .ok st := by
  simp [fromProto, toProto]

namespace State

/-- Threshold and quorum as `Deserialize` computes them from the number of parties. -/
def refresh (s : State) : State :=
  { s with
    threshold := if s.n = 0 then 0 else (computeFTQ s.n).2.1
    quorum := if s.n = 0 then 0 else (computeFTQ s.n).2.2 }

/-- The message that `State.Serialize` marshals. -/
def toProto (s : State) : ProtoState where
  numberOfParties := s.n.toUInt32
  shards := s.shards.map ShardTerm.toProto
  pending := s.pending.map BAF.toProto
  complaints := s.complaints.map Complaint.toProto
  appContext := s.appContext
  staleConfigBAFs := s.staleConfigBAFs.map BAF.toProto
  assemblerHeights := s.assemblerHeights.map AssemblerHeight.toProto
  prunePoints := s.prunePoints.map PrunePoint.toProto
  durableWatermark := s.durableWatermark

def serialize (W : Wire) (s : State) : Bytes := W.state.marshal s.toProto

/-- The body of `State.Deserialize` after the message is unmarshalled. -/
def fromProto (ps : ProtoState) : Outcome State := do
  let n ← readUint16 ps.numberOfParties
    s!"the NumberOfParties value {ps.numberOfParties} exceeds uint16 maximum {maxUint16}"
  let shards ← mapEach ShardTerm.fromProto 0 ps.shards
  let pending ← mapEach (fun _ b =>
    (BAF.fromProto b).wrap "failed loading batch attestation fragment") 0 ps.pending
  let complaints ← mapEach (fun i c =>
    (Complaint.fromProto c).wrap s!"failed loading complaint at index {i}") 0 ps.complaints
  let staleConfigBAFs ← mapEach (fun _ b =>
    (BAF.fromProto b).wrap "failed loading stale config batch attestation fragment") 0
      ps.staleConfigBAFs
  let assemblerHeights ← mapEach (fun i h =>
    (AssemblerHeight.fromProto h).wrap s!"failed loading assembler height at index {i}") 0
      ps.assemblerHeights
  let prunePoints ← mapEach (fun i p =>
    (PrunePoint.fromProto p).wrap s!"failed loading prune point at index {i}") 0 ps.prunePoints
  return State.refresh
    { n, shards, pending, complaints, staleConfigBAFs, assemblerHeights, prunePoints
      quorum := 0
      threshold := 0
      appContext := ps.appContext
      durableWatermark := ps.durableWatermark }

def deserialize (W : Wire) (b : Bytes) : Outcome State := do
  let ps ← ofExcept (W.state.unmarshal b)
  fromProto ps

theorem fromProto_toProto (s : State) : fromProto s.toProto = .ok s.refresh := by
  unfold fromProto
  simp only [toProto, readUint16_toUInt32, ok_bind]
  rw [mapEach_map (fun i st => by simp), ok_bind, mapEach_map (fun i b => by simp), ok_bind,
    mapEach_map (fun i c => by simp), ok_bind,
    mapEach_map (fun i b => by simp), ok_bind,
    mapEach_map (fun i h => by simp), ok_bind,
    mapEach_map (fun i p => by simp), ok_bind]
  rfl

theorem deserialize_serialize (W : Wire) (s : State) : deserialize W (s.serialize W) = .ok s.refresh := by
  simp [deserialize, serialize, fromProto_toProto]

/-- States with the same serialization are the same, threshold and quorum refreshed. -/
theorem refresh_eq_of_serialize_eq {W : Wire} {s s' : State}
    (h : s.serialize W = s'.serialize W) : s.refresh = s'.refresh := by
  have hread := deserialize_serialize W s
  rw [h, deserialize_serialize] at hread
  exact (Except.ok.inj hread).symm

theorem refresh_of_deserialize {W b s} (h : deserialize W b = .ok s) : s.refresh = s := by
  simp only [deserialize, fromProto, bind_eq_ok] at h
  obtain ⟨ps, -, n, -, shards, -, pending, -, complaints, -, stale, -, heights, -, points, -, hret⟩ := h
  cases hret
  rfl

/-- Threshold and quorum are those that `ComputeFTQ` gives for the number of parties. -/
structure FromFTQ (s : State) : Prop where
  threshold : s.threshold = (computeFTQ s.n).2.1
  quorum : s.quorum = (computeFTQ s.n).2.2

theorem FromFTQ.refresh_eq {s : State} (h : s.FromFTQ) (hn : s.n ≠ 0) : s.refresh = s := by
  unfold refresh
  rw [if_neg hn, if_neg hn, ← h.threshold, ← h.quorum]

theorem FromFTQ.eq_of_refresh_eq {s s' : State} (h : s.FromFTQ) (h' : s'.FromFTQ)
    (heq : s.refresh = s'.refresh) : s = s' := by
  have hn : s.refresh.n = s'.refresh.n := by rw [heq]
  have hn : s.n = s'.n := hn
  have hthreshold : s.threshold = s'.threshold := by rw [h.threshold, h'.threshold, hn]
  have hquorum : s.quorum = s'.quorum := by rw [h.quorum, h'.quorum, hn]
  cases s
  cases s'
  simp only [refresh, State.mk.injEq] at heq ⊢
  obtain ⟨-, -, -, hrest⟩ := heq
  exact ⟨hn, hquorum, hthreshold, hrest⟩

/-- **The encoding is lossless and canonical.** Only a state without parties does not come back as it was: the reader
gives it the threshold and the quorum 0. -/
theorem encoding_lossless (W : Wire) {s : State} (h : s.FromFTQ) : (s.n ≠ 0 → deserialize W (s.serialize W) = .ok s) ∧
      (s.n = 0 → deserialize W (s.serialize W) = .ok { s with threshold := 0, quorum := 0 }) ∧
      ∀ s' : State, s'.FromFTQ → (s.serialize W = s'.serialize W ↔ s = s') := by
  refine ⟨fun hn => ?_, fun hn => ?_, fun s' h' => ⟨fun heq => ?_, fun heq => ?_⟩⟩
  · rw [deserialize_serialize, h.refresh_eq hn]
  · rw [deserialize_serialize]
    unfold refresh
    rw [if_pos hn, if_pos hn]
  · exact h.eq_of_refresh_eq h' (refresh_eq_of_serialize_eq heq)
  · rw [heq]

/-- A state of four parties that nothing happened in. -/
def ofFour : State where
  n := 4
  quorum := 3
  threshold := 2
  shards := [⟨1, 0⟩]
  pending := []
  complaints := []
  appContext := []
  staleConfigBAFs := []
  assemblerHeights := []
  prunePoints := []
  durableWatermark := 0

theorem encoding_lossless_ofFour :
    ofFour.FromFTQ ∧ deserialize (.unary .unset) (ofFour.serialize (.unary .unset)) = .ok ofFour :=
  have hftq : ofFour.FromFTQ := ⟨by decide, by decide⟩
  ⟨hftq, (encoding_lossless (.unary .unset) hftq).1 (by decide)⟩

/-- For no parties `ComputeFTQ` gives the threshold 21846 and the quorum 10923, as `n - 1` wraps around; they are not
read back. -/
theorem threshold_forgotten :
    let s := { ofFour with n := 0, threshold := 21846, quorum := 10923 }
    s.FromFTQ ∧ deserialize (.unary .unset) (s.serialize (.unary .unset)) = .ok { s with threshold := 0, quorum := 0 } ∧
      deserialize (.unary .unset) (s.serialize (.unary .unset)) ≠ .ok s := by
  intro s
  have hread : deserialize (.unary .unset) (s.serialize (.unary .unset)) =
      .ok { s with threshold := 0, quorum := 0 } := deserialize_serialize _ s
  refine ⟨⟨by decide, by decide⟩, hread, ?_⟩
  rw [hread]
  intro heq
  have hthreshold := congrArg (fun s : State => s.threshold) (Except.ok.inj heq)
  exact absurd hthreshold (by decide)

theorem deserialize_noPanic (W : Wire) (b : Bytes) : (deserialize W b).NoPanic := by
  simp [deserialize, fromProto, ShardTerm.fromProto, BAF.fromProto_noPanic, Complaint.fromProto_noPanic,
    AssemblerHeight.fromProto, PrunePoint.fromProto]

end State

end Arma
