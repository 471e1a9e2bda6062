import Mathlib
import Arma.Batcher.Verify

/-!
# What the identity of a request tells

SmartBFT's pool knows a request by its `RequestInfo`: a hash of some fields of the event, and the text of its signer.
The fields of the four kinds of events are laid out without a tag that says which kind it is. A fragment takes 54
bytes, a report 22, a complaint 24 and its reason; a config request has no signer.

* `ControlEvent.kind_eq_or_overlap`: so two events with one identity are of one kind, or they are a fragment and a
  complaint with a reason of 30 bytes whose fields match up as `Overlaps` says.
* **`requestID_determines_iff`**: the identity determines the kind and the config sequence iff there is no overlap.
* `complaint_named_by_fragment`: a fragment of a far config sequence passes unverified under the name of a complaint.
-/

namespace Arma

open Arma.Lib Outcome List ControlEvent Consensus

inductive ControlEventKind where
  | baf
  | complaint
  | configRequest
  | assemblerReport
  deriving DecidableEq, Repr

namespace ControlEvent

def kind : ControlEvent → ControlEventKind
  | .baf _ => .baf
  | .complaint _ => .complaint
  | .configRequest _ => .configRequest
  | .assemblerReport _ => .assemblerReport

/-- The config sequence that an event carries, if it can be read. -/
def carriedSeq (W : Wire) : ControlEvent → Outcome ConfigSequence
  | .baf b => .ok b.configSequence
  | .complaint c => .ok c.configSeq
  | .configRequest r => r.configSequence W
  | .assemblerReport r => .ok r.configSeq

end ControlEvent

/-- A fragment whose hashed fields spell those of a complaint. The eight bytes of the fragment's sequence are the
complaint's config sequence; its config sequence and signer take the place of the complaint's shard and term; its shard
is the length of the signature that was left out; and its digest begins with the length of the reason. -/
structure Overlaps (b : BAF) (c : Complaint) : Prop where
  seq : b.seq % 2 ^ 64 = c.configSeq.toNat
  shardTerm : b.configSequence.toNat * 2 ^ 16 + b.signer.toNat = c.shard.toNat * 2 ^ 64 + c.term % 2 ^ 64
  primary : b.primary = c.signer
  shard : b.shard = 0
  digest : copyDigest b.digest = 0 :: 30 :: c.reason.toUTF8.toList
  signer : b.signer = c.signer

/-- The two events are such a fragment and such a complaint. -/
def ControlEvent.Overlap : ControlEvent → ControlEvent → Prop
  | .baf b, .complaint c => Overlaps b c
  | .complaint c, .baf b => Overlaps b c
  | _, _ => False

/-! ## Layouts -/

section Layout

variable {W : Wire}

@[simp] theorem length_copyDigest (digest : Bytes) : (copyDigest digest).length = 32 := by
  simp only [copyDigest, length_append, length_take, length_replicate]
  omega

/-- The bytes of a complaint that are hashed, its reason cut off at 65535 bytes. -/
theorem payloadToHash_complaint (c : Complaint) : (ControlEvent.complaint c).payloadToHash W =
      bigEndian 8 c.configSeq.toNat ++ ((bigEndian 2 c.shard.toNat ++ bigEndian 8 c.term) ++
        (bigEndian 2 c.signer.toNat ++ (bigEndian 2 0 ++ (bigEndian 2 (c.reason.toUTF8.toList.take maxUint16).length ++
            c.reason.toUTF8.toList.take maxUint16)))) := by
  simp [payloadToHash, Complaint.bytes, append_assoc]

theorem payloadToHash_baf (b : BAF) : (baf b).payloadToHash W =
      bigEndian 8 b.seq ++ ((bigEndian 8 b.configSequence.toNat ++ bigEndian 2 b.signer.toNat) ++
        (bigEndian 2 b.primary.toNat ++ (bigEndian 2 b.shard.toNat ++ copyDigest b.digest))) := by
  simp [payloadToHash, append_assoc]

theorem digest_eq_reason_iff {digest reason : Bytes} (hlen : digest.length = 32) :
    digest = bigEndian 2 (reason.take maxUint16).length ++ reason.take maxUint16 ↔ digest = 0 :: 30 :: reason := by
  have hwhole (h : reason.length = 30) : reason.take maxUint16 = reason :=
    take_of_length_le (by rw [h]; decide)
  have hthirty : bigEndian 2 30 = [0, 30] := by decide
  constructor
  · intro h
    have hreason : reason.length = 30 := by
      have hcut := congrArg List.length h
      rw [hlen, length_append, length_bigEndian, length_take, maxUint16] at hcut
      omega
    rw [h, hwhole hreason, hreason, hthirty]
    rfl
  · intro h
    have hreason : reason.length = 30 := by
      have hcut := congrArg List.length h
      rw [hlen, length_cons, length_cons] at hcut
      omega
    rw [h, hwhole hreason, hreason, hthirty]
    rfl

/-- The shard and the term of a complaint are read where a fragment has its config sequence and its signer. -/
theorem shardTerm_bytes_iff (b : BAF) (c : Complaint) :
    bigEndian 8 b.configSequence.toNat ++ bigEndian 2 b.signer.toNat = bigEndian 2 c.shard.toNat ++ bigEndian 8 c.term ↔
      b.configSequence.toNat * 2 ^ 16 + b.signer.toNat = c.shard.toNat * 2 ^ 64 + c.term % 2 ^ 64 := by
  have hseq := b.configSequence.toNat_lt
  have hsigner := b.signer.toNat_lt
  have hshard := c.shard.toNat_lt
  have hterm : bigEndian 8 c.term = bigEndian 8 (c.term % 2 ^ 64) := bigEndian_inj.mpr (by simp)
  have hcut : c.term % 2 ^ 64 < 256 ^ 8 := Nat.mod_lt _ (by decide)
  rw [hterm, bigEndian_append _ _ _ _ hsigner, bigEndian_append _ _ _ _ hcut, bigEndian_inj,
    Nat.mod_eq_of_lt (by omega), Nat.mod_eq_of_lt (by omega)]
  norm_num

/-- A fragment and a complaint of one signer are hashed from the same bytes iff they overlap. -/
theorem overlaps_iff {b c} :
    ((baf b).payloadToHash W = (ControlEvent.complaint c).payloadToHash W ∧ b.signer = c.signer) ↔
      Overlaps b c := by
  have hseq : bigEndian 8 b.seq = bigEndian 8 c.configSeq.toNat ↔ b.seq % 2 ^ 64 = c.configSeq.toNat := by
    have hlt : c.configSeq.toNat < 256 ^ 8 := c.configSeq.toNat_lt
    rw [bigEndian_inj, Nat.mod_eq_of_lt hlt]
    norm_num
  have hshard : bigEndian 2 b.shard.toNat = bigEndian 2 0 ↔ b.shard = 0 := bigEndian_two_inj (y := 0)
  rw [payloadToHash_baf, payloadToHash_complaint, append_eq_append_iff (by simp), hseq,
    append_eq_append_iff (by simp), shardTerm_bytes_iff, append_eq_append_iff (by simp), bigEndian_two_inj,
    append_eq_append_iff (by simp), hshard, digest_eq_reason_iff (length_copyDigest _)]
  constructor
  · rintro ⟨⟨h1, h2, h3, h4, h5⟩, h6⟩
    exact ⟨h1, h2, h3, h4, h5, h6⟩
  · rintro ⟨h1, h2, h3, h4, h5, h6⟩
    exact ⟨⟨h1, h2, h3, h4, h5⟩, h6⟩

theorem length_payloadToHash_report (r) : ((assemblerReport r).payloadToHash W).length = 22 := by
  simp [payloadToHash, AssemblerDecisionReport.unsignedBytes, AssemblerDecisionReport.bytes]

theorem length_payloadToHash_baf (b : BAF) : ((baf b).payloadToHash W).length = 54 := by
  simp [payloadToHash]

theorem length_payloadToHash_complaint (c : Complaint) : 24 ≤ ((ControlEvent.complaint c).payloadToHash W).length := by
  rw [payloadToHash_complaint]
  simp
  omega

end Layout

/-! ## Signers -/

theorem toString_party_inj {a b : PartyID} : toString a = toString b ↔ a = b := by
  constructor
  · exact fun h => UInt16.toNat_inj.mp (Nat.repr_injective h)
  · exact congrArg _

theorem toString_party_ne_empty (a : PartyID) : toString a ≠ "" := by
  intro h
  have hdigits : Nat.toDigits 10 a.toNat = [] := String.ofList_injective h
  exact Nat.toDigits_ne_nil hdigits

theorem ControlEvent.signerID_eq_empty {e : ControlEvent} : e.signerID = "" ↔ e.kind = .configRequest := by
  cases e with
  | baf | complaint | assemblerReport => simp [signerID, kind, toString_party_ne_empty]
  | configRequest => simp [signerID, kind]

/-! ## Identities -/

section Identity

variable {W : Wire} {e e' : ControlEvent}

/-- Events of one kind that are hashed from the same bytes carry one config sequence. -/
theorem ControlEvent.carriedSeq_eq (hkind : e.kind = e'.kind) (h : e.payloadToHash W = e'.payloadToHash W) :
    e.carriedSeq W = e'.carriedSeq W := by
  cases e <;> cases e' <;> try cases hkind
  case baf.baf b b' =>
    rw [payloadToHash_baf, payloadToHash_baf, append_eq_append_iff (by simp), append_eq_append_iff (by simp),
      append_eq_append_iff (by simp)] at h
    exact congrArg Except.ok (bigEndian_eight_inj.mp h.2.1.1)
  case complaint.complaint c c' =>
    rw [payloadToHash_complaint, payloadToHash_complaint, append_eq_append_iff (by simp)] at h
    exact congrArg Except.ok (bigEndian_eight_inj.mp h.1)
  case configRequest.configRequest r r' =>
    have henvelope : r.envelope = r'.envelope := by
      simpa [payloadToHash, ConfigRequest.bytes, ConfigRequest.toProto] using h
    simp only [carriedSeq, ConfigRequest.configSequence, henvelope]
  case assemblerReport.assemblerReport r r' =>
    simp only [payloadToHash, AssemblerDecisionReport.unsignedBytes, AssemblerDecisionReport.bytes] at h
    rw [append_eq_append_iff (by simp), append_eq_append_iff (by simp), append_eq_append_iff (by simp)] at h
    exact congrArg Except.ok (bigEndian_eight_inj.mp h.1.1.2)

/-- The lengths and the signers tell the kinds apart, but for a fragment and a complaint. -/
theorem ControlEvent.kind_eq_or_overlap (h : e.payloadToHash W = e'.payloadToHash W)
    (hsigner : e.signerID = e'.signerID) : e.kind = e'.kind ∨ e.Overlap e' := by
  have hlen := congrArg List.length h
  have hconfig : e.kind = .configRequest ↔ e'.kind = .configRequest := by
    rw [← signerID_eq_empty, hsigner, signerID_eq_empty]
  cases e <;> cases e' <;> try exact .inl rfl
  case baf.complaint b c => exact .inr (overlaps_iff.mp ⟨h, toString_party_inj.mp hsigner⟩)
  case complaint.baf c b => exact .inr (overlaps_iff.mp ⟨h.symm, (toString_party_inj.mp hsigner).symm⟩)
  case baf.assemblerReport | assemblerReport.baf =>
    rw [length_payloadToHash_baf, length_payloadToHash_report] at hlen
    omega
  case complaint.assemblerReport c r | assemblerReport.complaint r c =>
    have hlong := length_payloadToHash_complaint (W := W) c
    rw [length_payloadToHash_report] at hlen
    omega
  all_goals simp [kind] at hconfig

theorem ControlEvent.Overlap.named (h : e.Overlap e') :
    e.kind ≠ e'.kind ∧ e.payloadToHash W = e'.payloadToHash W ∧ e.signerID = e'.signerID := by
  cases e <;> cases e' <;> try exact h.elim
  all_goals obtain ⟨hbytes, hsigner⟩ := overlaps_iff.mpr h
  · exact ⟨by simp [kind], hbytes, toString_party_inj.mpr hsigner⟩
  · exact ⟨by simp [kind], hbytes.symm, (toString_party_inj.mpr hsigner).symm⟩

theorem requestID_of_fromBytes {req} (he : fromBytes W req = .ok e) : requestID W req = ⟨e.id W, e.signerID⟩ := by
  rw [requestID, he]

/-- Up to collisions of the hash, a name stands for the hashed bytes and the signer. -/
theorem requestID_eq_iff (hsha : Function.Injective W.sha256) {req req'}
    (he : fromBytes W req = .ok e) (he' : fromBytes W req' = .ok e') :
    requestID W req = requestID W req' ↔ e.payloadToHash W = e'.payloadToHash W ∧ e.signerID = e'.signerID := by
  rw [requestID_of_fromBytes he, requestID_of_fromBytes he', RequestInfo.mk.injEq, ControlEvent.id, ControlEvent.id,
    hex_injective.eq_iff, hsha.eq_iff]

/-- The sequence under which an event is verified depends on its kind and the sequence that it carries. -/
theorem ControlEvent.eventConfigSeq_eq_bind (e : ControlEvent) : eventConfigSeq W e = e.carriedSeq W >>= fun seq =>
      .ok (if e.kind = .configRequest ∧ seq ≠ 0 then seq - 1 else seq, decide (e.kind = .baf)) := by
  cases e with
  | baf | complaint | assemblerReport => simp [eventConfigSeq, carriedSeq, kind]
  | configRequest =>
    have hbranch : ∀ seq : ConfigSequence, (if seq = 0 then .ok (0, false) else .ok (seq - 1, false)) =
        (.ok (if seq ≠ 0 then seq - 1 else seq, false) : Outcome (ConfigSequence × Bool)) := by
      intro seq
      by_cases h : seq = 0 <;> simp [h]
    simp only [eventConfigSeq, carriedSeq, kind, pure_eq, hbranch]
    simp

/-- **The identity of a request determines the kind and the config sequence of its event iff the two events do not
overlap**; and then it determines the sequence under which the event is verified. -/
theorem requestID_determines_iff (hsha : Function.Injective W.sha256) {req req' : Bytes}
    (he : ControlEvent.fromBytes W req = .ok e) (he' : ControlEvent.fromBytes W req' = .ok e') :
    ((requestID W req = requestID W req' → e.kind = e'.kind ∧ e.carriedSeq W = e'.carriedSeq W) ↔ ¬ e.Overlap e') ∧
      (¬ e.Overlap e' → requestID W req = requestID W req' →
        Consensus.eventConfigSeq W e = Consensus.eventConfigSeq W e') := by
  have hdetermines : ¬ e.Overlap e' → requestID W req = requestID W req' →
      e.kind = e'.kind ∧ e.carriedSeq W = e'.carriedSeq W := by
    intro hno hid
    obtain ⟨hbytes, hsigner⟩ := (requestID_eq_iff hsha he he').mp hid
    have hkind := (kind_eq_or_overlap hbytes hsigner).resolve_right hno
    exact ⟨hkind, carriedSeq_eq hkind hbytes⟩
  refine ⟨⟨?_, hdetermines⟩, ?_⟩
  · intro h hover
    obtain ⟨hkind, hbytes, hsigner⟩ := hover.named (W := W)
    exact hkind (h ((requestID_eq_iff hsha he he').mpr ⟨hbytes, hsigner⟩)).1
  · intro hno hid
    obtain ⟨hkind, hseq⟩ := hdetermines hno hid
    rw [eventConfigSeq_eq_bind, eventConfigSeq_eq_bind, hkind, hseq]

end Identity

/-- One fragment with two signatures. -/
theorem requestID_determines_firstBatch :
    let signed (signature : Bytes) : ControlEvent := .baf { firstBatchBy 1 with signature }
    requestID refWire ((signed [1]).bytes refWire) = requestID refWire ((signed [2]).bytes refWire) ∧
      eventConfigSeq refWire (signed [1]) = eventConfigSeq refWire (signed [2]) := by
  intro signed
  have hread : ∀ sig, fromBytes refWire ((signed sig).bytes refWire) = .ok (signed sig) :=
    fun _ => fromBytes_bytes refWire trivial
  have hid : requestID refWire ((signed [1]).bytes refWire) = requestID refWire ((signed [2]).bytes refWire) := by
    rw [requestID_of_fromBytes (hread [1]), requestID_of_fromBytes (hread [2])]
    rfl
  exact ⟨hid, (requestID_determines_iff (W := refWire) Function.injective_id (hread [1]) (hread [2])).2 id hid⟩

/-! ## A fragment under the name of a complaint -/

/-- Party 1's signed complaint about the primary of shard 1 at term 1. -/
def slowPrimary : Complaint :=
  let c : Complaint := ⟨⟨1, 1⟩, 1, [], "primary is slow, please rotate", 0⟩
  { c with signature := 1 :: c.toBeSigned }

/-- An unsigned fragment of a config sequence far ahead that spells the complaint. -/
def spelledComplaint : BAF where
  shard := 0
  primary := 1
  seq := 0
  digest := 0 :: 30 :: "primary is slow, please rotate".toUTF8.toList
  signer := 1
  signature := []
  primarySignature := []
  configSequence := 2 ^ 48
  txCount := 0

theorem overlaps_slowPrimary : Overlaps spelledComplaint slowPrimary where
  seq := by decide
  shardTerm := by decide
  primary := rfl
  shard := rfl
  digest := by decide +kernel
  signer := rfl

/-- A consenter at sequence 0 takes the complaint, and would not take the fragment. -/
theorem verifyEvent_slowPrimary {W} (L : ConfigLib W) (num : DecisionNum) :
    (BatcherRole.taggedConsenter W 0).verifyEvent L num (.complaint slowPrimary) = .ok () ∧
      (BatcherRole.taggedConsenter W 0).verifyEvent L num (.baf spelledComplaint) ≠ .ok () := by
  constructor
  · have hseq : slowPrimary.configSeq = (BatcherRole.taggedConsenter W 0).verificationSequence := rfl
    simp only [verifyEvent, verifyComplaint, require_true _ hseq, ok_bind]
    exact ofExcept_eq_ok.mpr ((BatcherRole.verifiedBy_taggedVerify (newBatcherIdentity 1 1) _ _).mpr rfl)
  · have hahead : ¬ spelledComplaint.configSequence ≤ (BatcherRole.taggedConsenter W 0).verificationSequence := by
      change ¬ (2 : UInt64) ^ 48 ≤ 0
      decide
    intro h
    simp only [verifyEvent, verifyBAF, bind_eq_ok, require_eq_ok] at h
    exact hahead h.choose_spec.1

/-- A payload with the fragment passes, and reports the name of the complaint. -/
theorem verifyProposalRequests_spelledComplaint {W} (L : ConfigLib W) (num : DecisionNum) :
    (BatcherRole.taggedConsenter W 0).verifyProposalRequests L [(baf spelledComplaint).bytes W] 0 num =
      .ok [requestID W ((ControlEvent.complaint slowPrimary).bytes W)] := by
  have hfragment : fromBytes W ((baf spelledComplaint).bytes W) =
      .ok (.baf spelledComplaint) := fromBytes_bytes W trivial
  have hcomplaint : fromBytes W ((ControlEvent.complaint slowPrimary).bytes W) =
      .ok (.complaint slowPrimary) := fromBytes_bytes W trivial
  have hname : requestID W ((ControlEvent.complaint slowPrimary).bytes W) =
      requestID W ((baf spelledComplaint).bytes W) := by
    obtain ⟨hbytes, hsigner⟩ := overlaps_iff.mpr overlaps_slowPrimary
    rw [requestID_of_fromBytes hfragment, requestID_of_fromBytes hcomplaint, ControlEvent.id, ControlEvent.id, hbytes]
    rfl
  refine mapEach_eq_ok.mpr (.cons ?_ .nil)
  refine verifyProposalRequest_eq_ok.mpr ⟨hname, _, _, _, hfragment, rfl, ?_⟩
  intro haffects
  unfold Consensus.AffectsState at haffects
  exact absurd haffects (by decide)

/-- The consenter takes the complaint into its pool. Then a payload with the fragment, which it would not verify, passes
and has the complaint dropped: the two are of different kinds and config sequences, and have one name. -/
theorem complaint_named_by_fragment :
    let c := BatcherRole.taggedConsenter refWire 0
    let L := fourLib
    let complaint := (ControlEvent.complaint slowPrimary).bytes refWire
    let fragment := (baf spelledComplaint).bytes refWire
    Function.Injective refWire.sha256 ∧ fromBytes refWire complaint = .ok (.complaint slowPrimary) ∧
      fromBytes refWire fragment = .ok (.baf spelledComplaint) ∧
      requestID refWire fragment = requestID refWire complaint ∧
      (baf spelledComplaint).carriedSeq refWire ≠ (ControlEvent.complaint slowPrimary).carriedSeq refWire ∧
      c.verifyEvent L 0 (.complaint slowPrimary) = .ok () ∧ c.verifyEvent L 1 (.baf spelledComplaint) ≠ .ok () ∧
      c.verifyProposalRequests L [fragment] 0 1 = .ok [requestID refWire complaint] := by
  intro c L complaint fragment
  have hpasses := verifyProposalRequests_spelledComplaint L 1
  obtain ⟨hname, -⟩ := verifyProposalRequest_eq_ok.mp (forall₂_cons.mp (mapEach_eq_ok.mp hpasses)).1
  refine ⟨Function.injective_id, fromBytes_bytes refWire trivial,
    fromBytes_bytes refWire trivial, hname.symm, ?_, (verifyEvent_slowPrimary L 0).1,
    (verifyEvent_slowPrimary L 1).2, hpasses⟩
  intro hseq
  exact absurd (Except.ok.inj hseq) (by decide)

end Arma
