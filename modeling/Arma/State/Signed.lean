import Arma.State.Events

/-!
# A signature belongs to one message

Batchers sign fragments and complaints, assemblers sign decision reports. The bytes that are signed begin with the tag
of the kind (`PrefixWithDomain`). After it a fragment is a DER structure, a complaint and a report are fields of fixed
widths, and the complaint ends with its reason after the reason's length.

**`Signable.toBeSigned_eq_iff`**: two messages have the same bytes to be signed only if they are of one kind and differ
in their signatures alone. A reason of more than 65535 bytes is cut off, so it takes reasons up to that length.
-/

namespace Arma

open Arma.Lib List

/-- What is signed by itself. -/
inductive Signable where
  | baf (baf : BAF)
  | complaint (complaint : Complaint)
  | assemblerReport (report : AssemblerDecisionReport)
  deriving DecidableEq, Repr

namespace Signable

def toBeSigned (W : Wire) : Signable → Bytes
  | .baf b => b.toBeSigned W
  | .complaint c => c.toBeSigned
  | .assemblerReport r => r.toBeSigned

/-- The message without its signatures. -/
def unsigned : Signable → Signable
  | .baf b => .baf { b with signature := [], primarySignature := [] }
  | .complaint c => .complaint { c with signature := [] }
  | .assemblerReport r => .assemblerReport { r with signature := [] }

/-- The counters are of 64 bits, as they are in the source, and a reason has at most 65535 bytes. -/
def InRange : Signable → Prop
  | .baf b => b.seq < 2 ^ 64
  | .complaint c => c.term < 2 ^ 64 ∧ c.reason.utf8ByteSize ≤ maxUint16
  | .assemblerReport r => r.decisionNum < 2 ^ 64

end Signable

/-! ## The three layouts -/

theorem bigEndian_eight_inj_of_lt {m n} (hm : m < 2 ^ 64) (hn : n < 2 ^ 64) :
    bigEndian 8 m = bigEndian 8 n ↔ m = n := by
  rw [bigEndian_inj, Nat.mod_eq_of_lt (show m < 256 ^ 8 from hm), Nat.mod_eq_of_lt (show n < 256 ^ 8 from hn)]

theorem BAF.toAsn1_inj {b b' : BAF} : b.toAsn1 = b'.toAsn1 ↔
    ({ b with signature := [], primarySignature := [] } : BAF) =
      { b' with signature := [], primarySignature := [] } := by
  simp only [toAsn1, Asn1BAF.mk.injEq, BAF.mk.injEq, UInt16.toNat_inj, UInt64.toNat_inj]
  tauto

theorem Complaint.bytes_unsigned_inj {c c'} (h : (Signable.complaint c).InRange)
    (h' : (Signable.complaint c').InRange) :
    ({ c with signature := [] } : Complaint).bytes = ({ c' with signature := [] } : Complaint).bytes ↔
      ({ c with signature := [] } : Complaint) = { c' with signature := [] } := by
  obtain ⟨hterm, hreason⟩ := h
  obtain ⟨hterm', hreason'⟩ := h'
  rw [← length_toUTF8_toList] at hreason hreason'
  constructor
  · intro heq
    unfold bytes at heq
    simp only [take_of_length_le hreason, take_of_length_le hreason', append_assoc, nil_append] at heq
    obtain ⟨hconfigSeq, heq⟩ := append_inj heq (by simp)
    obtain ⟨hshard, heq⟩ := append_inj heq (by simp)
    obtain ⟨hterms, heq⟩ := append_inj heq (by simp)
    obtain ⟨hsigner, heq⟩ := append_inj heq (by simp)
    obtain ⟨-, heq⟩ := append_inj heq (by simp)
    obtain ⟨-, hreasons⟩ := append_inj heq (by simp)
    have hshardTerm : c.shardTerm = c'.shardTerm :=
      ShardTerm.ext (bigEndian_two_inj.mp hshard) ((bigEndian_eight_inj_of_lt hterm hterm').mp hterms)
    simp only [Complaint.mk.injEq]
    exact ⟨hshardTerm, bigEndian_two_inj.mp hsigner, trivial, toUTF8_toList_inj.mp hreasons,
      bigEndian_eight_inj.mp hconfigSeq⟩
  · exact congrArg _

theorem AssemblerDecisionReport.unsignedBytes_inj {r r' : AssemblerDecisionReport}
    (h : r.decisionNum < 2 ^ 64) (h' : r'.decisionNum < 2 ^ 64) : r.unsignedBytes = r'.unsignedBytes ↔
      ({ r with signature := [] } : AssemblerDecisionReport) = { r' with signature := [] } := by
  constructor
  · intro heq
    unfold unsignedBytes bytes at heq
    simp only [append_assoc] at heq
    obtain ⟨hparty, heq⟩ := append_inj heq (by simp)
    obtain ⟨hnum, heq⟩ := append_inj heq (by simp)
    obtain ⟨hconfigSeq, -⟩ := append_inj heq (by simp)
    simp only [AssemblerDecisionReport.mk.injEq]
    exact ⟨bigEndian_two_inj.mp hparty, (bigEndian_eight_inj_of_lt h h').mp hnum, bigEndian_eight_inj.mp hconfigSeq,
      trivial⟩
  · exact congrArg _

/-! ## All of them -/

/-- **A signature cannot be moved to another message.** -/
theorem Signable.toBeSigned_eq_iff {W : Wire} {x y : Signable} (hx : x.InRange) (hy : y.InRange) :
    x.toBeSigned W = y.toBeSigned W ↔ x.unsigned = y.unsigned := by
  cases x <;> cases y
  case baf.baf => simp only [toBeSigned, unsigned, BAF.toBeSigned_inj, BAF.toAsn1_inj, Signable.baf.injEq]
  case complaint.complaint =>
    simp only [toBeSigned, unsigned, Complaint.toBeSigned, prefixWithDomain_inj, true_and,
      Complaint.bytes_unsigned_inj hx hy, Signable.complaint.injEq]
  case assemblerReport.assemblerReport =>
    simp only [toBeSigned, unsigned, AssemblerDecisionReport.toBeSigned, prefixWithDomain_inj, true_and,
      AssemblerDecisionReport.unsignedBytes_inj hx hy, Signable.assemblerReport.injEq]
  -- the domains of the others differ
  all_goals simp [toBeSigned, unsigned, BAF.toBeSigned, Complaint.toBeSigned, AssemblerDecisionReport.toBeSigned,
    prefixWithDomain_inj]

/-- A complaint that says why, and the same one without a reason. -/
theorem toBeSigned_eq_iff_reason :
    let complaint := Signable.complaint ⟨⟨1, 3⟩, 2, [], "slow", 0⟩
    let silent := Signable.complaint ⟨⟨1, 3⟩, 2, [], "", 0⟩
    complaint.InRange ∧ silent.InRange ∧ complaint.toBeSigned (.unary .unset) ≠ silent.toBeSigned (.unary .unset) := by
  intro complaint silent
  have hrange : complaint.InRange := ⟨by decide, by decide +kernel⟩
  have hrange' : silent.InRange := ⟨by decide, by decide +kernel⟩
  refine ⟨hrange, hrange', fun heq => ?_⟩
  have hsame := (Signable.toBeSigned_eq_iff hrange hrange').mp heq
  exact absurd hsame (by decide)

end Arma
