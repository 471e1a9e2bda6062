import Arma.State.Process

/-!
# What the votes say

`batchAttestationVotesByDigests` is a map of maps; the rules that read it only ever ask two
questions of it. How many pending fragments name a batch and a digest is `votes`, and
`mem_thresholdDigests` says that extraction compares exactly that number with the threshold. Whether a
batch has two digests from signers other than its primary is `Equivocates`, and `equivocates_iff` says
that this is what `DetectEquivocation` tests.

* `extracted_eq`: the extracted fragments are the pending ones whose batch and digest have a threshold
  of votes.
* `mem_extract_pending`: a fragment stays pending iff no digest of its batch has.
-/

namespace Arma

open Arma.Lib List

/-- The number of fragments of `l` that attest digest `d` of batch `k`. -/
def votes (l : List BAF) (k : BatchKey) (d : Bytes) : Nat :=
  l.countP fun b => batchKeyOf b = k ∧ b.digest = d

/-- Two fragments of `l`, neither signed by the primary, attest different digests of batch `k`. -/
def Equivocates (l : List BAF) (k : BatchKey) : Prop :=
  ∃ b ∈ l, ∃ b' ∈ l, (batchKeyOf b = k ∧ b.signer ≠ b.primary) ∧
    (batchKeyOf b' = k ∧ b'.signer ≠ b'.primary) ∧ b.digest ≠ b'.digest

theorem votes_append (l l' : List BAF) (k : BatchKey) (d : Bytes) :
    votes (l ++ l') k d = votes l k d + votes l' k d := by
  simp [votes, countP_append]

variable {k : BatchKey} {d : Bytes}

theorem votes_pos {l} : 0 < votes l k d ↔ ∃ b ∈ l, batchKeyOf b = k ∧ b.digest = d := by
  simp [votes, countP_pos_iff]

theorem votes_filter_le (l : List BAF) (p : BAF → Bool) (k : BatchKey) (d : Bytes) :
    votes (l.filter p) k d ≤ votes l k d :=
  Sublist.countP_le filter_sublist

namespace State

variable (s : State)

/-- The fragments that `batchAttestationVotesByDigests` counts. -/
def counted (excludeSelfSigned : Bool) : List BAF :=
  s.pending.filter fun baf => ¬ (excludeSelfSigned ∧ baf.signer = baf.primary)

variable {s}

@[simp] theorem counted_false : s.counted false = s.pending := by simp [counted]

theorem mem_counted_true {b} : b ∈ s.counted true ↔ b ∈ s.pending ∧ b.signer ≠ b.primary := by simp [counted]

/-- The inner map under a batch key is the pass over the fragments of that batch. -/
theorem lookup_votes (excl : Bool) (k : BatchKey) : ((s.batchAttestationVotesByDigests excl).lookup k).getD ∅ =
      gather BAF.digest (bucket BAF.signer) ((s.counted excl).filter (batchKeyOf · = k)) :=
  lookup_gatherNested k

/-- The signers under a batch and a digest, when there are any, are those of the fragments that
attest it. -/
theorem lookup_votes_eq_some {excl signers} :
    (((s.batchAttestationVotesByDigests excl).lookup k).getD ∅).lookup d = some signers ↔
      (∃ b ∈ s.counted excl, batchKeyOf b = k ∧ b.digest = d) ∧
        signers = (((s.counted excl).filter (batchKeyOf · = k)).filter (BAF.digest · = d)).map BAF.signer := by
  rw [lookup_votes, lookup_gather_bucket_eq_some]
  simp only [mem_filter, decide_eq_true_eq, and_assoc]

theorem length_signers (k : BatchKey) (d : Bytes) :
    (((s.pending.filter (batchKeyOf · = k)).filter (BAF.digest · = d)).map BAF.signer).length =
      votes s.pending k d := by
  rw [length_map, filter_filter, ← countP_eq_length_filter, votes]
  congr 1
  funext b
  simp [and_comm]

theorem exists_entry_iff {excl : Bool} {p : List PartyID → Prop} :
    (∃ e ∈ (s.batchAttestationVotesByDigests excl).entries, e.1 = k ∧ ∃ x ∈ e.2.entries, x.1 = d ∧ p x.2) ↔
    ∃ signers, (((s.batchAttestationVotesByDigests excl).lookup k).getD ∅).lookup d = some signers ∧ p signers := by
  constructor
  · rintro ⟨⟨k, inner⟩, he, rfl, ⟨d, signers⟩, hx, rfl, hp⟩
    refine ⟨signers, ?_, hp⟩
    have houter : (s.batchAttestationVotesByDigests excl).lookup k = some inner := AList.mem_lookup_iff.mpr he
    rw [houter]
    exact AList.mem_lookup_iff.mpr hx
  · rintro ⟨signers, hlookup, hp⟩
    cases houter : (s.batchAttestationVotesByDigests excl).lookup k with
    | none =>
      rw [houter] at hlookup
      exact absurd hlookup (by simp)
    | some inner =>
      rw [houter] at hlookup
      exact ⟨⟨k, inner⟩, AList.mem_lookup_iff.mp houter, rfl, ⟨d, signers⟩, AList.mem_lookup_iff.mp hlookup, rfl, hp⟩

/-- **The digests that reached the threshold** are those that some fragment attests and that have a
threshold of votes. -/
theorem mem_thresholdDigests : (k, d) ∈ s.thresholdDigests ↔ (∃ b ∈ s.pending, batchKeyOf b = k ∧ b.digest = d) ∧
        s.threshold.toNat ≤ votes s.pending k d := by
  have hentries : (k, d) ∈ s.thresholdDigests ↔ ∃ e ∈ (s.batchAttestationVotesByDigests false).entries, e.1 = k ∧
        ∃ x ∈ e.2.entries, x.1 = d ∧ s.threshold.toNat ≤ x.2.length := by
    simp only [thresholdDigests, mem_flatMap, mem_map, mem_filter, decide_eq_true_eq, Prod.mk.injEq]
    constructor
    · rintro ⟨e, he, x, ⟨hx, hle⟩, hk, hd⟩
      exact ⟨e, he, hk, x, hx, hd, hle⟩
    · rintro ⟨e, he, hk, x, hx, hd, hle⟩
      exact ⟨e, he, x, ⟨hx, hle⟩, hk, hd⟩
  rw [hentries, exists_entry_iff (p := fun signers => s.threshold.toNat ≤ signers.length)]
  constructor
  · rintro ⟨signers, hlookup, hle⟩
    obtain ⟨hb, rfl⟩ := lookup_votes_eq_some.mp hlookup
    rw [counted_false] at hb hle
    exact ⟨hb, by rwa [length_signers] at hle⟩
  · rintro ⟨hb, hle⟩
    refine ⟨_, lookup_votes_eq_some.mpr ⟨by rwa [counted_false], rfl⟩, ?_⟩
    rwa [counted_false, length_signers]

theorem mem_decidedBatches : k ∈ s.decidedBatches ↔ ∃ b ∈ s.pending, batchKeyOf b = k ∧
      s.threshold.toNat ≤ votes s.pending k b.digest := by
  simp only [decidedBatches, mem_map, Prod.exists, exists_and_right, exists_eq_right, mem_thresholdDigests]
  constructor
  · rintro ⟨d, ⟨b, hb, hk, rfl⟩, hle⟩
    exact ⟨b, hb, hk, hle⟩
  · rintro ⟨b, hb, hk, hle⟩
    exact ⟨b.digest, ⟨b, hb, hk, rfl⟩, hle⟩

/-! ## Extraction -/

theorem extracted_eq : s.extractBatchAttestationsFromPending.2 =
      s.pending.filter fun b => s.threshold.toNat ≤ votes s.pending (batchKeyOf b) b.digest := by
  unfold extractBatchAttestationsFromPending
  refine filter_congr fun b hb => ?_
  rw [decide_eq_decide, mem_thresholdDigests]
  constructor
  · rintro ⟨-, -, hle⟩
    exact hle
  · intro hle
    exact ⟨mem_decidedBatches.mpr ⟨b, hb, rfl, hle⟩, ⟨b, hb, rfl, rfl⟩, hle⟩

theorem mem_extracted {b} : b ∈ s.extractBatchAttestationsFromPending.2 ↔
      b ∈ s.pending ∧ s.threshold.toNat ≤ votes s.pending (batchKeyOf b) b.digest := by
  rw [extracted_eq, mem_filter, decide_eq_true_eq]

theorem mem_extract_pending {b} : b ∈ s.extractBatchAttestationsFromPending.1.pending ↔
      b ∈ s.pending ∧ ∀ b' ∈ s.pending, batchKeyOf b' = batchKeyOf b →
        votes s.pending (batchKeyOf b) b'.digest < s.threshold.toNat := by
  simp only [extractBatchAttestationsFromPending, mem_filter, decide_eq_true_eq,
    mem_decidedBatches, not_exists, not_and, not_le]

/-! ## Equivocation -/

/-- **What `DetectEquivocation` tests**: the batch has more than one digest, self-signed fragments
left out. -/
theorem equivocates_iff : 1 < (((s.batchAttestationVotesByDigests true).lookup k).getD ∅).keys.length ↔
      Equivocates s.pending k := by
  have hkey : ∀ d, d ∈ (((s.batchAttestationVotesByDigests true).lookup k).getD ∅).keys ↔
      ∃ b ∈ s.pending, (batchKeyOf b = k ∧ b.signer ≠ b.primary) ∧ b.digest = d := by
    intro d
    rw [lookup_votes, ← AList.mem_keys, mem_gather]
    simp only [mem_filter, mem_counted_true, decide_eq_true_eq]
    constructor
    · rintro ⟨b, ⟨⟨hb, hne⟩, hk⟩, hd⟩
      exact ⟨b, hb, ⟨hk, hne⟩, hd⟩
    · rintro ⟨b, hb, ⟨hk, hne⟩, hd⟩
      exact ⟨b, ⟨⟨hb, hne⟩, hk⟩, hd⟩
  rw [← toFinset_card_of_nodup (AList.keys_nodup _), Finset.one_lt_card]
  simp only [mem_toFinset, hkey]
  constructor
  · rintro ⟨_, ⟨b, hb, hkb, rfl⟩, _, ⟨b', hb', hkb', rfl⟩, hne⟩
    exact ⟨b, hb, b', hb', hkb, hkb', hne⟩
  · rintro ⟨b, hb, b', hb', hkb, hkb', hne⟩
    exact ⟨_, ⟨b, hb, hkb, rfl⟩, _, ⟨b', hb', hkb', rfl⟩, hne⟩

end State

end Arma
