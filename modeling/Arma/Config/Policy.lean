import Arma.Config.Transition

/-!
# The block validation policy

What `validateBlockValidationPolicy` (`config/verify/orderer_rules.go`) leaves of a policy that it accepts.

* A signature policy is a tree: a leaf names an entry of the policy's list of identities, and a gate asks for some of
  its rules. `SignaturePolicyEnvelope.satisfiedBy` is what it means for a set of signers.
* `checkSignedBy_eq_ok` and `checkIdentities_eq_ok` say what the two loops have established: the rules name distinct
  entries in range, and the identities are the expected ones, each once.
* **`accepted_policy_is_bft_quorum`**: an accepted policy asks for a BFT quorum of the consenters.
-/

namespace Arma.Verify

open Arma.Lib Outcome List Function

/-! ## What a policy means -/

section Meaning

variable (identities : List (Option MSPPrincipal)) (S : Set Bytes) [DecidablePred (· ∈ S)]

/-- Whether the identity at an index is one of the signers. -/
def signedByIndex (index : Int32) : Bool :=
  match identities[index.toInt.toNat]? with
  | some (some id) => 0 ≤ index.toInt ∧ id.identity ∧ id.principal ∈ S
  | _ => false

mutual

/-- Whether the signers satisfy a rule. -/
def SignaturePolicy.satisfiedBy : SignaturePolicy → Bool
  | .unset => false
  | .signedBy index => signedByIndex identities S index
  | .nOutOf n rules => n.toInt ≤ countSatisfied rules

/-- How many rules the signers satisfy. -/
def countSatisfied : List (Option SignaturePolicy) → Nat
  | [] => 0
  | none :: rules => countSatisfied rules
  | some rule :: rules => (if rule.satisfiedBy then 1 else 0) + countSatisfied rules

end

end Meaning

/-- Whether a set of signers satisfies a policy. -/
def SignaturePolicyEnvelope.satisfiedBy (envelope : SignaturePolicyEnvelope) (S : Set Bytes)
    [DecidablePred (· ∈ S)] : Bool :=
  match envelope.rule with
  | some rule => rule.satisfiedBy envelope.identities S
  | none => false

/-! ## What the checks establish -/

/-- The loop over the rules: each names an entry in range, and none that was named before. -/
theorem checkSignedBy_eq_ok {n i rules seenSignedBy} (h : checkSignedBy n i rules seenSignedBy = .ok ()) :
    ∃ indices : List Int32, rules = indices.map (fun index => some (.signedBy index)) ∧
      (∀ index ∈ indices, 0 ≤ index.toInt ∧ index.toInt < n ∧ seenSignedBy[index.toInt.toNat]? = some false) ∧
      (indices.map fun index => index.toInt.toNat).Nodup := by
  induction rules generalizing i seenSignedBy with
  | nil => exact ⟨[], rfl, by simp, nodup_nil⟩
  | cons rule rules ih =>
    simp only [checkSignedBy, bind_eq_ok, nonNil_eq_ok] at h
    obtain ⟨rule, rfl, h⟩ := h
    cases rule with
    | signedBy index =>
      simp only [bind_eq_ok, require_eq_ok, exists_unit, index_eq_ok] at h
      obtain ⟨hrange, seen, hseen, hfresh, hrest⟩ := h
      obtain ⟨indices, rfl, hmem, hnodup⟩ := ih hrest
      have hfalse : seen = false := by simpa using hfresh
      refine ⟨index :: indices, rfl, ?_, ?_⟩
      · intro j hj
        rcases mem_cons.mp hj with rfl | hj
        · exact ⟨hrange.1, hrange.2, by rw [hseen, hfalse]⟩
        · obtain ⟨hpos, hlt, hget⟩ := hmem j hj
          refine ⟨hpos, hlt, ?_⟩
          rw [getElem?_set] at hget
          split at hget
          · split at hget <;> simp at hget
          · exact hget
      · refine nodup_cons.mpr ⟨fun hdup => ?_, hnodup⟩
        -- The flag of this index is set by now, so that no later rule can name it.
        obtain ⟨j, hj, heq⟩ := mem_map.mp hdup
        obtain ⟨-, -, hget⟩ := hmem j hj
        rw [heq, getElem?_set_self' , hseen] at hget
        simp at hget
    | unset | nOutOf => simp at h

/-- The loop over the identities: they are among the expected ones, each once, and the rest is missing. -/
theorem checkIdentities_eq_ok {ids expectedIdentities missing}
    (h : checkIdentities ids expectedIdentities = .ok missing) :
    ∃ principals : List Bytes, ids = principals.map (fun p => some ⟨true, p⟩) ∧
      (principals ++ missing).Perm expectedIdentities := by
  induction ids generalizing expectedIdentities with
  | nil =>
    cases h
    exact ⟨[], rfl, .rfl⟩
  | cons id ids ih =>
    simp only [checkIdentities, bind_eq_ok, nonNil_eq_ok, require_eq_ok, exists_unit, contains_iff_mem] at h
    obtain ⟨⟨identity, principal⟩, rfl, hidentity, hmem, hrest⟩ := h
    obtain ⟨principals, rfl, hperm⟩ := ih hrest
    obtain rfl : identity = true := hidentity
    exact ⟨principal :: principals, rfl, (hperm.cons principal).trans (perm_cons_erase hmem).symm⟩

def Consenter.policyIdentity (L : Libraries) (c : Consenter) : Bytes := L.marshalIdentity c.mspId c.identity

theorem perm_expectedIdentities (L : Libraries) (cs : List Consenter) (ids : List Bytes)
    (hnodup : (cs.map (Consenter.policyIdentity L) ++ ids).Nodup) :
    (cs.foldl (fun ids c => ids.insert (L.marshalIdentity c.mspId c.identity)) ids).Perm
      (cs.map (Consenter.policyIdentity L) ++ ids) := by
  induction cs generalizing ids with
  | nil => exact .rfl
  | cons c cs ih =>
    have hperm : (cs.map (Consenter.policyIdentity L) ++ c.policyIdentity L :: ids).Perm
        ((c :: cs).map (Consenter.policyIdentity L) ++ ids) := perm_middle
    have hnodup' := hperm.nodup_iff.mpr hnodup
    have hfresh : c.policyIdentity L ∉ ids := (nodup_cons.mp (nodup_append.mp hnodup').2.1).1
    have hinsert : ids.insert (c.policyIdentity L) = c.policyIdentity L :: ids := insert_of_not_mem hfresh
    rw [foldl_cons, show ids.insert (L.marshalIdentity c.mspId c.identity) = _ from hinsert]
    exact (ih _ hnodup').trans hperm

/-- What is left of an accepted policy: a gate over rules that name each entry once, and the entries are the
consenters. -/
structure QuorumPolicy (L : Libraries) (envelope : SignaturePolicyEnvelope) (cs : List Consenter)
    (indices : List Int32) (principals : List Bytes) : Prop where
  rule : envelope.rule = some (.nOutOf (Int32.ofNat (computeBFTQuorum cs.length ((cs.length - 1) / 3)))
    (indices.map fun index => some (.signedBy index)))
  identities : envelope.identities = principals.map fun p => some ⟨true, p⟩
  index_nonneg : ∀ index ∈ indices, 0 ≤ index.toInt
  indices_perm : (indices.map fun index => index.toInt.toNat).Perm (range cs.length)
  principals_perm : principals.Perm (cs.map (Consenter.policyIdentity L))

theorem quorumPolicy_of_valid {L policy consenters} (h : validateBlockValidationPolicy L policy consenters = .ok ())
    (hdistinct : (consenters.filterMap (Option.map (Consenter.policyIdentity L))).Nodup) :
    ∃ p envelope cs indices principals, policy = some ⟨some p⟩ ∧ L.unmarshalSignaturePolicy p.value = .ok envelope ∧
      consenters = cs.map some ∧ QuorumPolicy L envelope cs indices principals := by
  simp only [validateBlockValidationPolicy, bind_eq_ok, nonNil_eq_ok, require_eq_ok,
    exists_unit, wrap_eq_ok, ofExcept_eq_ok, mapEach_nonNil_eq_ok] at h
  obtain ⟨⟨_⟩, rfl, p, rfl, -, envelope, henvelope, ⟨n, rules⟩, hrule, hn, hlen, hrules, cs, rfl, missing, hids,
    hmissing⟩ := h
  simp only [length_map] at hn hlen hrules hids
  obtain ⟨indices, rfl, hindex, hnodup⟩ := checkSignedBy_eq_ok hrules
  obtain ⟨principals, hprincipals, hperm⟩ := checkIdentities_eq_ok hids
  obtain rfl := eq_nil_of_length_eq_zero hmissing
  have hcs : (cs.map (Consenter.policyIdentity L)).Nodup := by
    rw [filterMap_map] at hdistinct
    simpa only [comp_def, Option.map_some, filterMap_eq_map'] using hdistinct
  have hsub : (indices.map fun index => index.toInt.toNat) ⊆ range cs.length := by
    intro k hk
    obtain ⟨index, hmem, rfl⟩ := mem_map.mp hk
    obtain ⟨hpos, hlt, -⟩ := hindex index hmem
    exact mem_range.mpr (by omega)
  refine ⟨p, envelope, cs, indices, principals, rfl, henvelope, rfl, ?_, hprincipals,
    fun index hmem => (hindex index hmem).1, ?_, ?_⟩
  · unfold SignaturePolicyEnvelope.getNOutOf at hrule
    split at hrule
    next n' rules' heq =>
      cases hrule
      rw [heq, ← hn]
    next => cases hrule
  · exact (subperm_of_subset hnodup hsub).perm_of_length_le (by simpa using hlen.ge)
  · have hexpected := perm_expectedIdentities L cs [] (by simpa using hcs)
    simpa using hperm.trans hexpected

/-! ## The quorum -/

section Quorum

variable {S : Set Bytes} [DecidablePred (· ∈ S)]

theorem countSatisfied_signedBy (identities) (indices : List Int32) :
    countSatisfied identities S (indices.map fun index => some (.signedBy index)) =
      indices.countP (signedByIndex identities S) := by
  induction indices with
  | nil => rfl
  | cons index indices ih =>
    rw [map_cons, countSatisfied, SignaturePolicy.satisfiedBy, ih, countP_cons, Nat.add_comm]

theorem signedByIndex_map (principals : List Bytes) {index} (h : 0 ≤ index.toInt) :
    signedByIndex (principals.map fun p => some ⟨true, p⟩) S index = principals[index.toInt.toNat]?.any (· ∈ S) := by
  unfold signedByIndex
  rw [getElem?_map]
  cases principals[index.toInt.toNat]? <;> simp [h]

theorem countP_range_any {α : Type} (p : α → Bool) (l : List α) :
    (range l.length).countP (fun k => l[k]?.any p) = l.countP p := by
  induction l with
  | nil => rfl
  | cons a l ih =>
    rw [length_cons, range_succ_eq_map, countP_cons, countP_map, countP_cons, ← ih]
    simp [comp_def]

variable {principals : List Bytes} {indices : List Int32}

/-- Rules that name each entry once are satisfied as often as an entry is a signer. -/
theorem countSatisfied_eq (hpos : ∀ index ∈ indices, 0 ≤ index.toInt)
    (hperm : (indices.map fun index => index.toInt.toNat).Perm (range principals.length)) :
    countSatisfied (principals.map fun p => some ⟨true, p⟩) S (indices.map fun index => some (.signedBy index)) =
      principals.countP (· ∈ S) := by
  calc countSatisfied (principals.map fun p => some ⟨true, p⟩) S (indices.map fun index => some (.signedBy index))
      = indices.countP fun index => principals[index.toInt.toNat]?.any (· ∈ S) := by
        rw [countSatisfied_signedBy]
        exact countP_congr fun index hindex => by rw [signedByIndex_map principals (hpos index hindex)]
    _ = (indices.map fun index => index.toInt.toNat).countP fun k => principals[k]?.any (· ∈ S) := by
        rw [countP_map]
        rfl
    _ = (range principals.length).countP fun k => principals[k]?.any (· ∈ S) := hperm.countP_eq _
    _ = principals.countP (· ∈ S) := countP_range_any _ _

/-- Rules that name distinct entries are not more than there are indices, so that the quorum is not cut off. -/
theorem toInt_quorum {n} (hperm : (indices.map fun index => index.toInt.toNat).Perm (range n)) :
    (Int32.ofNat (computeBFTQuorum n ((n - 1) / 3))).toInt = computeBFTQuorum n ((n - 1) / 3) := by
  have hn : n ≤ 2 ^ 31 := by
    by_contra hlarge
    obtain ⟨index, -, hindex⟩ := mem_map.mp (hperm.mem_iff.mpr (mem_range.mpr (Nat.lt_of_not_le hlarge)))
    have hlt := Int32.toInt_lt index
    omega
  exact Int32.toInt_ofNat_of_lt (by unfold computeBFTQuorum; omega)

theorem QuorumPolicy.satisfiedBy_iff {L envelope cs} (h : QuorumPolicy L envelope cs indices principals) :
    envelope.satisfiedBy S ↔
      computeBFTQuorum cs.length ((cs.length - 1) / 3) ≤ cs.countP fun c => c.policyIdentity L ∈ S := by
  have hlen : principals.length = cs.length := by simpa using h.principals_perm.length_eq
  have hcount := countSatisfied_eq (S := S) h.index_nonneg (hlen ▸ h.indices_perm)
  rw [SignaturePolicyEnvelope.satisfiedBy, h.rule, h.identities]
  simp only [SignaturePolicy.satisfiedBy, hcount, toInt_quorum h.indices_perm, h.principals_perm.countP_eq,
    countP_map, decide_eq_true_eq, Nat.cast_le]
  rfl

end Quorum

/-- **An accepted block validation policy is the BFT quorum policy**: a set of signers satisfies it iff a quorum of the
consenters is among them. -/
theorem accepted_policy_is_bft_quorum {L : Libraries} {policy : Option ConfigPolicy}
    {consenters : List (Option Consenter)} (h : validateBlockValidationPolicy L policy consenters = .ok ())
    (hdistinct : (consenters.filterMap (Option.map (Consenter.policyIdentity L))).Nodup) :
    ∃ p envelope, policy = some ⟨some p⟩ ∧ L.unmarshalSignaturePolicy p.value = .ok envelope ∧
      ∀ (S : Set Bytes) [DecidablePred (· ∈ S)], envelope.satisfiedBy S ↔
          computeBFTQuorum consenters.length ((consenters.length - 1) / 3) ≤
            (consenters.filterMap (Option.map (Consenter.policyIdentity L))).countP (· ∈ S) := by
  obtain ⟨p, envelope, cs, indices, principals, hp, henvelope, rfl, hquorum⟩ := quorumPolicy_of_valid h hdistinct
  refine ⟨p, envelope, hp, henvelope, fun S _ => ?_⟩
  rw [hquorum.satisfiedBy_iff, length_map, filterMap_map]
  simp only [comp_def, Option.map_some, filterMap_eq_map', countP_map]

/-- Four parties, of which three are a quorum. -/
def fourParties : List PartyConfig := [refParty 1 [1], refParty 2 [1], refParty 3 [1], refParty 4 [1]]

theorem accepted_policy_of_four :
    validateBlockValidationPolicy (refLibraries [(fourParties, 4)]) (refBundle [0] fourParties).blockValidationPolicy
      (refOrderer [0] fourParties).consenters = .ok () ∧ ((refOrderer [0] fourParties).consenters.filterMap
      (Option.map (Consenter.policyIdentity (refLibraries [(fourParties, 4)])))).Nodup ∧
    ∃ envelope, (refLibraries [(fourParties, 4)]).unmarshalSignaturePolicy [0] = .ok envelope ∧
      envelope.satisfiedBy {id | id ≠ [2, 4]} ∧ ¬ envelope.satisfiedBy {id | id = [2, 1]} := by
  have haccepted : validateBlockValidationPolicy (refLibraries [(fourParties, 4)])
      (refBundle [0] fourParties).blockValidationPolicy (refOrderer [0] fourParties).consenters = .ok () := rfl
  have hnodup : ((refOrderer [0] fourParties).consenters.filterMap
      (Option.map (Consenter.policyIdentity (refLibraries [(fourParties, 4)])))).Nodup := by decide
  obtain ⟨p, envelope, hp, henvelope, hquorum⟩ := accepted_policy_is_bft_quorum haccepted hnodup
  obtain rfl : ⟨policySignature, [0]⟩ = p := by
    injection hp with hp
    injection hp with hp
    injection hp
  refine ⟨haccepted, hnodup, envelope, henvelope, (hquorum _).mpr (by decide), fun h => ?_⟩
  exact absurd ((hquorum _).mp h) (by decide)

end Arma.Verify
