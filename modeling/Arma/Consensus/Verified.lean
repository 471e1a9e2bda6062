import Arma.Consensus.Reference

/-!
# Only verified events count

Two functions of two packages decide by the config sequence of an event. `verifyProposalRequests` decides whether
the event is verified (`isVerified`), and `filterCEsWithDiffConfigSeq` whether `Process` keeps it, reports it as
stale, or drops it (`filterCE`). The first lets a fragment pass unverified if it is ahead, and every other event if
it is of another sequence; a config request counts with the sequence before its own, and one of sequence 0 with 0.

* `isVerifiedEvent_of_filterCE`: what is not dropped is verified, as long as the config sequence has a successor.
* `State.process_congr`: a round reads nothing of its events but what the filter gives it.
* **`verified_events_decide`**: a payload that passes has the same effect without the events that were not verified.
-/

namespace Arma

open Arma.Lib Outcome List Consensus ControlEvent

variable {ce : ControlEvent}

namespace Consensus

variable (W : Wire) (verificationSeq : ConfigSequence)

/-- The condition in the loop of `verifyProposalRequests` under which an event is verified. -/
def isVerifiedEvent (ce : ControlEvent) : Bool :=
  match eventConfigSeq W ce with
  | .ok (configSeq, isBAF) => configSeq = verificationSeq ∨ (isBAF ∧ configSeq < verificationSeq)
  | .error _ => false

/-- Whether `verifyProposalRequests` hands a request to `verifyProposalCE`. -/
def isVerified (req : Bytes) : Bool :=
  match fromBytes W req with
  | .ok ce => isVerifiedEvent W verificationSeq ce
  | .error _ => false

variable {W verificationSeq}

theorem isVerifiedEvent_eq_true : isVerifiedEvent W verificationSeq ce = true ↔ ∃ configSeq isBAF,
      eventConfigSeq W ce = .ok (configSeq, isBAF) ∧ AffectsState verificationSeq configSeq isBAF := by
  unfold isVerifiedEvent
  cases eventConfigSeq W ce with
  | error e => simp
  | ok r =>
    obtain ⟨configSeq, isBAF⟩ := r
    simp only [decide_eq_true_eq]
    constructor
    · exact fun h => ⟨configSeq, isBAF, rfl, h⟩
    · rintro ⟨configSeq', isBAF', heq, h⟩
      obtain ⟨rfl, rfl⟩ := Prod.mk.inj (Except.ok.inj heq)
      exact h

theorem isVerified_of_fromBytes {req} (h : fromBytes W req = .ok ce) :
    isVerified W verificationSeq req = isVerifiedEvent W verificationSeq ce := by
  simp [isVerified, h]

/-- **What `Process` does not drop is verified**, if the config sequence is not the last one: a config request of
the sequence after the last one is of sequence 0. -/
theorem isVerifiedEvent_of_filterCE (hseq : verificationSeq + 1 ≠ 0)
    (h : filterCE W verificationSeq ce ≠ .drop) : isVerifiedEvent W verificationSeq ce = true := by
  rw [isVerifiedEvent_eq_true]
  cases ce with
  | baf b =>
    refine ⟨_, _, rfl, ?_⟩
    by_cases heq : b.configSequence = verificationSeq
    · exact .inl heq
    · by_cases hlt : b.configSequence < verificationSeq
      · exact .inr ⟨rfl, hlt⟩
      · simp [filterCE, heq, hlt] at h
  | complaint | assemblerReport =>
    refine ⟨_, _, rfl, .inl ?_⟩
    by_contra hne
    simp [filterCE, hne] at h
  | configRequest r =>
    cases hr : r.configSequence W with
    | error e => simp [filterCE, hr] at h
    | ok reqConfigSeq =>
      obtain rfl : reqConfigSeq = verificationSeq + 1 := by
        by_contra hne
        simp [filterCE, hr, hne] at h
      refine ⟨verificationSeq, false, ?_, .inl rfl⟩
      simp [eventConfigSeq, hr, hseq]

variable {L : ConfigLib W} {c : Consensus} {proposalNum : DecisionNum} {requests : BatchedRequests}
  {reqInfos : List RequestInfo}

/-- A request of a payload that passes decodes, and passes `verifyProposalCE` if it was handed to it. -/
theorem verifyControlEvent_of_isVerified
    (hpass : c.verifyProposalRequests L requests verificationSeq proposalNum = .ok reqInfos) {req}
    (hreq : req ∈ requests) : ∃ ce, fromBytes W req = .ok ce ∧ (isVerified W verificationSeq req = true →
        c.verifyControlEvent L req proposalNum = .ok (requestID W req, ce)) := by
  obtain ⟨-, hall⟩ := verifyProposalRequests_eq_ok.mp hpass
  obtain ⟨ce, configSeq, isBAF, hce, hseq, hverify⟩ := hall req hreq
  refine ⟨ce, hce, fun hv => ?_⟩
  rw [isVerified_of_fromBytes hce] at hv
  obtain ⟨configSeq', isBAF', hseq', haffects⟩ := isVerifiedEvent_eq_true.mp hv
  obtain ⟨rfl, rfl⟩ := Prod.mk.inj (Except.ok.inj (hseq.symm.trans hseq'))
  simp [verifyControlEvent, hce, hverify haffects]

end Consensus

/-! ## What a round reads of its events -/

section Filter

variable {W : Wire} {configSeq : ConfigSequence} {ces ces' : List ControlEvent} {s : State}

theorem State.process_congr
    (h : filterCEsWithDiffConfigSeq W configSeq ces = filterCEsWithDiffConfigSeq W configSeq ces') :
    s.process W configSeq ces = s.process W configSeq ces' := by
  unfold State.process State.collected
  rw [h]

theorem filterCEsWithDiffConfigSeq_filter {p} (h : ∀ ce, p ce = false → filterCE W configSeq ce = .drop) :
    filterCEsWithDiffConfigSeq W configSeq (ces.filter p) = filterCEsWithDiffConfigSeq W configSeq ces := by
  refine Prod.ext ?_ ?_
  · unfold filterCEsWithDiffConfigSeq
    rw [filter_filter]
    refine filter_congr fun ce _ => ?_
    by_cases hp : p ce = true
    · simp [hp]
    · have hdrop := h ce (by simpa using hp)
      simp [hdrop]
  · unfold filterCEsWithDiffConfigSeq
    rw [filterMap_filter]
    refine filterMap_congr fun ce _ => ?_
    by_cases hp : p ce = true
    · simp [hp]
    · have hdrop := h ce (by simpa using hp)
      simp [hdrop]

theorem pruneKnown_filter (badb : List Bytes) (p) :
    pruneKnown badb (ces.filter p) = (pruneKnown badb ces).filter p := filter_comm _ _ _

end Filter

/-! ## The theorem -/

section Verified

variable {W : Wire} {L : ConfigLib W} {c : Consensus} {configSeq : ConfigSequence} {proposalNum : DecisionNum}
  {requests : BatchedRequests} {reqInfos : List RequestInfo} {ces : List ControlEvent}

theorem mem_filterCEs_fst (h : ce ∈ (filterCEsWithDiffConfigSeq W configSeq ces).1) :
    filterCE W configSeq ce ≠ .drop := by
  have hkeep : filterCE W configSeq ce = .keep := by simpa using (mem_filter.mp h).2
  simp [hkeep]

theorem mem_filterCEs_snd {b} (h : b ∈ (filterCEsWithDiffConfigSeq W configSeq ces).2) :
    filterCE W configSeq (.baf b) ≠ .drop := by
  obtain ⟨ce, -, hce⟩ := mem_filterMap.mp h
  split at hce
  · rename_i b' hstale
    obtain rfl := Option.some.inj hce
    -- only a fragment is reported as stale, and it is the event's own
    obtain rfl : ce = .baf b' := by
      cases ce <;> simp only [filterCE] at hstale <;> grind
    simp [hstale]
  · cases hce

/-- **Only verified events influence a decision**: of a payload that passes, every event that
`filterCEsWithDiffConfigSeq` keeps or reports as stale was verified; and the requests that were verified have the
effect of the whole payload, from every state and with every BADB. -/
theorem verified_events_decide (hseq : configSeq.toNat < 2 ^ 64 - 1)
    (hpass : c.verifyProposalRequests L requests configSeq proposalNum = .ok reqInfos) :
    ∃ ces, requestsToControlEvents W requests = .ok ces ∧
      (∀ req ∈ requests, ∀ ce, ControlEvent.fromBytes W req = .ok ce →
        ce ∈ (filterCEsWithDiffConfigSeq W configSeq ces).1 ∨
          (∃ b ∈ (filterCEsWithDiffConfigSeq W configSeq ces).2, ce = .baf b) →
        Consensus.isVerified W configSeq req = true ∧
          c.verifyControlEvent L req proposalNum = .ok (requestID W req, ce)) ∧
      ∀ badb s, simulateStateTransition W badb s configSeq (requests.filter (Consensus.isVerified W configSeq)) =
        simulateStateTransition W badb s configSeq requests := by
  have hnext : configSeq + 1 ≠ 0 := by
    intro hzero
    have hnat := congrArg UInt64.toNat hzero
    rw [UInt64.toNat_add, UInt64.toNat_one, UInt64.toNat_zero] at hnat
    omega
  have hdropped : ∀ ce, isVerifiedEvent W configSeq ce = false → filterCE W configSeq ce = .drop := by
    intro ce hce
    by_contra hne
    rw [isVerifiedEvent_of_filterCE hnext hne] at hce
    cases hce
  obtain ⟨ces, hces⟩ : ∃ ces, requestsToControlEvents W requests = .ok ces :=
    exists_mapEach_eq_ok (fun req hreq => by
      obtain ⟨ce, hce, -⟩ := verifyControlEvent_of_isVerified hpass hreq
      exact ⟨ce, hce⟩) 0
  refine ⟨ces, hces, fun req hreq ce hce hcounts => ?_, fun badb s => ?_⟩
  · have hne : filterCE W configSeq ce ≠ .drop := by
      rcases hcounts with hkept | ⟨b, hstale, rfl⟩
      · exact mem_filterCEs_fst hkept
      · exact mem_filterCEs_snd hstale
    have hv : isVerified W configSeq req = true := by
      rw [isVerified_of_fromBytes hce]
      exact isVerifiedEvent_of_filterCE hnext hne
    obtain ⟨ce', hce', hverify⟩ := verifyControlEvent_of_isVerified hpass hreq
    cases hce.symm.trans hce'
    exact ⟨hv, hverify hv⟩
  · have hfiltered : requestsToControlEvents W (requests.filter (isVerified W configSeq)) =
        .ok (ces.filter (isVerifiedEvent W configSeq)) := by
      rw [requestsToControlEvents_eq_ok] at hces ⊢
      refine rel_filter (fun req ce hce => ?_) hces
      change isVerified W configSeq req = true ↔ isVerifiedEvent W configSeq ce = true
      rw [isVerified_of_fromBytes hce]
    have hprocess : s.process W configSeq (pruneKnown badb (ces.filter (isVerifiedEvent W configSeq))) =
        s.process W configSeq (pruneKnown badb ces) := by
      rw [pruneKnown_filter]
      exact State.process_congr (filterCEsWithDiffConfigSeq_filter hdropped)
    simp only [simulateStateTransition, hfiltered, hces, orPanic_ok, ok_bind, hprocess]

def aheadFragment : BAF := { firstBatchBy 1 with configSequence := 1 }

/-- A fragment that is ahead passes unverified, and the first round is as it would be without it. -/
theorem verified_events_decide_genesisNode : simulateStateTransition refWire [] soleNode.state 0
        (fragmentRequests refWire [firstBatchBy 1]) =
      simulateStateTransition refWire [] soleNode.state 0
        (fragmentRequests refWire [firstBatchBy 1, aheadFragment]) := by
  have hread : ∀ b : BAF, fromBytes refWire ((baf b).bytes refWire) = .ok (.baf b) :=
    fun b => fromBytes_bytes refWire trivial
  obtain ⟨reqInfos, hpass⟩ : ∃ reqInfos, soleNode.verifyProposalRequests
      soleLib (fragmentRequests refWire [firstBatchBy 1, aheadFragment]) 0 1 = .ok reqInfos := by
    refine ⟨_, verifyProposalRequests_eq_ok.mpr ⟨rfl, fun req hreq => ?_⟩⟩
    obtain ⟨b, hb, rfl⟩ := mem_map.mp hreq
    refine ⟨.baf b, b.configSequence, true, hread b, rfl, fun haffects => ?_⟩
    rcases mem_pair.mp hb with rfl | rfl
    · exact verifyEvent_permissive _ 1 rfl rfl (by decide)
    · exact absurd haffects (by unfold Consensus.AffectsState; decide)
  have hverified : ∀ b, isVerified refWire 0 ((baf b).bytes refWire) =
      decide (b.configSequence = 0 ∨ (true ∧ b.configSequence < 0)) :=
    fun b => isVerified_of_fromBytes (hread b)
  have hfilter : (fragmentRequests refWire [firstBatchBy 1, aheadFragment]).filter
      (isVerified refWire 0) = fragmentRequests refWire [firstBatchBy 1] := by
    rw [fragmentRequests, filter_map, Function.comp_def]
    simp only [hverified]
    rfl
  obtain ⟨-, -, -, hsame⟩ := verified_events_decide (by decide) hpass
  rw [← hsame, hfilter]

end Verified

end Arma
