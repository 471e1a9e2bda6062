import Arma.Consensus.Once

/-!
# The terms along the decisions

A round raises terms and lowers none, and so does a config change; both keep the list of shards. So along the
decisions of a run the terms only grow: `Ordering.pairwise_termsLe`.
-/

namespace Arma

open Arma.Lib List

/-- The shards are the same, and no term is lower. -/
def State.TermsLe (s s' : State) : Prop :=
  Forall₂ (fun st st' : ShardTerm => st'.shard = st.shard ∧ st.term ≤ st'.term) s.shards s'.shards

namespace State

variable {W : Wire} {L : ConfigLib W} {s s' s'' : State}

theorem TermsLe.of_shards_eq (h : s'.shards = s.shards) : s.TermsLe s' := by
  rw [TermsLe, h, forall₂_same]
  exact fun st _ => ⟨rfl, le_rfl⟩

theorem TermsLe.trans (h : s.TermsLe s') (h' : s'.TermsLe s'') : s.TermsLe s'' := by
  unfold TermsLe at *
  generalize s.shards = l, s'.shards = l', s''.shards = l'' at h h'
  induction h generalizing l'' with
  | nil =>
    cases h'
    exact .nil
  | cons hst _ ih =>
    cases h' with
    | cons hst' hrest => exact .cons ⟨hst'.1.trans hst.1, hst.2.trans hst'.2⟩ (ih _ hrest)

theorem TermsLe.of_map {f} (h : s'.shards = s.shards.map f)
    (hf : ∀ st, (f st).shard = st.shard ∧ st.term ≤ (f st).term) : s.TermsLe s' := by
  rw [TermsLe, h, forall₂_map_right_iff, forall₂_same]
  exact fun st _ => hf st

variable {configRequests : List ConfigRequest}

theorem Sound.process_termsLe (h : s.Sound) {configSeq ces extracted}
    (hp : s.process W configSeq ces = .ok (s', extracted, configRequests)) : s.TermsLe s' := by
  obtain ⟨raised, hround⟩ := h.rounded hp
  refine .of_map hround.shards fun st => ?_
  by_cases hr : st.shard ∈ raised <;> simp [hr]

theorem termsLe_applyConfigRequests (happly : applyConfigRequests L s configRequests = .ok s') : s.TermsLe s' := by
  cases configRequests with
  | nil =>
    cases happly
    exact .of_shards_eq rfl
  | cons configRequest rest =>
    simp only [applyConfigRequests, applyConfigToState, Outcome.bind_eq_ok] at happly
    obtain ⟨sharedConfig, -, hret⟩ := happly
    cases hret
    by_cases hn : UInt16.ofNat sharedConfig.parties.length = s.n
    · exact .of_shards_eq (by simp [retainAssemblerHeights, hn])
    · refine .of_map (f := ShardTerm.next) (by simp [retainAssemblerHeights, hn]) fun st => ?_
      exact ⟨rfl, Nat.le_succ _⟩

end State

section Ordering

variable {W : Wire} {L : ConfigLib W} {past : List Header} {c : Consensus}

theorem Consensus.Computes.termsLe {requests r} (hc : c.state.Sound)
    (h : c.Computes L requests r) (num : DecisionNum) : c.state.TermsLe (r.nextState W c num) := by
  obtain ⟨s, attestations, hsim, happly, -, -⟩ := h
  obtain ⟨ces, extracted, -, hp, -⟩ := simulateStateTransition_eq_ok.mp hsim
  refine ((hc.process_termsLe hp).trans (State.termsLe_applyConfigRequests happly)).trans ?_
  rw [Computed.nextState]
  cases (r.plan W c num).getLast?.map (·.header) <;> exact .of_shards_eq rfl

/-- **The terms only grow** along the decisions of a run. -/
theorem Ordering.pairwise_termsLe (h : Ordering L past c) :
    past.Pairwise (fun hdr hdr' => ∀ s s', hdr.state = some s → hdr'.state = some s' → s.TermsLe s') ∧
    ∀ hdr ∈ past, ∀ s, hdr.state = some s → s.TermsLe c.state := by
  obtain ⟨genesisBlock, log, hrun, rfl⟩ := h
  refine hrun.rule (fun _ _ => by simp) fun {log c c' p requests r num _ _} hinv _ _ hr hhdr hdeliver ih => ?_
  have hd := Consensus.delivered_of_deliver hhdr rfl hdeliver
  have hnext := hr.termsLe hinv.wellFormed.sound num
  rw [map_append]
  refine ⟨pairwise_append.mpr ⟨ih.1, pairwise_singleton _ _, ?_⟩, ?_⟩
  · intro hdr hmem hdr' hmem' s s' hs hs'
    obtain rfl := mem_singleton.mp hmem'
    cases hs'
    exact (ih.2 hdr hmem s hs).trans hnext
  · intro hdr hmem s hs
    rw [hd.state]
    rcases mem_append.mp hmem with hmem | hmem
    · exact (ih.2 hdr hmem s hs).trans hnext
    · obtain rfl := mem_singleton.mp hmem
      cases hs
      exact .of_shards_eq rfl

/-- Two decisions, and the state after them. -/
theorem termsLe_two : ∃ hdr hdr' c, Ordering soleLib [hdr, hdr'] c ∧
    (∀ s s', hdr.state = some s → hdr'.state = some s' → s.TermsLe s') ∧
    ∀ s, hdr.state = some s → s.TermsLe c.state := by
  obtain ⟨r, r', c, c', hrun, -⟩ := record_two 1 1
  have hordering : Ordering soleLib [_, _] c' := ⟨_, _, hrun, rfl⟩
  obtain ⟨hpairs, hlast⟩ := Ordering.pairwise_termsLe hordering
  exact ⟨_, _, c', hordering, rel_of_pairwise_cons hpairs mem_cons_self, hlast _ mem_cons_self⟩

end Ordering

end Arma
