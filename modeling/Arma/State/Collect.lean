import Arma.State.Process

/-!
# What a round collects

The first half of `State.Process` filters by config sequence and takes in the round's fragments and
complaints. `collected_pending` gives the pending fragments after it exactly: those already pending at
the current config sequence, then the incoming ones (`incoming`) of a known shard whose attestation key
was not pending before the round. The keys of the incoming fragments are compared with the old ones
only, not with each other.

Complaints are deduplicated against each other as well: `collected_complaints_nodup` carries "one
complaint per shard, term and signer" across the round, and `mem_collected_complaints` says where a
complaint comes from. Everything else is left alone (`collected_shards`, `collected_threshold`,
`collected_n`).
-/

namespace Arma

open Arma.Lib List

def complaintKeyOf (c : Complaint) : ShardTerm × PartyID := (c.shardTerm, c.signer)

/-- The fragments of the current config sequence among the events of a round. -/
def incoming (configSeq : ConfigSequence) (ces : List ControlEvent) : List BAF :=
  (ces.filterMap ControlEvent.baf?).filter (·.configSequence = configSeq)

/-- The complaints of the current config sequence among the events of a round. -/
def incomingComplaints (configSeq : ConfigSequence) (ces : List ControlEvent) : List Complaint :=
  (ces.filterMap ControlEvent.complaint?).filter (·.configSeq = configSeq)

/-- The incoming fragments survive the config-sequence filter, in their order. -/
theorem filterMap_baf_filterCEs (W : Wire) (configSeq : ConfigSequence) (ces) :
    (filterCEsWithDiffConfigSeq W configSeq ces).1.filterMap ControlEvent.baf? = incoming configSeq ces := by
  unfold filterCEsWithDiffConfigSeq incoming
  rw [filterMap_filter, filter_filterMap]
  congr 1
  funext ce
  cases ce with
  | baf b =>
    by_cases h : b.configSequence = configSeq
    · simp [filterCE, h, Option.filter_some]
    · have hdrop : filterCE W configSeq (.baf b) ≠ .keep := by
        simp only [filterCE, if_neg h]
        split <;> simp
      simp [hdrop, h, Option.filter_some]
  | complaint | configRequest | assemblerReport => simp

/-- The incoming complaints survive the config-sequence filter, in their order. -/
theorem filterMap_complaint_filterCEs (W : Wire) (configSeq : ConfigSequence) (ces) :
    (filterCEsWithDiffConfigSeq W configSeq ces).1.filterMap ControlEvent.complaint? =
      incomingComplaints configSeq ces := by
  unfold filterCEsWithDiffConfigSeq incomingComplaints
  rw [filterMap_filter, filter_filterMap]
  congr 1
  funext ce
  cases ce with
  | complaint c => by_cases h : c.configSeq = configSeq <;> simp [filterCE, h, Option.filter_some]
  | baf | configRequest | assemblerReport => simp

namespace State

/-! ## The loop of `CollectAndDeduplicateEvents` -/

/-- A fragment of a known shard whose attestation key is not among `keys`. -/
def Fresh (shards : List ShardTerm) (keys : List AttestationKey) (b : BAF) : Prop :=
  (termOf shards b.shard).isSome ∧ attestationKeyOf b ∉ keys

instance (shards : List ShardTerm) (keys : List AttestationKey) (b : BAF) :
    Decidable (Fresh shards keys b) := inferInstanceAs (Decidable (_ ∧ _))

section

variable (keys : List AttestationKey)
include keys

/-- One round of the loop, field by field: it appends a fresh fragment, or a complaint of a known
shard and term by a new signer, or does nothing. -/
theorem collectEvent_cases (acc) (ce : ControlEvent) : (∃ b, ce = .baf b ∧ Fresh acc.1.shards keys b ∧
      collectEvent keys acc ce = ({ acc.1 with pending := acc.1.pending ++ [b] }, acc.2)) ∨
    (∃ c, ce = .complaint c ∧ c.shardTerm ∈ acc.1.shards ∧ complaintKeyOf c ∉ acc.2 ∧ collectEvent keys acc ce =
        ({ acc.1 with complaints := acc.1.complaints ++ [c] }, acc.2 ++ [complaintKeyOf c])) ∨
    (collectEvent keys acc ce = acc ∧ (∀ b, ce = .baf b → ¬ Fresh acc.1.shards keys b) ∧
      ∀ c, ce = .complaint c → c.shardTerm ∈ acc.1.shards → complaintKeyOf c ∈ acc.2) := by
  cases ce with
  | baf b =>
    by_cases hnone : (termOf acc.1.shards b.shard).isNone
    · refine Or.inr (Or.inr ⟨by simp [collectEvent, hnone], ?_, nofun⟩)
      rintro _ ⟨⟩ ⟨hsome, -⟩
      simp [Option.isNone_iff_eq_none.mp hnone] at hsome
    · have hsome : (termOf acc.1.shards b.shard).isSome := by
        simpa [Option.isSome_iff_ne_none] using hnone
      by_cases hkey : attestationKeyOf b ∈ keys
      · refine Or.inr (Or.inr ⟨by simp [collectEvent, hkey], ?_, nofun⟩)
        rintro _ ⟨⟩ ⟨-, hnot⟩
        exact hnot hkey
      · exact Or.inl ⟨b, rfl, ⟨hsome, hkey⟩, by simp [collectEvent, hnone, hkey]⟩
  | complaint c =>
    by_cases hshard : c.shardTerm ∈ acc.1.shards
    · by_cases hkey : (c.shardTerm, c.signer) ∈ acc.2
      · refine Or.inr (Or.inr ⟨by simp [collectEvent, hkey], nofun, ?_⟩)
        rintro _ ⟨⟩ _
        exact hkey
      · exact Or.inr (Or.inl ⟨c, rfl, hshard, hkey, by simp [collectEvent, hshard, hkey, complaintKeyOf]⟩)
    · refine Or.inr (Or.inr ⟨by simp [collectEvent, hshard], nofun, ?_⟩)
      rintro _ ⟨⟩ hknown
      exact absurd hknown hshard
  | configRequest | assemblerReport => exact Or.inr (Or.inr ⟨rfl, nofun, nofun⟩)

section

variable (ces : List ControlEvent) (acc : State × List (ShardTerm × PartyID))
include ces acc

theorem foldl_collectEvent_frame : (ces.foldl (collectEvent keys) acc).1 =
      { acc.1 with
        pending := (ces.foldl (collectEvent keys) acc).1.pending
        complaints := (ces.foldl (collectEvent keys) acc).1.complaints } := by
  induction ces generalizing acc with
  | nil => rfl
  | cons ce ces ih =>
    rw [foldl_cons, ih]
    obtain ⟨b, -, -, h⟩ | ⟨c, -, -, -, h⟩ | ⟨h, -⟩ := collectEvent_cases keys acc ce <;> rw [h]

theorem foldl_collectEvent_pending : (ces.foldl (collectEvent keys) acc).1.pending =
      acc.1.pending ++ (ces.filterMap ControlEvent.baf?).filter (Fresh acc.1.shards keys ·) := by
  induction ces generalizing acc with
  | nil => simp
  | cons ce ces ih =>
    rw [foldl_cons, ih]
    obtain ⟨b, rfl, hf, h⟩ | ⟨c, rfl, -, -, h⟩ | ⟨h, hf, -⟩ := collectEvent_cases keys acc ce
    · rw [h]
      simp [hf]
    · rw [h]
      simp [filterMap_cons]
    · rw [h]
      cases ce with
      | baf b => simp [hf b rfl]
      | complaint | configRequest | assemblerReport => simp [filterMap_cons]

/-- What the loop keeps true of the complaints: their keys are the ones recorded, no two alike, and
a new one is an incoming complaint about a known shard and term. -/
theorem foldl_collectEvent_complaints (hkeys : acc.2 = acc.1.complaints.map complaintKeyOf) (hnodup : acc.2.Nodup) :
    let r := ces.foldl (collectEvent keys) acc
    (r.1.complaints.map complaintKeyOf).Nodup ∧ ∀ c ∈ r.1.complaints, c ∈ acc.1.complaints ∨
        (c ∈ ces.filterMap ControlEvent.complaint? ∧ c.shardTerm ∈ acc.1.shards) := by
  induction ces generalizing acc with
  | nil => exact ⟨hkeys ▸ hnodup, fun c hc => Or.inl hc⟩
  | cons ce ces ih =>
    rw [foldl_cons]
    obtain ⟨b, rfl, -, h⟩ | ⟨c, rfl, hshard, hnew, h⟩ | ⟨h, -⟩ := collectEvent_cases keys acc ce
    · rw [h]
      exact ih _ hkeys hnodup
    · rw [h]
      have hnodup' : (acc.2 ++ [complaintKeyOf c]).Nodup := by
        refine nodup_append.mpr ⟨hnodup, by simp, ?_⟩
        rintro x hx y hy rfl
        obtain rfl := mem_singleton.mp hy
        exact hnew hx
      obtain ⟨hr, hmem⟩ := ih ({ acc.1 with complaints := acc.1.complaints ++ [c] },
        acc.2 ++ [complaintKeyOf c]) (by simp [hkeys]) hnodup'
      refine ⟨hr, fun x hx => ?_⟩
      rcases hmem x hx with hx | ⟨hx, hs⟩
      · rcases mem_append.mp hx with hx | hx
        · exact Or.inl hx
        · obtain rfl := mem_singleton.mp hx
          exact Or.inr ⟨by simp, hshard⟩
      · refine Or.inr ⟨?_, hs⟩
        exact mem_cons_of_mem c hx
    · rw [h]
      obtain ⟨hr, hmem⟩ := ih acc hkeys hnodup
      refine ⟨hr, fun x hx => (hmem x hx).imp_right fun hin => ⟨?_, hin.2⟩⟩
      rw [filterMap_cons]
      split
      · exact hin.1
      · exact mem_cons_of_mem _ hin.1

end

/-- One round of the loop records the key of a complaint about a known shard and term. -/
theorem collectEvent_keys (acc) (ce : ControlEvent) (hkeys : acc.2 = acc.1.complaints.map complaintKeyOf) :
    (collectEvent keys acc ce).2 = (collectEvent keys acc ce).1.complaints.map complaintKeyOf ∧
      (collectEvent keys acc ce).1.shards = acc.1.shards ∧ ∀ key, key ∈ (collectEvent keys acc ce).2 ↔ key ∈ acc.2 ∨
        ∃ c, ce = .complaint c ∧ complaintKeyOf c = key ∧ c.shardTerm ∈ acc.1.shards := by
  obtain ⟨b, rfl, -, h⟩ | ⟨c, rfl, hshard, -, h⟩ | ⟨h, -, hold⟩ := collectEvent_cases keys acc ce <;> rw [h]
  · exact ⟨hkeys, rfl, by simp⟩
  · exact ⟨by simp [hkeys], rfl, by simp [hshard, eq_comm]⟩
  · refine ⟨hkeys, rfl, fun key => ⟨.inl, ?_⟩⟩
    rintro (h | ⟨c, rfl, rfl, hshard⟩)
    · exact h
    · exact hold c rfl hshard

/-- The keys of the complaints after the loop: those recorded before, and those of the incoming complaints about a
known shard and term. -/
theorem mem_foldl_collectEvent_keys (ces : List ControlEvent)
    (acc) (hkeys : acc.2 = acc.1.complaints.map complaintKeyOf)
    (key) :
    key ∈ (ces.foldl (collectEvent keys) acc).1.complaints.map complaintKeyOf ↔ key ∈ acc.2 ∨
      ∃ c ∈ ces.filterMap ControlEvent.complaint?, complaintKeyOf c = key ∧ c.shardTerm ∈ acc.1.shards := by
  induction ces generalizing acc with
  | nil => simp [hkeys]
  | cons ce ces ih =>
    obtain ⟨hkeys', hshards, hmem⟩ := collectEvent_keys keys acc ce hkeys
    rw [foldl_cons, ih _ hkeys', hmem, hshards, or_assoc]
    refine or_congr_right ?_
    cases ce with
    | complaint => simp
    | baf | configRequest | assemblerReport => simp [filterMap_cons]

end

/-! ## The collected state -/

variable (W : Wire) (configSeq : ConfigSequence) (ces : List ControlEvent) (s : State)

/-- The collected state differs from the state before in what is collected only. -/
theorem collected_frame : s.collected W configSeq ces =
      { s with
        staleConfigBAFs := (s.collected W configSeq ces).staleConfigBAFs
        pending := (s.collected W configSeq ces).pending
        complaints := (s.collected W configSeq ces).complaints
        assemblerHeights := (s.collected W configSeq ces).assemblerHeights } := by
  unfold collected collectAssemblerReports collectAndDeduplicateEvents
  simp only
  rw [foldl_collectEvent_frame]
  rfl

@[simp] theorem collected_shards : (s.collected W configSeq ces).shards = s.shards := by
  rw [collected_frame]

@[simp] theorem collected_threshold : (s.collected W configSeq ces).threshold = s.threshold := by
  rw [collected_frame]

@[simp] theorem collected_n : (s.collected W configSeq ces).n = s.n := by
  rw [collected_frame]

/-- **The pending fragments of a round**: the old ones of the config sequence, then the fresh incoming
ones. -/
theorem collected_pending : (s.collected W configSeq ces).pending = s.pending.filter (·.configSequence = configSeq) ++
        (incoming configSeq ces).filter (Fresh s.shards
          ((s.pending.filter (·.configSequence = configSeq)).map attestationKeyOf) ·) := by
  unfold collected collectAssemblerReports collectAndDeduplicateEvents
  simp only
  rw [foldl_collectEvent_pending, filterMap_baf_filterCEs]
  rfl

variable {W configSeq ces s}

theorem collected_complaints_nodup (h : (s.complaints.map complaintKeyOf).Nodup) :
    ((s.collected W configSeq ces).complaints.map complaintKeyOf).Nodup := by
  have hold : ((s.complaints.filter (·.configSeq = configSeq)).map complaintKeyOf).Nodup :=
    (filter_sublist.map complaintKeyOf).nodup h
  exact (foldl_collectEvent_complaints _ _ _ rfl hold).1

theorem mem_collected_complaints {c} (h : (s.complaints.map complaintKeyOf).Nodup)
    (hc : c ∈ (s.collected W configSeq ces).complaints) : (c ∈ s.complaints ∧ c.configSeq = configSeq) ∨
      (c ∈ incomingComplaints configSeq ces ∧ c.shardTerm ∈ s.shards) := by
  have hold : ((s.complaints.filter (·.configSeq = configSeq)).map complaintKeyOf).Nodup :=
    (filter_sublist.map complaintKeyOf).nodup h
  rcases (foldl_collectEvent_complaints _ _ _ rfl hold).2 c hc with hc | ⟨hc, hs⟩
  · exact Or.inl (by simpa [filterPendingEventsWithDiffConfigSeq] using hc)
  · exact Or.inr ⟨filterMap_complaint_filterCEs W configSeq ces ▸ hc, hs⟩

variable (W configSeq ces s)

/-- **The complaint keys of a round**: the old ones of the config sequence, and those of the incoming complaints about
a known shard and term. -/
theorem mem_collected_complaintKeys (key) : key ∈ (s.collected W configSeq ces).complaints.map complaintKeyOf ↔
      key ∈ (s.complaints.filter (·.configSeq = configSeq)).map complaintKeyOf ∨
        ∃ c ∈ incomingComplaints configSeq ces, complaintKeyOf c = key ∧ c.shardTerm ∈ s.shards := by
  rw [← filterMap_complaint_filterCEs W configSeq ces]
  exact mem_foldl_collectEvent_keys _ _ _ rfl key

end State

end Arma
