import Arma.State.Collect
import Arma.State.Votes

/-!
# When a shard's primary is rotated

Two rules raise terms, one after the other and on the same list: `DetectEquivocation`, then
`PrimaryRotateDueToComplaints`. With distinct shards each of them raises a set of shards by one, and
`raise r shards` is the list with the shards of `r` raised; both loops are characterised by the set
they leave (`detectEquivocation_eq`, `primaryRotateDueToComplaints_eq`).

`RotationDue` is the condition of a rotation read off the collected state: equivocation in the shard,
or a threshold of distinct complainers at the shard's term. `process_eq` puts the round together: the
terms of exactly the shards for which a rotation is due are raised, by one. A shard rotated for
equivocation is at a term nobody can have complained about yet, so the second rule passes it by.
-/

namespace Arma

open Arma.Lib Outcome List Function

def DistinctShards (shards : List ShardTerm) : Prop := (shards.map (·.shard)).Nodup

def ShardTerm.next (st : ShardTerm) : ShardTerm := { st with term := st.term + 1 }

@[simp] theorem ShardTerm.next_shard (st : ShardTerm) : st.next.shard = st.shard := rfl

@[simp] theorem ShardTerm.next_term (st : ShardTerm) : st.next.term = st.term + 1 := rfl

/-- The shards of `r` raised to their next term. -/
def raise (r : List ShardID) (shards : List ShardTerm) : List ShardTerm :=
  shards.map fun st => if st.shard ∈ r then st.next else st

@[simp] theorem raise_nil (shards : List ShardTerm) : raise [] shards = shards := by
  simp [raise]

theorem map_shard_raise (r : List ShardID) (shards : List ShardTerm) :
    (raise r shards).map (·.shard) = shards.map (·.shard) := by
  unfold raise
  rw [map_map]
  refine map_congr_left fun st _ => ?_
  by_cases h : st.shard ∈ r <;> simp [h]

variable {shards : List ShardTerm}

theorem raise_congr {r r'} (h : ∀ st ∈ shards, st.shard ∈ r ↔ st.shard ∈ r') : raise r shards = raise r' shards := by
  unfold raise
  refine map_congr_left fun st hst => ?_
  by_cases hr : st.shard ∈ r
  · simp [hr, (h st hst).mp hr]
  · simp [hr, mt (h st hst).mpr hr]

/-- Raising the first entry of a shard that is not raised yet adds it to the set. -/
theorem bumpTerm_raise {r x} (hx : x ∉ r) : ∀ {shards : List ShardTerm}, DistinctShards shards →
      bumpTerm x (raise r shards) = raise (x :: r) shards
  | [], _ => rfl
  | st :: rest, hd => by
    obtain ⟨hnot, hrest⟩ := nodup_cons.mp hd
    by_cases hst : st.shard = x
    · have hnr : st.shard ∉ r := hst ▸ hx
      have htail : raise (x :: r) rest = raise r rest := raise_congr fun st' hst' => by
        have hne : st'.shard ≠ x := by
          rintro rfl
          exact hnot (mem_map.mpr ⟨st', hst', hst.symm⟩)
        simp [hne]
      have hcons : raise (x :: r) (st :: rest) = st.next :: raise (x :: r) rest := by
        simp [raise, hst]
      have hcons' : raise r (st :: rest) = st :: raise r rest := by simp [raise, hnr]
      rw [hcons, hcons', htail]
      simp [bumpTerm, hst, ShardTerm.next]
    · have ih := bumpTerm_raise hx hrest
      by_cases hr : st.shard ∈ r <;> simpa [raise, bumpTerm, hr, hst] using ih

theorem termOf_raise (r : List ShardID) (x : ShardID) (shards : List ShardTerm) : termOf (raise r shards) x =
      (termOf shards x).map fun t => if x ∈ r then t + 1 else t := by
  induction shards with
  | nil => rfl
  | cons st rest ih =>
    by_cases hst : st.shard = x
    · by_cases hr : st.shard ∈ r
      · have hxr : x ∈ r := hst ▸ hr
        simp [raise, termOf, hst, hxr]
      · have hxr : x ∉ r := hst ▸ hr
        simp [raise, termOf, hst, hxr]
    · have hne : (if st.shard ∈ r then st.next else st).shard ≠ x := by
        by_cases hr : st.shard ∈ r <;> simp [hr, hst]
      simpa [raise, termOf, hst, hne] using ih

theorem termOf_eq_some_of_mem (hd : DistinctShards shards)
    {st} (h : st ∈ shards) : termOf shards st.shard = some st.term := by
  induction shards with
  | nil => exact absurd h not_mem_nil
  | cons x rest ih =>
    obtain ⟨hnot, hrest⟩ := nodup_cons.mp hd
    rcases mem_cons.mp h with rfl | h
    · simp [termOf]
    · have hne : x.shard ≠ st.shard := fun e => hnot (mem_map.mpr ⟨st, h, e.symm⟩)
      simpa [termOf, hne] using ih hrest h

theorem mem_of_termOf_eq_some {x t} (h : termOf shards x = some t) : ⟨x, t⟩ ∈ shards := by
  obtain ⟨st, hst, rfl⟩ := Option.map_eq_some_iff.mp h
  have hshard : st.shard = x := by simpa using find?_some hst
  subst hshard
  exact mem_of_find?_eq_some hst

namespace State

section Visited

variable {α β : Type} {r r' : List β} {k : α} {ks : List α} {P : α → β → Prop}

/-- A loop that collects what its items name takes an item that names `y`. -/
theorem mem_visited_cons {y} (h : ∀ x, x ∈ r' ↔ x ∈ y :: r ∨ ∃ k ∈ ks, P k x) (hk : ∀ x, P k x ↔ x = y) (x : β) :
    x ∈ r' ↔ x ∈ r ∨ ∃ k' ∈ k :: ks, P k' x := by
  rw [h, mem_cons, exists_mem_cons_iff, hk, or_assoc, or_left_comm]

/-- It passes by an item that names nothing new. -/
theorem mem_visited_of_passed (h : ∀ x, x ∈ r' ↔ x ∈ r ∨ ∃ k ∈ ks, P k x) (hk : ∀ x, P k x → x ∈ r) (x : β) :
    x ∈ r' ↔ x ∈ r ∨ ∃ k' ∈ k :: ks, P k' x := by
  rw [h, exists_mem_cons_iff, ← or_assoc, or_iff_left_of_imp (hk x)]

end Visited

/-! ## Equivocation -/

/-- The loop of `DetectEquivocation` raises the known shards of the equivocated batches it visits. -/
theorem foldl_rotateEquivocator (hd : DistinctShards shards) (m) (ks : List BatchKey) (r : List ShardID) :
    ∃ r', ks.foldl (rotateEquivocator m) (raise r shards, r) = (raise r' shards, r') ∧
      ∀ x, x ∈ r' ↔ x ∈ r ∨ ∃ k ∈ ks, k.shard = x ∧
        1 < ((m.lookup k).getD ∅).keys.length ∧ (termOf shards x).isSome := by
  induction ks generalizing r with
  | nil => exact ⟨r, rfl, by simp⟩
  | cons k ks ih =>
    rw [foldl_cons]
    by_cases hrot : 1 < ((m.lookup k).getD ∅).keys.length ∧ k.shard ∉ r ∧ (termOf shards k.shard).isSome
    · obtain ⟨hdig, hnr, hsome⟩ := hrot
      have hstep : rotateEquivocator m (raise r shards, r) k = (raise (k.shard :: r) shards, k.shard :: r) := by
        have hsome' : (termOf (raise r shards) k.shard).isSome := by
          rw [termOf_raise, Option.isSome_map]
          exact hsome
        simp [rotateEquivocator, hdig, hnr, hsome', bumpTerm_raise hnr hd]
      obtain ⟨r', hr', hmem⟩ := ih (k.shard :: r)
      refine ⟨r', by rw [hstep, hr'], mem_visited_cons hmem fun x => ⟨fun h => h.1.symm, ?_⟩⟩
      rintro rfl
      exact ⟨rfl, hdig, hsome⟩
    · have hstep : rotateEquivocator m (raise r shards, r) k = (raise r shards, r) := by
        by_cases hdig : 1 < ((m.lookup k).getD ∅).keys.length
        · by_cases hr : k.shard ∈ r
          · simp [rotateEquivocator, hr]
          · have hnone : ¬ (termOf shards k.shard).isSome := fun h => hrot ⟨hdig, hr, h⟩
            have hnone' : ¬ (termOf (raise r shards) k.shard).isSome := by
              rw [termOf_raise, Option.isSome_map]
              exact hnone
            simp [rotateEquivocator, hr, hnone']
        · simp [rotateEquivocator, hdig]
      obtain ⟨r', hr', hmem⟩ := ih r
      refine ⟨r', by rw [hstep, hr'], mem_visited_of_passed hmem ?_⟩
      -- a batch that was passed by names a shard that was rotated before
      rintro x ⟨rfl, hdig, hsome⟩
      by_contra hnr
      exact hrot ⟨hdig, hnr, hsome⟩

/-- **`DetectEquivocation`** raises exactly the shards with an equivocated batch. -/
theorem detectEquivocation_eq {s : State} (hd : DistinctShards s.shards) :
    ∃ r, s.detectEquivocation = { s with shards := raise r s.shards } ∧
      ∀ st ∈ s.shards, st.shard ∈ r ↔ ∃ k, k.shard = st.shard ∧ Equivocates s.pending k := by
  obtain ⟨r, hr, hmem⟩ := foldl_rotateEquivocator hd (s.batchAttestationVotesByDigests true)
    ((s.batchAttestationVotesByDigests true).keys.insertionSort (fun a b => a.compare b ≠ .gt)) []
  rw [raise_nil] at hr
  refine ⟨r, by rw [detectEquivocation, hr], fun st hst => ?_⟩
  rw [hmem]
  constructor
  · rintro (h | ⟨k, -, hshard, hdig, -⟩)
    · exact absurd h not_mem_nil
    · exact ⟨k, hshard, equivocates_iff.mp hdig⟩
  · rintro ⟨k, hshard, heq⟩
    refine Or.inr ⟨k, ?_, hshard, equivocates_iff.mpr heq, ?_⟩
    · obtain ⟨b, hb, -, -, ⟨hk, hne⟩, -⟩ := heq
      rw [mem_insertionSort, ← AList.mem_keys, batchAttestationVotesByDigests, mem_gatherNested]
      exact ⟨b, by simpa using ⟨hb, hne⟩, hk⟩
    · rw [termOf_eq_some_of_mem hd hst]
      rfl

/-! ## Complaints -/

/-- The complaints counted for a shard and term: all of them if the shard is at that term. -/
theorem complaintsToNum_eq (shards : List ShardTerm) (cs : List Complaint) (st : ShardTerm) :
    complaintsToNum shards cs st =
      if termOf shards st.shard = some st.term then cs.countP (·.shardTerm = st) else 0 := by
  unfold complaintsToNum
  suffices h : ∀ num : ShardTerm → Nat, cs.foldl (fun num c =>
      if termOf shards c.shard = some c.term then
        update num c.shardTerm (num c.shardTerm + 1) else num) num st =
      num st + if termOf shards st.shard = some st.term then cs.countP (·.shardTerm = st) else 0 by
    simpa using h fun _ => 0
  induction cs with
  | nil => simp
  | cons c cs ih =>
    intro num
    rw [foldl_cons, ih]
    by_cases hc : c.shardTerm = st
    · subst hc
      by_cases ht : termOf shards c.shard = some c.term
      · simp only [if_pos ht, update_self]
        rw [countP_cons_of_pos (by simp)]
        omega
      · simp only [if_neg ht]
    · rw [countP_cons_of_neg (by simpa using hc)]
      split
      · rw [update_of_ne (Ne.symm hc)]
      · rfl

/-- The second loop of `PrimaryRotateDueToComplaints` raises the shards of the complaints that reached
the threshold and keeps the other complaints. -/
theorem foldlM_rotateComplained (hd : DistinctShards shards)
    {threshold num} (hnum : ∀ st, threshold ≤ num st → termOf shards st.shard = some st.term)
    (cs kept : List Complaint) (r : List ShardID) :
    ∃ r', cs.foldlM (rotateComplained threshold num) (raise r shards, kept) =
        .ok (raise r' shards, kept ++ cs.filter fun c => num c.shardTerm < threshold) ∧
      ∀ x, x ∈ r' ↔ x ∈ r ∨ ∃ c ∈ cs, c.shard = x ∧ threshold ≤ num c.shardTerm := by
  induction cs generalizing kept r with
  | nil => exact ⟨r, by simp, by simp⟩
  | cons c cs ih =>
    rw [foldlM_cons]
    by_cases hc : threshold ≤ num c.shardTerm
    · have hterm : readTerm (raise r shards) c.shard = .ok (if c.shard ∈ r then c.term + 1 else c.term) := by
        simp [readTerm, termOf_raise, hnum _ hc]
      have hfilter : (c :: cs).filter (fun c => num c.shardTerm < threshold) =
          cs.filter fun c => num c.shardTerm < threshold :=
        filter_cons_of_neg (by simpa using hc)
      by_cases hr : c.shard ∈ r
      · have hstep : rotateComplained threshold num (raise r shards, kept) c = .ok (raise r shards, kept) := by
          simp [rotateComplained, hc, hterm, hr]
        obtain ⟨r', hr', hmem⟩ := ih kept r
        exact ⟨r', by rw [hstep, ok_bind, hr', hfilter], mem_visited_of_passed hmem fun x h => h.1 ▸ hr⟩
      · have hstep : rotateComplained threshold num (raise r shards, kept) c =
            .ok (raise (c.shard :: r) shards, kept) := by
          simp [rotateComplained, hc, hterm, hr, bumpTerm_raise hr hd]
        obtain ⟨r', hr', hmem⟩ := ih kept (c.shard :: r)
        refine ⟨r', by rw [hstep, ok_bind, hr', hfilter], mem_visited_cons hmem fun x => ?_⟩
        exact ⟨fun h => h.1.symm, fun h => ⟨h.symm, hc⟩⟩
    · have hstep : rotateComplained threshold num (raise r shards, kept) c = .ok (raise r shards, kept ++ [c]) := by
        simp [rotateComplained, hc]
      have hfilter : (c :: cs).filter (fun c => num c.shardTerm < threshold) =
          c :: cs.filter fun c => num c.shardTerm < threshold :=
        filter_cons_of_pos (by simpa using hc)
      obtain ⟨r', hr', hmem⟩ := ih (kept ++ [c]) r
      refine ⟨r', by rw [hstep, ok_bind, hr', hfilter]; simp, mem_visited_of_passed hmem fun x h => ?_⟩
      exact absurd h.2 hc

/-- **`PrimaryRotateDueToComplaints`** raises exactly the shards with a threshold of complaints at
their term, and keeps the complaints that did not count towards one. -/
theorem primaryRotateDueToComplaints_eq {s : State} (hd : DistinctShards s.shards) (hT : 0 < s.threshold.toNat) :
    ∃ r, s.primaryRotateDueToComplaints = .ok
        { s with
          shards := raise r s.shards
          complaints := s.complaints.filter fun c =>
            complaintsToNum s.shards s.complaints c.shardTerm < s.threshold.toNat } ∧ ∀ st ∈ s.shards, st.shard ∈ r ↔
        s.threshold.toNat ≤ s.complaints.countP (·.shardTerm = st) := by
  have hnum : ∀ st, s.threshold.toNat ≤ complaintsToNum s.shards s.complaints st →
      termOf s.shards st.shard = some st.term := by
    intro st hle
    rw [complaintsToNum_eq] at hle
    by_contra hne
    rw [if_neg hne] at hle
    omega
  obtain ⟨r, hr, hmem⟩ := foldlM_rotateComplained hd hnum s.complaints [] []
  rw [raise_nil] at hr
  refine ⟨r, by simp [primaryRotateDueToComplaints, hr], fun st hst => ?_⟩
  have hcount : complaintsToNum s.shards s.complaints st = s.complaints.countP (·.shardTerm = st) := by
    rw [complaintsToNum_eq, if_pos (termOf_eq_some_of_mem hd hst)]
  rw [hmem]
  constructor
  · rintro (h | ⟨c, -, hshard, hle⟩)
    · exact absurd h not_mem_nil
    · -- the complaint that reached the threshold is about the shard's own term
      have hterm : termOf s.shards c.shard = some c.term := hnum _ hle
      rw [hshard, termOf_eq_some_of_mem hd hst] at hterm
      have hc : c.shardTerm = st := ShardTerm.ext hshard (Option.some.inj hterm).symm
      rw [← hcount, ← hc]
      exact hle
  · intro hle
    have hpos : 0 < s.complaints.countP (·.shardTerm = st) := by omega
    obtain ⟨c, hc, hcst⟩ := countP_pos_iff.mp hpos
    have hcst : c.shardTerm = st := by simpa using hcst
    exact Or.inr ⟨c, hc, by rw [Complaint.shard, hcst], by rw [hcst, hcount]; exact hle⟩

/-- `CleanupOldComplaints` keeps the complaints about a term that is not over. -/
theorem cleanupOldComplaints_eq {s : State} (h : ∀ c ∈ s.complaints, (termOf s.shards c.shard).isSome) :
    s.cleanupOldComplaints = .ok
      { s with complaints := s.complaints.filter fun c =>
          (termOf s.shards c.shard).getD 0 ≤ c.term } := by
  have hloop : ∀ (cs kept : List Complaint), (∀ c ∈ cs, (termOf s.shards c.shard).isSome) →
      cs.foldlM (keepComplaint s.shards) kept =
        .ok (kept ++ cs.filter fun c => (termOf s.shards c.shard).getD 0 ≤ c.term) := by
    intro cs
    induction cs with
    | nil => simp
    | cons c cs ih =>
      intro kept hcs
      obtain ⟨t, ht⟩ := Option.isSome_iff_exists.mp (hcs c (by simp))
      rw [foldlM_cons]
      by_cases hold : c.term < t
      · have hstep : keepComplaint s.shards kept c = .ok kept := by
          simp [keepComplaint, readTerm, ht, hold]
        rw [hstep, ok_bind, ih kept fun c' hc' => hcs c' (by simp [hc'])]
        rw [filter_cons_of_neg (by simpa [ht] using hold)]
      · have hstep : keepComplaint s.shards kept c = .ok (kept ++ [c]) := by
          simp [keepComplaint, readTerm, ht, hold]
        rw [hstep, ok_bind, ih (kept ++ [c]) fun c' hc' => hcs c' (by simp [hc'])]
        rw [filter_cons_of_pos (by simpa [ht] using hold)]
        simp
  simp [cleanupOldComplaints, hloop _ _ h]

/-! ## The round -/

/-- The parties with a complaint recorded about a shard at a term. -/
def complainers (s : State) (st : ShardTerm) : Finset PartyID :=
  ((s.complaints.filter (·.shardTerm = st)).map (·.signer)).toFinset

/-- With one complaint per shard, term and signer, complaints count their signers. -/
theorem card_complainers {s : State} (h : (s.complaints.map complaintKeyOf).Nodup) (st : ShardTerm) :
    (s.complainers st).card = s.complaints.countP (·.shardTerm = st) := by
  have hsigners : ((s.complaints.filter (·.shardTerm = st)).map (·.signer)).Nodup := by
    refine Nodup.of_map (fun p => (st, p)) ?_
    rw [map_map]
    have hkeys : (s.complaints.filter (·.shardTerm = st)).map ((fun p => (st, p)) ∘ (·.signer)) =
        (s.complaints.filter (·.shardTerm = st)).map complaintKeyOf := by
      refine map_congr_left fun c hc => ?_
      have hst : c.shardTerm = st := by simpa using (mem_filter.mp hc).2
      simp [complaintKeyOf, hst]
    rw [hkeys]
    exact (filter_sublist.map complaintKeyOf).nodup h
  rw [complainers, toFinset_card_of_nodup hsigners, length_map, countP_eq_length_filter]

/-- **When a rotation is due**, read off the state with the round's events collected: a batch of the
shard was equivocated, or a threshold of parties complained about the shard at its term. -/
def RotationDue (s : State) (st : ShardTerm) : Prop :=
  (∃ k : BatchKey, k.shard = st.shard ∧ Equivocates s.pending k) ∨ s.threshold.toNat ≤ (s.complainers st).card

/-- What holds of the state of every consenter that is running. -/
structure Sound (s : State) : Prop where
  distinct : DistinctShards s.shards
  n_ne_zero : s.n ≠ 0
  threshold_eq : s.threshold = (computeFTQ s.n).2.1
  quorum_eq : s.quorum = (computeFTQ s.n).2.2
  /-- A complaint is about a known shard, at a term the shard has reached. -/
  complaint_term : ∀ c ∈ s.complaints, ∃ t, termOf s.shards c.shard = some t ∧ c.term ≤ t
  complaints_nodup : (s.complaints.map complaintKeyOf).Nodup

end State

theorem faults_toNat {n} (h : n ≠ 0) : (computeFTQ n).1.toNat = (n.toNat - 1) / 3 := by
  have hn : 1 ≤ n.toNat := by
    rcases Nat.eq_zero_or_pos n.toNat with h0 | h0
    · exact absurd (UInt16.toNat.inj h0) h
    · exact h0
  have hsub : (n - 1).toNat = n.toNat - 1 := UInt16.toNat_sub_of_le _ _ (by
    rw [UInt16.le_iff_toNat_le]
    exact hn)
  have h3 : (3 : UInt16).toNat = 3 := rfl
  simp only [computeFTQ, UInt16.toNat_div, hsub, h3]

/-- The threshold of `n` parties is one more than the faults they tolerate. -/
theorem threshold_toNat {n} (h : n ≠ 0) : (computeFTQ n).2.1.toNat = (n.toNat - 1) / 3 + 1 := by
  have hlt := n.toNat_lt
  have h1 : (1 : UInt16).toNat = 1 := rfl
  have hf : (computeFTQ n).2.1 = (computeFTQ n).1 + 1 := rfl
  rw [hf, UInt16.toNat_add, faults_toNat h, h1, Nat.mod_eq_of_lt (by omega)]

namespace State

theorem Sound.threshold_pos {s : State} (h : s.Sound) : 0 < s.threshold.toNat := by
  rw [h.threshold_eq, threshold_toNat h.n_ne_zero]
  omega

variable {W : Wire} {configSeq : ConfigSequence} {ces : List ControlEvent} {s : State}

/-- The complaints of a round are about known shards, at terms the shards have reached. -/
theorem Sound.collected_complaint_term (h : s.Sound) : ∀ c ∈ (s.collected W configSeq ces).complaints,
      ∃ t, termOf s.shards c.shard = some t ∧ c.term ≤ t := by
  intro c hc
  rcases mem_collected_complaints h.complaints_nodup hc with ⟨hold, -⟩ | ⟨-, hshard⟩
  · exact h.complaint_term c hold
  · exact ⟨c.term, termOf_eq_some_of_mem h.distinct hshard, le_rfl⟩

/-- After a rotation for equivocation nobody has complained about the shard's new term. -/
theorem Sound.countP_next (h : s.Sound) {st} (hst : st ∈ s.shards) :
    (s.collected W configSeq ces).complaints.countP (·.shardTerm = st.next) = 0 := by
  refine countP_eq_zero.mpr fun c hc hnext => ?_
  have hnext : c.shardTerm = st.next := by simpa using hnext
  obtain ⟨t, ht, hle⟩ := h.collected_complaint_term c hc
  rw [Complaint.shard, hnext, ShardTerm.next_shard, termOf_eq_some_of_mem h.distinct hst] at ht
  rw [Complaint.term, hnext, ShardTerm.next_term] at hle
  cases ht
  omega

/-- **The round**: it ends, raises exactly the shards for which a rotation is due, and keeps the collected complaints
about terms that are not over; what is extracted and what stays pending is what the collected state says. -/
theorem process_exact (h : s.Sound) : ∃ r, s.process W configSeq ces = .ok (({ s.collected W configSeq ces with
            shards := raise r s.shards
            complaints := (s.collected W configSeq ces).complaints.filter fun c =>
              (termOf (raise r s.shards) c.shard).getD 0 ≤ c.term
            pending := (s.collected W configSeq
              ces).extractBatchAttestationsFromPending.1.pending }).updateDurableWatermark,
          (s.collected W configSeq ces).extractBatchAttestationsFromPending.2,
          extractConfigRequests (filterCEsWithDiffConfigSeq W configSeq ces).1) ∧
      ∀ st ∈ s.shards, st.shard ∈ r ↔ (s.collected W configSeq ces).RotationDue st := by
  set t := s.collected W configSeq ces with ht
  have hshards : t.shards = s.shards := collected_shards W configSeq ces s
  have hthreshold : t.threshold = s.threshold := collected_threshold W configSeq ces s
  have hdist : DistinctShards t.shards := hshards ▸ h.distinct
  have hcterm : ∀ c ∈ t.complaints, ∃ n, termOf s.shards c.shard = some n ∧ c.term ≤ n := h.collected_complaint_term
  have hnodup : (t.complaints.map complaintKeyOf).Nodup := collected_complaints_nodup h.complaints_nodup
  -- the first rule
  obtain ⟨r₁, hequiv, hr₁⟩ := detectEquivocation_eq hdist
  set t₁ : State := { t with shards := raise r₁ t.shards } with ht₁
  have hdist₁ : DistinctShards t₁.shards := by
    rw [DistinctShards, ht₁, map_shard_raise]
    exact hdist
  -- the second rule
  obtain ⟨r₂, hrot, hr₂⟩ := primaryRotateDueToComplaints_eq (s := t₁) hdist₁
    (by rw [ht₁]; exact hthreshold ▸ h.threshold_pos)
  set cs₂ := t₁.complaints.filter fun c =>
    complaintsToNum t₁.shards t₁.complaints c.shardTerm < t₁.threshold.toNat with hcs₂
  -- no shard is raised twice
  have hraise : raise r₂ (raise r₁ s.shards) = raise (r₁ ++ r₂) s.shards := by
    unfold raise
    rw [map_map]
    refine map_congr_left fun st hst => ?_
    by_cases h₁ : st.shard ∈ r₁
    · have hnot : st.shard ∉ r₂ := by
        have hmem : st.next ∈ t₁.shards := by
          rw [ht₁, hshards]
          exact mem_map.mpr ⟨st, hst, by simp [h₁]⟩
        rw [← ShardTerm.next_shard st, hr₂ _ hmem]
        have hzero : t₁.complaints.countP (·.shardTerm = st.next) = 0 := h.countP_next hst
        have hpos : 0 < t₁.threshold.toNat := by rw [ht₁]; exact hthreshold ▸ h.threshold_pos
        omega
      simp [h₁, hnot]
    · simp [h₁]
  have hdue : ∀ st ∈ s.shards, st.shard ∈ r₁ ++ r₂ ↔ t.RotationDue st := by
    intro st hst
    rw [mem_append, hr₁ st (hshards ▸ hst), RotationDue, card_complainers hnodup]
    by_cases h₁ : st.shard ∈ r₁
    · have heq := (hr₁ st (hshards ▸ hst)).mp h₁
      exact ⟨fun _ => Or.inl heq, fun _ => Or.inl heq⟩
    · have hmem : st ∈ t₁.shards := by
        rw [ht₁, hshards]
        exact mem_map.mpr ⟨st, hst, by simp [h₁]⟩
      rw [hr₂ st hmem]
  -- the clean-up
  have hsome : ∀ c ∈ cs₂, (termOf (raise r₂ t₁.shards) c.shard).isSome := by
    intro c hc
    obtain ⟨n, hn, -⟩ := hcterm c (mem_of_mem_filter hc)
    rw [ht₁, hshards, hraise, termOf_raise, hn]
    rfl
  have hclean := cleanupOldComplaints_eq (s := { t₁ with shards := raise r₂ t₁.shards, complaints := cs₂ }) hsome
  -- a complaint that counted towards a rotation is about a term that is over now
  have hcs : cs₂.filter (fun c => (termOf (raise r₂ t₁.shards) c.shard).getD 0 ≤ c.term) =
      t.complaints.filter fun c => (termOf (raise (r₁ ++ r₂) s.shards) c.shard).getD 0 ≤ c.term := by
    rw [hcs₂, filter_filter, ← hraise, ← hshards]
    refine filter_congr fun c _ => ?_
    rw [Bool.and_eq_left_iff_imp, decide_eq_true_eq, decide_eq_true_eq]
    intro hle
    by_contra hcount
    rw [complaintsToNum_eq, not_lt] at hcount
    have hpos : 0 < t₁.threshold.toNat := by rw [ht₁]; exact hthreshold ▸ h.threshold_pos
    by_cases hterm : termOf t₁.shards c.shard = some c.term
    · rw [if_pos hterm] at hcount
      have hmem : c.shardTerm ∈ t₁.shards := mem_of_termOf_eq_some hterm
      have hrotated : c.shard ∈ r₂ := (hr₂ _ hmem).mpr hcount
      rw [termOf_raise, show termOf (raise r₁ t.shards) c.shard = some c.term from hterm] at hle
      simp only [hrotated, if_true, Option.map_some, Option.getD_some] at hle
      omega
    · rw [if_neg hterm] at hcount
      omega
  refine ⟨r₁ ++ r₂, ?_, hdue⟩
  simp only [process]
  rw [← ht, hequiv, hrot, ok_bind, hclean, ok_bind, hcs, ← hraise, ← hshards]
  rfl

theorem process_eq (h : s.Sound) : ∃ r cs, s.process W configSeq ces = .ok (({ s.collected W configSeq ces with
            shards := raise r s.shards
            complaints := cs
            pending := (s.collected W configSeq
              ces).extractBatchAttestationsFromPending.1.pending }).updateDurableWatermark,
          (s.collected W configSeq ces).extractBatchAttestationsFromPending.2,
          extractConfigRequests (filterCEsWithDiffConfigSeq W configSeq ces).1) ∧
      (∀ st ∈ s.shards, st.shard ∈ r ↔ (s.collected W configSeq ces).RotationDue st) ∧
      Sublist cs (s.collected W configSeq ces).complaints ∧
      ∀ c ∈ cs, ∃ t, termOf (raise r s.shards) c.shard = some t ∧ t ≤ c.term := by
  obtain ⟨r, hp, hdue⟩ := @process_exact W configSeq ces s h
  refine ⟨r, _, hp, hdue, filter_sublist, fun c hc => ?_⟩
  obtain ⟨hmem, hle⟩ := mem_filter.mp hc
  obtain ⟨t, ht, -⟩ := h.collected_complaint_term c hmem
  refine ⟨_, by rw [termOf_raise, ht, Option.map_some], ?_⟩
  simpa [termOf_raise, ht] using hle

end State

end Arma
