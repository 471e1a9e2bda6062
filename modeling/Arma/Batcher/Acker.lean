import Arma.Types
import Mathlib.Data.List.Perm.Subperm

/-!
# The acker

Model of `Acker` (`node/batcher/acker.go`), which holds the primary back until enough batchers have acknowledged its
batches, and of the loop of `runPrimary` (`batcher_role.go`) as far as it is paced by it.

* `confirmedSequences` maps a sequence to the parties that have acknowledged it; a sequence without an entry has none.
  An ack is accepted if its sequence is at most `gap` past `confirmedSeq` and its party is new there.
* `HandleAck` looks at `confirmedSeq` once per accepted ack, and moves it by one at most. If later batches are complete
  before `confirmedSeq` is, it falls behind: `acker_falls_behind`.
* **`acker_confirms`**: `confirmedSeq` never passes the least sequence that lacks acks, and moves with every accepted
  ack while it is behind. That is enough for a primary that acknowledges its own batches: it is let go exactly when
  every batch that is `gap` or more behind has enough acks.
-/

namespace Arma

open List Function

/-- `Acker`. The number of parties is only a capacity, and is left out. -/
structure Acker where
  threshold : UInt16
  gap : Nat
  confirmedSeq : Nat
  confirmedSequences : Nat → List PartyID
  stopped : Bool

def newAcker (confirmedSeq gap : Nat) (threshold : UInt16) : Acker :=
  { threshold, gap, confirmedSeq, confirmedSequences := fun _ => [], stopped := false }

namespace Acker

def stop (a : Acker) : Acker := { a with stopped := true }

def handleAck (a : Acker) (seq : Nat) (party : PartyID) : Acker :=
  if seq < a.confirmedSeq then a
  else if seq - a.confirmedSeq > a.gap then a
  else if party ∈ a.confirmedSequences seq then a
  else
    let a := { a with
      confirmedSequences := update a.confirmedSequences seq (party :: a.confirmedSequences seq) }
    if (a.confirmedSequences a.confirmedSeq).length ≥ a.threshold.toNat then
      { a with
        confirmedSequences := update a.confirmedSequences a.confirmedSeq []
        confirmedSeq := a.confirmedSeq + 1 }
    else a

/-- `secondariesKeepUpWithMe`. The subtraction of unsigned numbers wraps around. -/
def secondariesKeepUpWithMe (a : Acker) (seq : Nat) : Bool :=
  if a.confirmedSeq ≤ seq then seq - a.confirmedSeq < a.gap
  else seq + 2 ^ 64 - a.confirmedSeq < a.gap

/-- Whether `wait` returns. -/
def wait (a : Acker) (seq : Nat) : Bool := a.secondariesKeepUpWithMe seq || a.stopped

/-- Whether `HandleAck` counts an ack. -/
def Accepts (a : Acker) (seq : Nat) (party : PartyID) : Prop :=
  a.confirmedSeq ≤ seq ∧ seq - a.confirmedSeq ≤ a.gap ∧ party ∉ a.confirmedSequences seq

instance instDecidableAccepts (a : Acker) (seq : Nat) (party : PartyID) :
    Decidable (a.Accepts seq party) := inferInstanceAs (Decidable (_ ∧ _ ∧ _))

end Acker

/-! ## The acks that were accepted -/

/-- An acker with the acks that it has accepted. -/
structure AckHistory where
  acker : Acker
  accepted : List (Nat × PartyID)

namespace AckHistory

def start (confirmedSeq gap : Nat) (threshold : UInt16) : AckHistory :=
  ⟨newAcker confirmedSeq gap threshold, []⟩

def handleAck (s : AckHistory) (seq : Nat) (party : PartyID) : AckHistory :=
  ⟨s.acker.handleAck seq party, if s.acker.Accepts seq party then (seq, party) :: s.accepted else s.accepted⟩

def handleAcks (s : AckHistory) (calls : List (Nat × PartyID)) : AckHistory :=
  calls.foldl (fun s call => s.handleAck call.1 call.2) s

/-- The parties that have acknowledged a sequence, by accepted acks. -/
def parties (s : AckHistory) (seq : Nat) : List PartyID :=
  (s.accepted.filter fun ack => ack.1 = seq).map Prod.snd

/-- A sequence has enough acks. -/
def Full (s : AckHistory) (seq : Nat) : Prop := s.acker.threshold.toNat ≤ (s.parties seq).length

instance instDecidableFull (s : AckHistory) (seq : Nat) : Decidable (s.Full seq) :=
  inferInstanceAs (Decidable (_ ≤ _))

/-- The map holds the parties of what is not confirmed, and what is confirmed was full. -/
structure Inv (first : Nat) (s : AckHistory) : Prop where
  first_le : first ≤ s.acker.confirmedSeq
  recorded : ∀ seq, s.acker.confirmedSeq ≤ seq → s.acker.confirmedSequences seq = s.parties seq
  nodup : ∀ seq, (s.parties seq).Nodup
  full_below : ∀ seq, first ≤ seq → seq < s.acker.confirmedSeq → s.Full seq

/-- An ack was accepted: its party is counted, and `confirmedSeq` moves by one if it is full now. -/
structure Recorded (s : AckHistory) (seq : Nat) (party : PartyID) (s' : AckHistory) : Prop where
  threshold : s'.acker.threshold = s.acker.threshold
  gap : s'.acker.gap = s.acker.gap
  stopped : s'.acker.stopped = s.acker.stopped
  parties_self : s'.parties seq = party :: s.parties seq
  parties_of_ne : ∀ q, q ≠ seq → s'.parties q = s.parties q
  fresh : party ∉ s.parties seq
  confirmed : s'.Full s.acker.confirmedSeq ∧ s'.acker.confirmedSeq = s.acker.confirmedSeq + 1 ∨
    ¬ s'.Full s.acker.confirmedSeq ∧ s'.acker.confirmedSeq = s.acker.confirmedSeq
  recorded : ∀ q, s'.acker.confirmedSeq ≤ q → s'.acker.confirmedSequences q = s'.parties q

variable {s s' : AckHistory} {first seq : Nat} {party : PartyID}

theorem handleAck_of_not_accepts (h : ¬ s.acker.Accepts seq party) : s.handleAck seq party = s := by
  have hacker : s.acker.handleAck seq party = s.acker := by
    unfold Acker.handleAck
    split
    · rfl
    · split
      · rfl
      · split
        · rfl
        · exact absurd ⟨by omega, by omega, by assumption⟩ h
  simp [handleAck, hacker, h]

/-- The acker after it has put an accepted ack into its map, before it looks at `confirmedSeq`. -/
theorem handleAck_of_accepts {a : Acker} (h : a.Accepts seq party) : a.handleAck seq party =
      let m := update a.confirmedSequences seq (party :: a.confirmedSequences seq)
      if a.threshold.toNat ≤ (m a.confirmedSeq).length then
        { a with confirmedSequences := update m a.confirmedSeq [], confirmedSeq := a.confirmedSeq + 1 }
      else { a with confirmedSequences := m } := by
  obtain ⟨hle, hgap, hnew⟩ := h
  rw [Acker.handleAck, if_neg (by omega), if_neg (by omega), if_neg hnew]

theorem Inv.recorded_handleAck (h : s.Inv first) (hacc : s.acker.Accepts seq party) :
    s.Recorded seq party (s.handleAck seq party) := by
  have hself : (s.handleAck seq party).parties seq = party :: s.parties seq := by
    simp [handleAck, parties, hacc]
  have hother : ∀ q, q ≠ seq → (s.handleAck seq party).parties q = s.parties q := by
    intro q hq
    simp [handleAck, parties, hacc, Ne.symm hq]
  -- What the map holds once the ack is in it.
  have hmap : ∀ q, s.acker.confirmedSeq ≤ q →
      update s.acker.confirmedSequences seq (party :: s.acker.confirmedSequences seq) q =
        (s.handleAck seq party).parties q := by
    intro q hq
    by_cases hqs : q = seq
    · subst hqs
      rw [update_self, hself, h.recorded q hq]
    · rw [update_of_ne hqs, hother q hqs, h.recorded q hq]
  have hacker : (s.handleAck seq party).acker = s.acker.handleAck seq party := rfl
  rw [handleAck_of_accepts hacc] at hacker
  simp only [hmap _ le_rfl] at hacker
  have hfresh : party ∉ s.parties seq := h.recorded seq hacc.1 ▸ hacc.2.2
  split at hacker
  next hfull =>
    refine ⟨by rw [hacker], by rw [hacker], by rw [hacker], hself, hother, hfresh, .inl ⟨?_, by rw [hacker]⟩,
      fun q hq => ?_⟩
    · unfold Full
      rw [hacker]
      exact hfull
    · rw [hacker] at hq ⊢
      have hlt : s.acker.confirmedSeq < q := hq
      exact (update_of_ne (by omega) _ _).trans (hmap q hlt.le)
  next hnot =>
    refine ⟨by rw [hacker], by rw [hacker], by rw [hacker], hself, hother, hfresh, .inr ⟨?_, by rw [hacker]⟩,
      fun q hq => ?_⟩
    · unfold Full
      rw [hacker]
      exact hnot
    · rw [hacker] at hq ⊢
      exact hmap q hq

theorem Recorded.full_mono (h : s.Recorded seq party s') {q} (hq : s.Full q) : s'.Full q := by
  unfold Full at hq ⊢
  rw [h.threshold]
  by_cases hqs : q = seq
  · rw [hqs, h.parties_self, length_cons, ← hqs]
    omega
  · rwa [h.parties_of_ne q hqs]

theorem Recorded.confirmedSeq_le (h : s.Recorded seq party s') : s.acker.confirmedSeq ≤ s'.acker.confirmedSeq := by
  rcases h.confirmed with ⟨-, heq⟩ | ⟨-, heq⟩ <;> omega

theorem inv_start (first gap : Nat) (threshold : UInt16) : (start first gap threshold).Inv first where
  first_le := le_rfl
  recorded := fun _ _ => rfl
  nodup := fun _ => nodup_nil
  full_below := fun _ hge hlt => absurd hge (Nat.not_le.mpr hlt)

theorem Inv.of_recorded (h : s.Inv first) (hrec : s.Recorded seq party s') : s'.Inv first where
  first_le := h.first_le.trans hrec.confirmedSeq_le
  recorded := hrec.recorded
  nodup := fun q => by
    by_cases hq : q = seq
    · rw [hq, hrec.parties_self]
      exact nodup_cons.mpr ⟨hrec.fresh, h.nodup seq⟩
    · rw [hrec.parties_of_ne q hq]
      exact h.nodup q
  full_below := fun q hge hlt => by
    by_cases hold : q < s.acker.confirmedSeq
    · exact hrec.full_mono (h.full_below q hge hold)
    · -- `confirmedSeq` has moved past `q`, which is the sequence it was at.
      rcases hrec.confirmed with ⟨hfull, heq⟩ | ⟨-, heq⟩
      · rwa [show q = s.acker.confirmedSeq by omega]
      · omega

/-- **One call**: it changes nothing, or its ack is accepted. -/
theorem Inv.handleAck_cases (h : s.Inv first) (seq : Nat) (party : PartyID) :
    ¬ s.acker.Accepts seq party ∧ s.handleAck seq party = s ∨
      s.acker.Accepts seq party ∧ s.Recorded seq party (s.handleAck seq party) := by
  by_cases hacc : s.acker.Accepts seq party
  · exact .inr ⟨hacc, h.recorded_handleAck hacc⟩
  · exact .inl ⟨hacc, handleAck_of_not_accepts hacc⟩

theorem Inv.handleAck (h : s.Inv first) (seq : Nat) (party : PartyID) : (s.handleAck seq party).Inv first := by
  rcases h.handleAck_cases seq party with ⟨-, heq⟩ | ⟨-, hrec⟩
  · rwa [heq]
  · exact h.of_recorded hrec

theorem Inv.handleAcks (h : s.Inv first) (calls) : (s.handleAcks calls).Inv first := by
  induction calls generalizing s with
  | nil => exact h
  | cons call calls ih => exact ih (h.handleAck call.1 call.2)

theorem Inv.catches_up (h : s.Inv first) (hfull : s.Full s.acker.confirmedSeq) (hacc : s.acker.Accepts seq party) :
    (s.handleAck seq party).acker.confirmedSeq = s.acker.confirmedSeq + 1 := by
  have hrec := h.recorded_handleAck hacc
  rcases hrec.confirmed with ⟨-, heq⟩ | ⟨hnot, -⟩
  · exact heq
  · exact absurd (hrec.full_mono hfull) hnot

end AckHistory

/-! ## The primary -/

/-- Where the loop of `runPrimary` stands, as far as the acker is concerned. -/
inductive PrimaryPoint where
  | waiting
  | batching
  /-- The batch is in the ledger, and may be pulled and acknowledged by others. -/
  | appended
  deriving DecidableEq, Repr

/-- A primary, its sequence and its acker. -/
structure PacedPrimary where
  history : AckHistory
  seq : Nat
  point : PrimaryPoint

namespace PacedPrimary

/-- `runPrimary` makes a new acker, at its sequence. -/
def start (seq gap : Nat) (threshold : UInt16) : PacedPrimary := ⟨.start seq gap threshold, seq, .waiting⟩

/-- A batch that is in the ledger of the primary. -/
def Produced (p : PacedPrimary) (seq : Nat) : Prop := seq < p.seq ∨ seq = p.seq ∧ p.point = .appended

/-- One step of the loop, or an ack of a secondary. A secondary that is not faulty acknowledges what it has pulled. -/
inductive Step (id : PartyID) (faulty : List PartyID) (p : PacedPrimary) : PacedPrimary → Prop
  | ack (seq : Nat) (party : PartyID) (hother : party ≠ id) (hpulled : party ∈ faulty ∨ p.Produced seq) :
      Step id faulty p { p with history := p.history.handleAck seq party }
  | released (hat : p.point = .waiting) (hwait : p.history.acker.wait p.seq = true) :
      Step id faulty p { p with point := .batching }
  | noRequests (hat : p.point = .batching) : Step id faulty p { p with point := .waiting }
  | append (hat : p.point = .batching) : Step id faulty p { p with point := .appended }
  /-- The fragment is sent: the primary acknowledges its own batch, and goes on with the next one. -/
  | ackOwn (hat : p.point = .appended) : Step id faulty p ⟨p.history.handleAck p.seq id, p.seq + 1, .waiting⟩

/-- The primaries that are reached from `start`. -/
def Reachable (id : PartyID) (faulty : List PartyID) (first gap : Nat) (threshold : UInt16) : PacedPrimary → Prop :=
  Relation.ReflTransGen (Step id faulty) (start first gap threshold)

/-! ## The invariant -/

/-- The acker of a primary in its loop. -/
structure Inv (id : PartyID) (faulty : List PartyID) (first gap : Nat) (threshold : UInt16) (p : PacedPrimary) :
    Prop where
  history : p.history.Inv first
  gap_eq : p.history.acker.gap = gap
  threshold_eq : p.history.acker.threshold = threshold
  running : p.history.acker.stopped = false
  early : ∀ q, ¬ p.Produced q → p.history.parties q ⊆ faulty
  own : ∀ q, id ∈ p.history.parties q → q < p.seq
  confirmed_le : p.history.acker.confirmedSeq ≤ p.seq ∨ p.point = .appended ∧ p.history.acker.confirmedSeq = p.seq + 1
  window : p.seq ≤ p.history.acker.confirmedSeq + gap
  ready : p.point ≠ .waiting → p.seq < p.history.acker.confirmedSeq + gap
  /-- An acker that is behind does not hold the primary back. -/
  behind : p.history.Full p.history.acker.confirmedSeq → p.seq < p.history.acker.confirmedSeq + gap

variable {id : PartyID} {faulty : List PartyID} {first gap : Nat} {threshold : UInt16} {p p' : PacedPrimary}

theorem inv_pacedStart (hgap : 1 ≤ gap) : (start first gap threshold).Inv id faulty first gap threshold where
  history := AckHistory.inv_start first gap threshold
  gap_eq := rfl
  threshold_eq := rfl
  running := rfl
  early := fun _ _ => nil_subset _
  own := fun _ h => absurd h not_mem_nil
  confirmed_le := .inl le_rfl
  window := Nat.le_add_right _ _
  ready := fun h => absurd rfl h
  behind := fun _ => by
    simp only [start, AckHistory.start, newAcker]
    omega

/-- A batch that does not exist yet is acknowledged by faulty parties only, and these are not enough. -/
theorem not_full_of_subset {s : AckHistory} (hinv : s.Inv first) (hthreshold : s.acker.threshold = threshold)
    (hfew : faulty.length < threshold.toNat) {q} (hsub : s.parties q ⊆ faulty) : ¬ s.Full q := by
  have hlen := (subperm_of_subset (hinv.nodup q) hsub).length_le
  unfold AckHistory.Full
  rw [hthreshold]
  omega

section

variable (h : p.Inv id faulty first gap threshold)
include h

theorem Inv.ack (hfew : faulty.length < threshold.toNat) {seq : Nat}
    {party} (hother : party ≠ id) (hpulled : party ∈ faulty ∨ p.Produced seq) :
    Inv id faulty first gap threshold { p with history := p.history.handleAck seq party } := by
  rcases h.history.handleAck_cases seq party with ⟨-, heq⟩ | ⟨-, hrec⟩
  · rw [heq]
    exact h
  have hinv := h.history.of_recorded hrec
  have hthreshold := hrec.threshold.trans h.threshold_eq
  have hearly : ∀ q, ¬ p.Produced q → (p.history.handleAck seq party).parties q ⊆ faulty := by
    intro q hq
    by_cases hqs : q = seq
    · rw [hqs, hrec.parties_self]
      exact cons_subset.mpr ⟨hpulled.resolve_right (hqs ▸ hq), h.early seq (hqs ▸ hq)⟩
    · rw [hrec.parties_of_ne q hqs]
      exact h.early q hq
  have hmono := hrec.confirmedSeq_le
  have hwindow := h.window
  refine ⟨hinv, hrec.gap.trans h.gap_eq, hthreshold, hrec.stopped.trans h.running, hearly, ?_, ?_,
    hwindow.trans (Nat.add_le_add_right hmono gap), fun hne => (h.ready hne).trans_le (Nat.add_le_add_right hmono gap),
    ?_⟩
  · intro q hq
    by_cases hqs : q = seq
    · subst hqs
      change id ∈ (p.history.handleAck q party).parties q at hq
      rw [hrec.parties_self] at hq
      exact h.own q ((mem_cons.mp hq).resolve_left fun he => hother he.symm)
    · exact h.own q (hrec.parties_of_ne q hqs ▸ hq)
  · rcases hrec.confirmed with ⟨hfull, heq⟩ | ⟨-, heq⟩
    · -- What is full was produced, so that `confirmedSeq` does not run past the primary.
      have hproduced : p.Produced p.history.acker.confirmedSeq := by
        by_contra hnot
        exact not_full_of_subset hinv hthreshold hfew (hearly _ hnot) hfull
      rcases hproduced with hlt | ⟨hseq, hat⟩
      · exact .inl (by simp only; omega)
      · exact .inr ⟨hat, by simp only; omega⟩
    · rw [heq]
      exact h.confirmed_le
  · intro hfull
    rcases hrec.confirmed with ⟨-, heq⟩ | ⟨hnot, heq⟩
    · simp only
      omega
    · simp only [heq] at hfull
      exact absurd hfull hnot

theorem Inv.ackOwn (hgap : 1 ≤ gap) (hat : p.point = .appended) :
    Inv id faulty first gap threshold ⟨p.history.handleAck p.seq id, p.seq + 1, .waiting⟩ := by
  have hready := h.ready (by rw [hat]; decide)
  have hearlier : ∀ q, ¬ q < p.seq + 1 → ¬ p.Produced q := by
    rintro q hq (hlt | ⟨heq, -⟩) <;> omega
  have hproduced : ∀ {hist} q, ¬ Produced ⟨hist, p.seq + 1, .waiting⟩ q → ¬ q < p.seq + 1 :=
    fun q hq hlt => hq (.inl hlt)
  rcases h.history.handleAck_cases p.seq id with ⟨hrefused, heq⟩ | ⟨hacc, hrec⟩
  · -- The others were enough: `confirmedSeq` is past the batch already.
    have hpast : p.history.acker.confirmedSeq = p.seq + 1 := by
      rcases h.confirmed_le with hle | ⟨-, hpast⟩
      · refine absurd ⟨hle, by rw [h.gap_eq]; omega, fun hmem => ?_⟩ hrefused
        rw [h.history.recorded p.seq hle] at hmem
        exact absurd (h.own p.seq hmem) (Nat.lt_irrefl _)
      · exact hpast
    rw [heq]
    exact ⟨h.history, h.gap_eq, h.threshold_eq, h.running, fun q hq => h.early q (hearlier q (hproduced q hq)),
      fun q hq => (h.own q hq).trans (Nat.lt_succ_self _), .inl hpast.le, by simp only; omega,
      fun hne => absurd rfl hne, fun _ => by simp only; omega⟩
  · have hmono := hrec.confirmedSeq_le
    have hle : p.history.acker.confirmedSeq ≤ p.seq := hacc.1
    refine ⟨h.history.of_recorded hrec, hrec.gap.trans h.gap_eq, hrec.threshold.trans h.threshold_eq,
      hrec.stopped.trans h.running, fun q hq => ?_, fun q hq => ?_, .inl ?_, by simp only; omega,
      fun hne => absurd rfl hne, fun hfull => ?_⟩
    · have hlarge := hproduced q hq
      change (p.history.handleAck p.seq id).parties q ⊆ faulty
      rw [hrec.parties_of_ne q (by omega)]
      exact h.early q (hearlier q hlarge)
    · by_cases hqs : q = p.seq
      · exact hqs ▸ Nat.lt_succ_self _
      · exact (h.own q (hrec.parties_of_ne q hqs ▸ hq)).trans (Nat.lt_succ_self _)
    · rcases hrec.confirmed with ⟨-, heq⟩ | ⟨-, heq⟩ <;> simp only <;> omega
    · rcases hrec.confirmed with ⟨-, heq⟩ | ⟨hnot, heq⟩
      · simp only
        omega
      · simp only [heq] at hfull
        exact absurd hfull hnot

theorem Inv.wait_eq (hle : p.history.acker.confirmedSeq ≤ p.seq) :
    p.history.acker.wait p.seq = true ↔ p.seq < p.history.acker.confirmedSeq + gap := by
  simp only [Acker.wait, Acker.secondariesKeepUpWithMe, h.running, if_pos hle, h.gap_eq, Bool.or_false,
    decide_eq_true_eq]
  omega

theorem Inv.confirmedSeq_le (hat : p.point ≠ .appended) :
    p.history.acker.confirmedSeq ≤ p.seq := h.confirmed_le.resolve_right fun hpast => hat hpast.1

theorem Inv.step (hgap : 1 ≤ gap) (hfew : faulty.length < threshold.toNat)
    (hstep : Step id faulty p p') : p'.Inv id faulty first gap threshold := by
  cases hstep with
  | ack _ _ hother hpulled => exact h.ack hfew hother hpulled
  | released hat hwait =>
    have hle := h.confirmedSeq_le (by rw [hat]; decide)
    exact { h with
      early := fun q hq => h.early q fun hp => hq (hp.imp_right fun hp => by rw [hat] at hp; cases hp.2)
      confirmed_le := .inl hle
      ready := fun _ => (h.wait_eq hle).mp hwait }
  | noRequests hat =>
    exact { h with
      early := fun q hq => h.early q fun hp => hq (hp.imp_right fun hp => by rw [hat] at hp; cases hp.2)
      confirmed_le := .inl (h.confirmedSeq_le (by rw [hat]; decide))
      ready := fun hne => absurd rfl hne }
  | append hat =>
    exact { h with
      early := fun q hq => h.early q fun hp => hq (hp.imp_right fun hp => ⟨hp.1, rfl⟩)
      confirmed_le := .inl (h.confirmedSeq_le (by rw [hat]; decide))
      ready := fun _ => h.ready (by rw [hat]; decide) }
  | ackOwn hat => exact h.ackOwn hgap hat

end

theorem Reachable.inv (h : Reachable id faulty first gap threshold p) (hgap : 1 ≤ gap)
    (hfew : faulty.length < threshold.toNat) : p.Inv id faulty first gap threshold := by
  induction h with
  | refl => exact inv_pacedStart hgap
  | tail _ hstep ih => exact ih.step hgap hfew hstep

/-- **Held back for a reason**: a primary waits only for a batch that lacks acks. -/
theorem Inv.wait_iff (h : p.Inv id faulty first gap threshold) (hat : p.point = .waiting) :
    p.history.acker.wait p.seq = true ↔ ∀ seq, first ≤ seq → seq + gap ≤ p.seq → p.history.Full seq := by
  rw [h.wait_eq (h.confirmedSeq_le (by rw [hat]; decide))]
  constructor
  · intro hlt seq hge hle
    exact h.history.full_below seq hge (by omega)
  · intro hall
    by_contra hheld
    exact hheld (h.behind (hall _ h.history.first_le (by omega)))

end PacedPrimary

/-! ## What is confirmed -/

/-- **What the acker confirms.** After any calls `confirmedSeq` has not passed a sequence that lacks acks, and moves
with every accepted ack while it is behind. A primary that waits before each of its batches and acknowledges them, with
fewer faulty secondaries than the threshold, is let go iff every batch that is `gap` or more behind has enough acks; and
while it is held back, `confirmedSeq` is the least sequence that lacks acks. -/
theorem acker_confirms (first gap : Nat) (threshold : UInt16) (hgap : 1 ≤ gap) :
    (∀ calls s, s = (AckHistory.start first gap threshold).handleAcks calls →
      (∀ seq, (s.parties seq).Nodup) ∧ first ≤ s.acker.confirmedSeq ∧
      (∀ seq, first ≤ seq → ¬ s.Full seq → s.acker.confirmedSeq ≤ seq) ∧
      ∀ seq party, s.Full s.acker.confirmedSeq → s.acker.Accepts seq party →
        (s.handleAck seq party).acker.confirmedSeq = s.acker.confirmedSeq + 1) ∧
    ∀ id faulty p, faulty.length < threshold.toNat → PacedPrimary.Reachable id faulty first gap threshold p →
      p.point = .waiting →
      (p.history.acker.wait p.seq = true ↔ ∀ seq, first ≤ seq → seq + gap ≤ p.seq → p.history.Full seq) ∧
      (p.history.acker.wait p.seq = false → ¬ p.history.Full p.history.acker.confirmedSeq ∧
        ∀ seq, first ≤ seq → ¬ p.history.Full seq → p.history.acker.confirmedSeq ≤ seq) := by
  have hleast : ∀ {s : AckHistory}, s.Inv first → ∀ seq, first ≤ seq → ¬ s.Full seq → s.acker.confirmedSeq ≤ seq :=
    fun hinv seq hge hnot => Nat.le_of_not_lt fun hlt => hnot (hinv.full_below seq hge hlt)
  refine ⟨?_, fun id faulty p hfew hreach hat => ?_⟩
  · rintro calls _ rfl
    have hinv := (AckHistory.inv_start first gap threshold).handleAcks calls
    exact ⟨hinv.nodup, hinv.first_le, hleast hinv, fun seq party hfull hacc => hinv.catches_up hfull hacc⟩
  · have hinv := hreach.inv hgap hfew
    refine ⟨hinv.wait_iff hat, fun hheld => ⟨fun hfull => ?_, hleast hinv.history⟩⟩
    have hwait := (hinv.wait_eq (hinv.confirmedSeq_le (by rw [hat]; decide))).mpr (hinv.behind hfull)
    rw [hheld] at hwait
    cases hwait

/-- Two batches, of which the later one is acknowledged first: both have their ack, and `confirmedSeq` is still at the
second one, so that a primary at sequence 2 is held back. -/
theorem acker_falls_behind :
    let s := (AckHistory.start 0 1 1).handleAcks [(1, 1), (0, 2)]
    s.Full 0 ∧ s.Full 1 ∧ ¬ s.Full 2 ∧ s.acker.confirmedSeq = 1 ∧ s.acker.secondariesKeepUpWithMe 2 = false := by
  decide

/-- Party 1 has made its first batch, and waits for one more ack. -/
def firstBatch : PacedPrimary := ⟨(AckHistory.start 0 1 2).handleAck 0 1, 1, .waiting⟩

theorem reachable_firstBatch : PacedPrimary.Reachable 1 [] 0 1 2 firstBatch := by
  refine .tail (.tail (.tail .refl (.released rfl (by decide))) (.append rfl)) ?_
  exact .ackOwn rfl

theorem released_by_second_ack :
    1 ≤ 1 ∧ firstBatch.history.acker.wait 1 = false ∧ (firstBatch.history.handleAck 0 2).acker.wait 1 = true := by
  have hconfirms := (acker_confirms 0 1 2 (Nat.le_refl 1)).2 1 []
  have hheld := hconfirms firstBatch (by decide) reachable_firstBatch rfl
  have hreleased := hconfirms { firstBatch with history := firstBatch.history.handleAck 0 2 } (by decide)
    (reachable_firstBatch.tail (.ack 0 2 (by decide) (.inr (.inl (by decide))))) rfl
  refine ⟨Nat.le_refl 1, Bool.eq_false_iff.mpr fun hwait => ?_, hreleased.1.mpr fun seq _ hle => ?_⟩
  · exact absurd (hheld.1.mp hwait 0 (Nat.le_refl 0) (Nat.le_refl 1)) (by decide)
  · obtain rfl : seq = 0 := Nat.le_zero.mp (Nat.le_of_succ_le_succ hle)
    decide

end Arma
