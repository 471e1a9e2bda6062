import Arma.Batcher.Verify
import Arma.Lib.Journal

/-!
# What a batcher attests is in its ledger

A batcher's ledger and the fragments it sends are a journal (`Lib/Journal.lean`): the key is the primary, an entry
is a batch's digest and its number of requests, and a fragment is a statement about the entry at its sequence.
`Step.journal`: every step of a batcher, a crash included, is a step of its journal, because a batch is appended
before the fragment goes out and nothing but an append makes a fragment possible.

**`Batcher.Reachable.attested`**: every fragment handed to `SendBAF` is about a batch that is in the ledger, and two
fragments about one place carry one digest.

The primary signs its fragment before it stores the batch. That is harmless only because the role holds the
fragment back; `BatcherRole.Prepared` says what it holds.
-/

namespace Arma

open Arma.Lib Outcome List Function BatchLedgerArray

/-- What a fragment says of a batch: its digest and how many requests it has. -/
abbrev BatchEntry := Bytes × UInt64

def FabricBatch.entry (batch : FabricBatch) : BatchEntry :=
  (batch.digest, UInt64.ofNat batch.requests.length)

def FabricBatch.Hashed (W : Wire) (batch : FabricBatch) : Prop := batch.digest = batch.requests.digest W.sha256

/-- A fragment as a statement about a ledger. -/
def BAF.statement (baf : BAF) : Statement PartyID BatchEntry :=
  ⟨baf.primary, baf.seq, (baf.digest, baf.txCount)⟩

variable {W : Wire} {party : PartyID} {shard : ShardID}

theorem Disk.at_index {disk : Disk shard} {primary : PartyID} {seq : BatchSequence} {batch}
    (h : (disk.batches primary)[seq]? = some batch) : batch.At shard primary seq := by
  cases hchain : disk primary with
  | none => simp [Disk.batches, hchain] at h
  | some chain =>
    refine chain.at_index seq batch ?_
    simpa [Disk.batches, hchain] using h

namespace BatcherRole

variable {r r' : BatcherRole W party shard}

/-- What the role holds in its hands is fit to be stored. -/
def Prepared (r : BatcherRole W party shard) : Prop :=
  match r.control with
  | .createBAF currentBatch digest => digest = currentBatch.digest W.sha256
  | .appendOwn currentBatch digest baf => digest = currentBatch.digest W.sha256 ∧
      baf.statement = ⟨party, r.seq, digest, UInt64.ofNat currentBatch.length⟩
  | .appendPulled batch => batch.Hashed W
  | _ => True

/-- The statements that the role may still make, apart from those already being sent. -/
def owed (r : BatcherRole W party shard) : Set (Statement PartyID BatchEntry) :=
  match r.control with
  | .attest batch => {⟨r.primary, r.seq, batch.entry⟩}
  | .startSend baf => {baf.statement}
  | _ => ∅

theorem statement_createBAF {sign seq primary digest primarySignature txCount baf}
    (h : r.createBAF sign seq primary digest txCount primarySignature = .ok baf) :
    baf.statement = ⟨primary, seq, digest, txCount⟩ := by
  simp only [createBAF, Arma.createBAF, orPanic_eq_ok, bind_eq_ok] at h
  obtain ⟨signature, -, hret⟩ := h
  cases hret
  rfl

/-- A step that stores nothing, or the batch that it stores. -/
inductive Stores (r r' : BatcherRole W party shard) : Prop
  | nothing (hbatches : r'.ledger.batches = r.ledger.batches) (howed : r'.owed ⊆ r.owed)
  | batch (primary : PartyID) (batch : FabricBatch) (hhashed : batch.Hashed W)
      (hbatches : r'.ledger.batches = update r.ledger.batches primary (r.ledger.batches primary ++ [batch]))
      (howed : r'.owed ⊆ {⟨primary, (r.ledger.batches primary).length, batch.entry⟩})

theorem Step.prepared (h : r.Step r') (hr : r.Prepared) : r'.Prepared := by
  cases h with
  | batched => exact rfl
  | signOwn hat _ hbaf =>
    simp only [Prepared, hat] at hr
    exact ⟨hr, statement_createBAF hbaf⟩
  | verified _ _ hok => exact (verifyBatch_eq_ok.mp hok).digest
  | readState | notify | notifierReturn | stop => exact hr
  | _ => exact trivial

/-- **What a step of the role stores**: nothing, or one batch, and then no other statement becomes possible. -/
theorem Step.stores (h : r.Step r') (hr : r.Prepared) : r.Stores r' := by
  cases h with
  | appendOwn hat happend =>
    simp only [Prepared, hat] at hr
    obtain ⟨hdigest, hstatement⟩ := hr
    obtain ⟨hseq, batch, hd, hreqs, hbatches⟩ := append_eq_ok happend
    refine .batch party batch ?_ hbatches ?_
    · rw [FabricBatch.Hashed, hd, hreqs, hdigest]
    · simp only [owed, hstatement, FabricBatch.entry, hd, hreqs, hseq]
      exact subset_rfl
  | @appendPulled _ _ hat happend =>
    simp only [Prepared, hat] at hr
    obtain ⟨hseq, batch, hd, hreqs, hbatches⟩ := append_eq_ok happend
    refine .batch r.primary batch ?_ hbatches ?_
    · rw [FabricBatch.Hashed, hd, hreqs]
      exact hr
    · simp only [owed, FabricBatch.entry, hd, hreqs, hseq]
      exact subset_rfl
  | signPulled hat _ hbaf =>
    refine .nothing rfl ?_
    simp only [owed, hat, statement_createBAF hbaf, FabricBatch.entry]
    exact subset_rfl
  | readState | notify | notifierReturn | stop => exact .nothing rfl subset_rfl
  | _ => exact .nothing rfl (Set.empty_subset _)

theorem Step.batches_prefix (h : r.Step r') (primary : PartyID) :
    r.ledger.batches primary <+: r'.ledger.batches primary := by
  cases h with
  | appendOwn _ happend | appendPulled _ happend => exact batches_prefix happend primary
  | _ => exact prefix_rfl

end BatcherRole

/-- What `configureBatcher` makes. -/
structure Fresh (config : BatcherNodeConfig) (disk : Disk shard) (r : BatcherRole W party shard) : Prop where
  batches : r.ledger.batches = disk.batches
  control : r.control = .loop
  configSequence : r.configSequence = config.configSequence
  idle : r.notifier = .listening ∧ r.stopChan = false ∧ r.term = 0

theorem configureBatcher_eq_ok {config} {disk : Disk shard} {r}
    (h : configureBatcher W party config disk = .ok r) : Fresh config disk r := by
  simp only [configureBatcher, bind_eq_ok, orPanic_eq_ok] at h
  obtain ⟨ledger, hledger, hret⟩ := h
  split at hret
  · cases hret
  · cases hret
    exact ⟨batches_new hledger, rfl, rfl, rfl, rfl, rfl⟩

/-- The statements that a process may still make, apart from those already being sent. -/
def Process.owed : Process W party shard → Set (Statement PartyID BatchEntry)
  | .down _ => ∅
  | .up role => role.owed

namespace Batcher

variable {b b' : Batcher W party shard}

def journal (b : Batcher W party shard) : Journal PartyID BatchEntry where
  log primary := (b.batches primary).map FabricBatch.entry
  owed := { s | ∃ baf ∈ b.inflight, baf.statement = s } ∪ b.process.owed
  said := { s | ∃ baf ∈ b.sent, baf.statement = s }

theorem journal_drop (hbatches : b'.batches = b.batches) (hsent : b'.sent = b.sent)
    (howed : b'.journal.owed ⊆ b.journal.owed) : Journal.Step b.journal b'.journal := by
  have hjournal : b'.journal = ⟨b.journal.log, b'.journal.owed, b.journal.said⟩ := by
    simp [journal, hbatches, hsent]
  rw [hjournal]
  exact .drop howed

theorem journal_record {primary batch}
    (hbatches : b'.batches = update b.batches primary (b.batches primary ++ [batch]))
    (hsent : b'.sent = b.sent)
    (howed : b'.journal.owed ⊆ insert ⟨primary, (b.batches primary).length, batch.entry⟩ b.journal.owed) :
    Journal.Step b.journal b'.journal := by
  have hlog : b'.journal.log = update b.journal.log primary (b.journal.log primary ++ [batch.entry]) := by
    funext p
    simp only [journal, hbatches]
    rw [Function.apply_update fun _ => List.map FabricBatch.entry]
    simp
  have hjournal : b'.journal =
      ⟨update b.journal.log primary (b.journal.log primary ++ [batch.entry]), b'.journal.owed, b.journal.said⟩ := by
    rw [← hlog]
    simp [journal, hsent]
  rw [hjournal]
  refine .record primary batch.entry ?_
  simpa [journal] using howed

/-- What holds of a batcher between any two steps. -/
structure Inv (b : Batcher W party shard) : Prop where
  prepared : ∀ r, b.process = .up r → r.Prepared
  hashed : ∀ primary, ∀ batch ∈ b.batches primary, batch.Hashed W

theorem inv_blank : (blank W party shard).Inv where
  prepared := by simp [blank]
  hashed := by simp [batches, disk, blank, Disk.blank, Disk.batches]

theorem Inv.configure {r config inflight sent} (hb : b.Inv) (hnew : configureBatcher W party config b.disk = .ok r) :
    (⟨.up r, inflight, sent⟩ : Batcher W party shard).Inv := by
  obtain ⟨hbatches, hcontrol, -, -⟩ := configureBatcher_eq_ok hnew
  refine ⟨?_, fun primary batch hbatch => hb.hashed primary batch ?_⟩
  · rintro r ⟨⟩
    simp [BatcherRole.Prepared, hcontrol]
  · have hbatch : batch ∈ r.ledger.batches primary := hbatch
    rw [hbatches] at hbatch
    exact hbatch

theorem Step.inv (h : Step b b') (hb : b.Inv) : b'.Inv := by
  cases h with
  | @role _ r' _ _ hstep =>
    have hr := hb.prepared _ rfl
    refine ⟨?_, fun primary batch hbatch => ?_⟩
    · rintro _ ⟨⟩
      exact hstep.prepared hr
    · have hbatch : batch ∈ r'.ledger.batches primary := hbatch
      cases hstep.stores hr with
      | nothing hbatches =>
        rw [hbatches] at hbatch
        exact hb.hashed primary batch hbatch
      | batch p _ hhashed hbatches =>
        rw [hbatches] at hbatch
        by_cases hp : primary = p
        · subst hp
          rw [update_self, mem_append, mem_singleton] at hbatch
          rcases hbatch with hbatch | rfl
          · exact hb.hashed primary batch hbatch
          · exact hhashed
        · rw [update_of_ne hp] at hbatch
          exact hb.hashed primary batch hbatch
  | startSend =>
    refine ⟨?_, hb.hashed⟩
    rintro _ ⟨⟩
    exact trivial
  | sendBAF => exact ⟨hb.prepared, hb.hashed⟩
  | @sendDone r =>
    refine ⟨?_, hb.hashed⟩
    rintro _ ⟨⟩
    by_cases hp : r.primary = party <;> simp [BatcherRole.Prepared, hp]
  | reconfigure _ _ _ hnew | restart _ hnew => exact hb.configure hnew
  | crash => exact ⟨by simp, hb.hashed⟩

theorem Step.batches_prefix (h : Step b b') (primary : PartyID) : b.batches primary <+: b'.batches primary := by
  cases h with
  | role hstep => exact hstep.batches_prefix primary
  | reconfigure _ _ _ hnew | restart _ hnew =>
    exact ⟨[], (append_nil _).trans (congrFun (configureBatcher_eq_ok hnew).batches primary).symm⟩
  | _ => exact prefix_rfl

theorem batches_prefix_of_run (h : Relation.ReflTransGen Step b b') (primary : PartyID) :
    b.batches primary <+: b'.batches primary := by
  induction h with
  | refl => exact prefix_rfl
  | tail _ hstep ih => exact ih.trans (hstep.batches_prefix primary)

theorem Step.journal (h : Step b b') (hb : b.Inv) : Journal.Step b.journal b'.journal := by
  cases h with
  | role hstep =>
    cases hstep.stores (hb.prepared _ rfl) with
    | nothing hbatches howed =>
      exact journal_drop hbatches rfl (Set.union_subset_union_right _ howed)
    | batch _ _ _ hbatches howed =>
      refine journal_record hbatches rfl ?_
      rw [Set.insert_eq]
      refine Set.union_subset ?_ (howed.trans Set.subset_union_left)
      exact Set.subset_union_left.trans Set.subset_union_right
  | startSend hat =>
    refine journal_drop rfl rfl ?_
    rintro s (⟨baf, hbaf, rfl⟩ | hs)
    · rcases mem_cons.mp hbaf with rfl | hbaf
      · right
        simp [Process.owed, BatcherRole.owed, hat]
      · exact .inl ⟨baf, hbaf, rfl⟩
    · simp [Process.owed, BatcherRole.owed] at hs
  | @sendBAF r inflight sent baf hin =>
    have hsaid : (⟨.up r, inflight.erase baf, baf :: sent⟩ : Batcher W party shard).journal.said =
        insert baf.statement (⟨.up r, inflight, sent⟩ : Batcher W party shard).journal.said := by
      ext s
      simp [Batcher.journal, eq_comm]
    have hstep := @Journal.Step.say _ _ _ (⟨.up r, inflight, sent⟩ : Batcher W party shard).journal
      baf.statement (.inl ⟨baf, hin, rfl⟩)
      (⟨.up r, inflight.erase baf, baf :: sent⟩ : Batcher W party shard).journal.owed ?_
    · rw [← hsaid] at hstep
      exact hstep
    · refine Set.union_subset_union_left _ ?_
      rintro s ⟨other, hother, rfl⟩
      exact ⟨other, mem_of_mem_erase hother, rfl⟩
  | @sendDone r =>
    refine journal_drop rfl rfl (Set.union_subset_union_right _ ?_)
    by_cases hp : r.primary = party <;> simp [Process.owed, BatcherRole.owed, hp]
  | crash =>
    refine journal_drop rfl rfl ?_
    rintro s (⟨baf, hbaf, -⟩ | hs)
    · cases hbaf
    · exact absurd hs (Set.notMem_empty s)
  | reconfigure _ _ _ hnew | restart _ hnew =>
    obtain ⟨hbatches, hcontrol, -, -⟩ := configureBatcher_eq_ok hnew
    refine journal_drop hbatches rfl (Set.union_subset_union_right _ ?_)
    simp [Process.owed, BatcherRole.owed, hcontrol]

theorem Reachable.inv (h : b.Reachable) : b.Inv := by
  induction h with
  | refl => exact inv_blank
  | tail _ hstep ih => exact hstep.inv ih

theorem Reachable.journal (h : b.Reachable) :
    Relation.ReflTransGen Journal.Step (blank W party shard).journal b.journal := by
  induction h with
  | refl => exact .refl
  | tail hrun hstep ih => exact ih.tail (hstep.journal (Reachable.inv hrun))

theorem Reachable.backed (h : b.Reachable) : b.journal.Backed := by
  refine .of_run h.journal ⟨?_, ?_⟩
  · rintro s (⟨baf, hbaf, -⟩ | hs)
    · cases hbaf
    · exact absurd hs (Set.notMem_empty s)
  · rintro s ⟨baf, hbaf, -⟩
    cases hbaf

/-- The batch that a fragment attests to: it stands in the ledger of the fragment's primary at the fragment's
sequence, it has the fragment's digest, which is the digest of its requests, and as many requests as the
fragment says. -/
structure Stored (b : Batcher W party shard) (baf : BAF) (batch : FabricBatch) : Prop where
  found : (b.batches baf.primary)[baf.seq]? = some batch
  place : batch.At shard baf.primary baf.seq
  digest : batch.digest = baf.digest
  hashed : batch.requests.digest W.sha256 = baf.digest
  txCount : UInt64.ofNat batch.requests.length = baf.txCount

theorem Reachable.exists_stored (h : b.Reachable) {baf : BAF} (hholds : b.journal.Holds baf.statement) :
    ∃ batch, b.Stored baf batch := by
  simp only [Journal.Holds, Batcher.journal, BAF.statement, getElem?_map, Option.map_eq_some_iff] at hholds
  obtain ⟨batch, hbatch, hentry⟩ := hholds
  obtain ⟨hdigest, htxCount⟩ := Prod.mk.inj hentry
  have hhashed := h.inv.hashed baf.primary batch (mem_of_getElem? hbatch)
  exact ⟨batch, hbatch, Disk.at_index hbatch, hdigest, hhashed.symm.trans hdigest, htxCount⟩

/-! ## A run that sends a fragment -/

/-- The configuration of a shard with a single batcher. -/
def soleConfig (party : PartyID) (shard : ShardID) : BatcherNodeConfig where
  shards := [⟨shard, [party]⟩]
  consenters := [party]
  configSequence := 0
  verifySignature _ _ _ := .ok ()

def soleRole (W : Wire) (party : PartyID) (shard : ShardID) : BatcherRole W party shard where
  batchers := [party]
  n := 1
  configSequence := 0
  verifySignature _ _ _ := .ok ()
  ledger := ⟨fun primary => if primary = party then some (newBatchLedgerPart W (.empty shard primary)) else none⟩
  primary := 0
  seq := 0
  term := 0
  termChan := none
  stopChan := false
  control := .loop
  notifier := .listening

theorem configureBatcher_sole : configureBatcher W party (soleConfig party shard) (.blank shard) =
    .ok (soleRole W party shard) := by
  simp [configureBatcher, soleConfig, soleRole, newBatchLedgerArray, BatcherNodeConfig.parties,
    batchersFromConfig, Disk.blank]

theorem getPrimaryID_sole (term : Nat) : (soleRole W party shard).getPrimaryID term = .ok party := by
  simp [BatcherRole.getPrimaryID, BatcherRole.getPrimaryIndex, soleRole, Nat.mod_one]

theorem part_sole : (soleRole W party shard).ledger.part party = .ok (newBatchLedgerPart W (.empty shard party)) := by
  simp [BatchLedgerArray.part, soleRole]

/-- The only batcher of a shard takes two requests, stores the batch, sends its fragment and expects the next batch. -/
theorem exists_reachable_sent (W : Wire) (party : PartyID) (shard : ShardID) :
    ∃ (b : Batcher W party shard) (r : _), b.Reachable ∧ b.sent ≠ [] ∧ b.process = .up r ∧ r.seq = 1 ∧
      r.control = .waitForSecondaries := by
  have hpart : (soleRole W party shard).ledger.part party = _ := part_sole
  have hheight : (soleRole W party shard).ledger.height party = .ok 0 := by
    simp [BatchLedgerArray.height, hpart, newBatchLedgerPart, BatchChain.empty]
  have hseq : 0 = ((soleRole W party shard).ledger.batches party).length := by
    rw [batches_of_part hpart]
    rfl
  have hbaf : ∃ baf, (soleRole W party shard).createBAF (fun _ => .ok []) 0 party
      (twoRequests.digest W.sha256) 2 [] = .ok baf := ⟨_, rfl⟩
  obtain ⟨baf, hbaf⟩ := hbaf
  obtain ⟨ledger, happend⟩ := exists_append hpart hseq 0 twoRequests (twoRequests.digest W.sha256) baf.signature
  have hstarted : Reachable (W := W) _ :=
    .tail (.tail .refl (.restart (soleConfig party shard) configureBatcher_sole))
      (.role (.runPrimary rfl rfl (getPrimaryID_sole 0) hheight))
  have hbatched := (hstarted.tail (.role (.secondariesReady rfl))).tail
    (.role (.batched rfl twoRequests (cons_ne_nil _ _)))
  have hstored := (hbatched.tail (.role (.signOwn rfl (fun _ => .ok []) hbaf))).tail (.role (.appendOwn rfl happend))
  have hsent := (hstored.tail (.startSend rfl)).tail (.sendBAF (mem_singleton.mpr rfl))
  refine ⟨_, _, hsent.tail (.sendDone rfl (mem_singleton.mpr rfl)), by simp, rfl, rfl, ?_⟩
  simp

/-- **A batcher attests only to what it has stored, and never to two batches in one place**: in every run, with
any terms, configurations, batches from primaries and crashes. -/
theorem Reachable.attested (h : b.Reachable) : (∀ baf, baf ∈ b.inflight ∨ baf ∈ b.sent → ∃ batch, b.Stored baf batch) ∧
      ∀ baf ∈ b.sent, ∀ baf' ∈ b.sent, baf.shard = baf'.shard → baf.primary = baf'.primary →
        baf.seq = baf'.seq → baf.digest = baf'.digest := by
  have hbacked := h.backed
  refine ⟨fun baf hbaf => h.exists_stored ?_, fun baf hbaf baf' hbaf' _ hprimary hseq => ?_⟩
  · rcases hbaf with hbaf | hbaf
    · exact hbacked.owed _ (.inl ⟨baf, hbaf, rfl⟩)
    · exact hbacked.said _ ⟨baf, hbaf, rfl⟩
  · have hentry := hbacked.entry_eq ⟨baf, hbaf, rfl⟩ ⟨baf', hbaf', rfl⟩ hprimary hseq
    exact congrArg Prod.fst hentry

/-- The hypothesis can be met by a batcher that has sent a fragment. -/
theorem attested_sole : ∃ b : Batcher refWire 1 1, b.sent ≠ [] ∧
    (∀ baf, baf ∈ b.inflight ∨ baf ∈ b.sent → ∃ batch, b.Stored baf batch) ∧
      ∀ baf ∈ b.sent, ∀ baf' ∈ b.sent, baf.shard = baf'.shard → baf.primary = baf'.primary →
        baf.seq = baf'.seq → baf.digest = baf'.digest := by
  obtain ⟨b, r, hb, hsent, -⟩ := exists_reachable_sent refWire 1 1
  exact ⟨b, hsent, hb.attested⟩

end Batcher

end Arma
