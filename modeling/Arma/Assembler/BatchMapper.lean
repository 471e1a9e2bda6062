import Arma.Assembler.Ledger
import Arma.Lib.Keyed

/-!
# The mapper of batches

Model of `BatchMapper` (`node/assembler/batch_mapper.go`), on which the caches and the heap of the prefetch index rest.
A mapper finds an entry by the sequence and the digest; shard and primary are those of the mapper, or it panics.

`Keeps` is what every entry satisfies. `put_spec` and `remove_spec` say that a list of batches for each sequence is a
map from batches to values.
-/

namespace Arma

open Arma.Lib Outcome List Function

structure ShardPrimary where
  shard : ShardID
  primary : PartyID
  deriving DecidableEq, Repr

def BatchIDKey.partition (id : BatchIDKey) : ShardPrimary := ⟨id.shard, id.primary⟩

/-- In a partition, an id is its sequence and its digest. -/
theorem BatchIDKey.eq_iff_of_partition {id id' : BatchIDKey} (h : id.partition = id'.partition) :
    id = id' ↔ id.seq = id'.seq ∧ id.digest = id'.digest := by
  rw [partition, partition, ShardPrimary.mk.injEq] at h
  rw [BatchIDKey.mk.injEq]
  tauto

def FabricBatch.batchID (b : FabricBatch) : BatchIDKey := ⟨b.shard, b.primary, b.seq, b.digest⟩

inductive IndexErr where
  | batchAlreadyExists
  | batchDoesNotExist
  | batchTooLarge
  | operationCancelled
  | nothingToEvict
  deriving DecidableEq, Repr

/-- `BatchMapper`. A sequence without batches has no entry. -/
structure BatchMapper (V : Type) where
  partition : ShardPrimary
  seqToBatches : BatchSequence → List (BatchIDKey × V)

namespace BatchMapper

variable {V : Type}

def new (V : Type) (partition : ShardPrimary) : BatchMapper V := ⟨partition, fun _ => []⟩

variable (m : BatchMapper V)

def assertShardAndParty (batchId : BatchIDKey) : Outcome Unit :=
  if m.partition.shard ≠ batchId.shard ∨ m.partition.primary ≠ batchId.primary then
    .error (.panic (s!"batch of shard {batchId.shard} and primary {batchId.primary} is not compatible with mapper " ++
      s!"<{m.partition.shard},{m.partition.primary}>"))
  else .ok ()

def set (seq : BatchSequence) (batches : List (BatchIDKey × V)) : BatchMapper V :=
  { m with seqToBatches := update m.seqToBatches seq batches }

/-- `insert`: the first entry with the digest is overwritten, or left. -/
def insert (batchId : BatchIDKey) (value : V) (overwrite : Bool) : Outcome (BatchMapper V × Bool) := do
  m.assertShardAndParty batchId
  let batches := m.seqToBatches batchId.seq
  match batches.findIdx? (·.1.digest = batchId.digest) with
  | some idx =>
    if overwrite then return (m.set batchId.seq (batches.modify idx fun e => (e.1, value)), true)
    else return (m, false)
  | none => return (m.set batchId.seq (batches ++ [(batchId, value)]), true)

def put (batchId : BatchIDKey) (value : V) : Outcome (BatchMapper V) := do
  let (m, _) ← m.insert batchId value true
  return m

def get (batchId : BatchIDKey) : Outcome (Except IndexErr V) := do
  m.assertShardAndParty batchId
  match (m.seqToBatches batchId.seq).find? (·.1.digest = batchId.digest) with
  | some e => return .ok e.2
  | none => return .error .batchDoesNotExist

def has (batchId : BatchIDKey) : Outcome Bool := do
  let r ← m.get batchId
  return r.isOk

def remove (batchId : BatchIDKey) : Outcome (BatchMapper V × Except IndexErr V) := do
  m.assertShardAndParty batchId
  let batches := m.seqToBatches batchId.seq
  match batches.find? (·.1.digest = batchId.digest) with
  | some e => return (m.set batchId.seq (batches.eraseP (·.1.digest = batchId.digest)), .ok e.2)
  | none => return (m, .error .batchDoesNotExist)

/-- **What every entry satisfies**: it is filed under its sequence, it is of the partition, and `R` holds of it. -/
def Keeps (R : BatchIDKey → V → Prop) : Prop :=
  ∀ seq e, e ∈ m.seqToBatches seq → e.1.seq = seq ∧ e.1.partition = m.partition ∧ R e.1 e.2

variable {m m' : BatchMapper V} {R : BatchIDKey → V → Prop} {batchId : BatchIDKey}

theorem keeps_new (partition : ShardPrimary) : (new V partition).Keeps R := by
  rintro seq e ⟨⟩

theorem assertShardAndParty_eq_ok {u} : m.assertShardAndParty batchId = .ok u ↔ batchId.partition = m.partition := by
  unfold assertShardAndParty BatchIDKey.partition
  obtain ⟨⟨shard, primary⟩, _⟩ := m
  split
  · rename_i hne
    simp only [reduceCtorEq, false_iff, ShardPrimary.mk.injEq, not_and_or]
    exact hne.imp Ne.symm Ne.symm
  · rename_i heq
    simp only [not_or, not_not] at heq
    simp [heq.1, heq.2]

theorem Keeps.set (h : m.Keeps R) {seq batches}
    (hbatches : ∀ e ∈ batches, e.1.seq = seq ∧ e.1.partition = m.partition ∧ R e.1 e.2) :
    (m.set seq batches).Keeps R := by
  intro seq' e he
  change e ∈ update m.seqToBatches seq batches seq' at he
  by_cases hseq : seq' = seq
  · subst hseq
    rw [update_self] at he
    exact hbatches e he
  · rw [update_of_ne hseq] at he
    exact h seq' e he

/-- **What `insert` does** if it does not overwrite: the entry comes to those of its sequence, unless one of them has
the digest. -/
theorem insert_eq_ok {value inserted} (h : m.insert batchId value false = .ok (m', inserted)) :
    batchId.partition = m.partition ∧ (inserted = false ∧ m' = m ∨ inserted = true ∧
      m' = m.set batchId.seq (m.seqToBatches batchId.seq ++ [(batchId, value)]) ∧
      ∀ e ∈ m.seqToBatches batchId.seq, e.1.digest ≠ batchId.digest) := by
  simp only [BatchMapper.insert, bind_eq_ok, assertShardAndParty_eq_ok] at h
  obtain ⟨-, hpartition, h⟩ := h
  refine ⟨hpartition, ?_⟩
  split at h
  · cases h
    exact .inl ⟨rfl, rfl⟩
  · next hnone =>
    cases h
    exact .inr ⟨rfl, rfl, by simpa using hnone⟩

/-- **What `Remove` does**: an entry with the digest leaves its sequence, or there is none. -/
def Removed (m : BatchMapper V) (batchId : BatchIDKey) (m' : BatchMapper V) (r : Except IndexErr V) : Prop :=
  (∃ e, r = .ok e.2 ∧ e.1.digest = batchId.digest ∧ m'.partition = m.partition ∧
    (m.seqToBatches batchId.seq).Perm (e :: m'.seqToBatches batchId.seq) ∧
    ∀ seq, seq ≠ batchId.seq → m'.seqToBatches seq = m.seqToBatches seq) ∨
  r = .error .batchDoesNotExist ∧ m' = m ∧ ∀ e ∈ m.seqToBatches batchId.seq, e.1.digest ≠ batchId.digest

theorem remove_eq_ok {r} (h : m.remove batchId = .ok (m', r)) :
    batchId.partition = m.partition ∧ m.Removed batchId m' r := by
  simp only [BatchMapper.remove, bind_eq_ok, assertShardAndParty_eq_ok] at h
  obtain ⟨-, hpartition, h⟩ := h
  refine ⟨hpartition, ?_⟩
  split at h
  · next e hfind =>
    cases h
    refine .inl ⟨e, rfl, by simpa using find?_some hfind, rfl, ?_, fun seq hseq => update_of_ne hseq ..⟩
    simp only [set, update_self]
    exact perm_cons_eraseP hfind
  · next hnone =>
    cases h
    exact .inr ⟨rfl, rfl, by simpa using hnone⟩

theorem Keeps.insert {value inserted} (h : m.Keeps R) (hvalue : R batchId value)
    (hinsert : m.insert batchId value false = .ok (m', inserted)) : m'.Keeps R ∧ m'.partition = m.partition := by
  obtain ⟨hpartition, ⟨-, rfl⟩ | ⟨-, rfl, -⟩⟩ := insert_eq_ok hinsert
  · exact ⟨h, rfl⟩
  · refine ⟨h.set fun e he => ?_, rfl⟩
    rcases mem_append.mp he with hold | hnew
    · exact h _ e hold
    · obtain rfl := mem_singleton.mp hnew
      exact ⟨rfl, hpartition, hvalue⟩

/-- **What is removed is filed under that very id.** -/
theorem Keeps.remove {r} (h : m.Keeps R) (hremove : m.remove batchId = .ok (m', r)) :
    m'.Keeps R ∧ m'.partition = m.partition ∧ ∀ value, r = .ok value → R batchId value := by
  obtain ⟨hid, ⟨e, rfl, hdigest, hpartition, hperm, hothers⟩ | ⟨rfl, rfl, -⟩⟩ := remove_eq_ok hremove
  · obtain ⟨hseq, hpart, hR⟩ := h _ e (hperm.mem_iff.mpr mem_cons_self)
    have hkey : e.1 = batchId := (BatchIDKey.eq_iff_of_partition (hpart.trans hid.symm)).mpr ⟨hseq, hdigest⟩
    refine ⟨fun seq e' he' => ?_, hpartition, fun value hvalue => ?_⟩
    · rw [hpartition]
      by_cases hs : seq = batchId.seq
      · subst hs
        exact h _ e' (hperm.mem_iff.mpr (mem_cons_of_mem _ he'))
      · exact h seq e' (hothers seq hs ▸ he')
    · cases hvalue
      exact hkey ▸ hR
  · exact ⟨h, rfl, nofun⟩

/-! ## The mapper as a map -/

variable {id : BatchIDKey}

/-- The value of the first entry with the digest. -/
def valueAt (batches : List (BatchIDKey × V)) (digest : Bytes) : Option V :=
  (batches.find? (·.1.digest = digest)).map Prod.snd

def lookup (m : BatchMapper V) (id : BatchIDKey) : Option V := valueAt (m.seqToBatches id.seq) id.digest

/-- A digest stands once in a sequence. -/
def Distinct (m : BatchMapper V) : Prop := ∀ seq, ((m.seqToBatches seq).map (·.1.digest)).Nodup

theorem valueAt_modify {l} {digest} (value : V) : ∀ {idx}, l.findIdx? (·.1.digest = digest) = some idx →
    (l.modify idx fun e => (e.1, value)).map (·.1.digest) = l.map (·.1.digest) ∧
    ∀ d, valueAt (l.modify idx fun e => (e.1, value)) d = if d = digest then some value else valueAt l d := by
  induction l with
  | nil => simp
  | cons e l ih =>
    intro idx hidx
    rw [findIdx?_cons] at hidx
    by_cases he : e.1.digest = digest
    · obtain rfl : 0 = idx := by simpa [he] using hidx
      refine ⟨by simp, fun d => ?_⟩
      by_cases hd : d = digest
      · simp [valueAt, he, hd]
      · simp [valueAt, he, hd, Ne.symm hd]
    · obtain ⟨idx, hrest, rfl⟩ : ∃ i, l.findIdx? (·.1.digest = digest) = some i ∧ i + 1 = idx := by
        simpa [he] using hidx
      obtain ⟨hdigests, hvalue⟩ := ih hrest
      refine ⟨by simp [hdigests], fun d => ?_⟩
      by_cases hd : e.1.digest = d
      · subst hd
        simp [valueAt, he]
      · simpa [valueAt, hd] using hvalue d

theorem valueAt_append {l} {value : V} (h : ∀ e ∈ l, e.1.digest ≠ id.digest) (d : Bytes) :
    valueAt (l ++ [(id, value)]) d = if d = id.digest then some value else valueAt l d := by
  grind [valueAt]

theorem valueAt_eraseP {l : List (BatchIDKey × V)} {digest} (h : (l.map (·.1.digest)).Nodup) (d : Bytes) :
    valueAt (l.eraseP (·.1.digest = digest)) d = if d = digest then none else valueAt l d := by
  induction l with
  | nil => simp [valueAt]
  | cons e l ih => grind [valueAt]

/-- **One key of the map is set**, or cleared. -/
structure Updated (m : BatchMapper V) (id : BatchIDKey) (value : Option V) (m' : BatchMapper V) : Prop where
  partition_eq : m'.partition = m.partition
  distinct : m'.Distinct
  lookup_eq : ∀ {id'}, id'.partition = m.partition → m'.lookup id' = if id' = id then value else m.lookup id'

section

variable (hm : m.Distinct) (hid : id.partition = m.partition)
include hm hid

theorem Distinct.set {batches} {value} (hnodup : (batches.map (·.1.digest)).Nodup)
    (hvalue : ∀ d, valueAt batches d = if d = id.digest then value else valueAt (m.seqToBatches id.seq) d) :
    m.Updated id value (m.set id.seq batches) where
  partition_eq := rfl
  distinct seq := by
    by_cases hseq : seq = id.seq
    · simpa [BatchMapper.set, hseq] using hnodup
    · simpa [BatchMapper.set, hseq] using hm seq
  lookup_eq {id'} hid' := by
    have hkey := BatchIDKey.eq_iff_of_partition (hid'.trans hid.symm)
    by_cases hseq : id'.seq = id.seq
    · simp [lookup, BatchMapper.set, hseq, hvalue, hkey]
    · simp [lookup, BatchMapper.set, hseq, hkey]

theorem put_spec (value : V) : ∃ m', m.put id value = .ok m' ∧ m.Updated id (some value) m' := by
  have hassert : m.assertShardAndParty id = .ok () := assertShardAndParty_eq_ok.mpr hid
  simp only [put, BatchMapper.insert, hassert, ok_bind]
  cases hidx : (m.seqToBatches id.seq).findIdx? (·.1.digest = id.digest) with
  | some idx =>
    obtain ⟨hdigests, hvalue⟩ := valueAt_modify value hidx
    exact ⟨_, rfl, hm.set hid (by rw [hdigests]; exact hm _) hvalue⟩
  | none =>
    have hnone : ∀ e ∈ m.seqToBatches id.seq, e.1.digest ≠ id.digest := by simpa using hidx
    refine ⟨_, rfl, hm.set hid ?_ (valueAt_append hnone)⟩
    rw [map_append, nodup_append_comm]
    simpa using ⟨fun k v he => hnone (k, v) he, hm id.seq⟩

theorem remove_spec : ∃ m' r, m.remove id = .ok (m', r) ∧ m.Updated id none m' := by
  have hassert : m.assertShardAndParty id = .ok () := assertShardAndParty_eq_ok.mpr hid
  simp only [remove, hassert, ok_bind]
  cases hfind : (m.seqToBatches id.seq).find? (·.1.digest = id.digest) with
  | some e =>
    refine ⟨_, _, rfl, hm.set hid ?_ (valueAt_eraseP (hm _))⟩
    exact (hm id.seq).sublist ((eraseP_sublist ..).map _)
  | none =>
    refine ⟨m, _, rfl, rfl, hm, fun {id'} _ => ?_⟩
    split
    · next heq => rw [heq, lookup, valueAt, hfind]; rfl
    · rfl

end

theorem get_eq (hid : id.partition = m.partition) :
    m.get id = .ok (((m.lookup id).map Except.ok).getD (.error .batchDoesNotExist)) := by
  rw [get, (assertShardAndParty_eq_ok (u := ())).mpr hid, lookup, valueAt]
  cases (m.seqToBatches id.seq).find? (·.1.digest = id.digest) <;> rfl

theorem has_eq (hid : id.partition = m.partition) : m.has id = .ok (m.lookup id).isSome := by
  rw [has, get_eq hid]
  cases m.lookup id <;> rfl

end BatchMapper

end Arma
