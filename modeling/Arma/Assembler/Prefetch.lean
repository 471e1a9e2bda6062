import Arma.Assembler.PrefetchIndex
import Arma.Assembler.Collate
import Arma.Batcher.Attest
import Arma.Lib.Interleave

/-!
# The batches on their way into the ledger

Model of the assembler's goroutines around the index: the streams from the batcher of the own party and the requests to
all batchers of a shard (`node/assembler/batch_fetcher.go`), the prefetcher that puts what they bring into the index
(`prefetcher.go`), the timers that remove batches from it or ask for them, and the collator, which pops a batch for each
ordered attestation and appends it to the ledger (`collator.go`).

* `pullSingleBatch` is what becomes of the answer of a batcher to a request: the hash of the data and the id are
  compared. What a stream brings is not compared with anything.
* A step is what a goroutine does under one lock, or with one value of a channel. Channels have no bound here, which
  leaves more runs. Where a call panics there is no step.
* The batcher of the own party streams genuine batches: their digest is the hash of their requests. The answers to
  requests, also its own, are any blocks. So are the decisions of the consenter.
* A timer that is stopped may have fired already, so a timer fires at any time after it was set.

**`Assembly.committed`**: every block that is appended is a config block, or its data are the requests of a batch with
the id that the block's metadata and its header name, and the header has their hash.
-/

namespace Arma

open Arma.Lib AssemblerLedger Outcome List Function PartitionPrefetchIndex

/-! ## Fetching a batch -/

/-- `BlockMetadataIndex_PartyShardConfigSequence`. -/
def indexPartyShardConfigSequence : Nat := indexOrderer

def newFabricBatchFromBlock (block : Block) : Outcome FabricBatch := do
  require (block.header ≠ none) "empty block header"
  require (block.data ≠ none) "empty block data"
  require (block.metadata.getD [] ≠ []) "empty block metadata"
  match (block.metadata.getD [])[indexPartyShardConfigSequence]? with
  | none => .error (.err "missing orderer metadata")
  | some buff => do
    require (FabricBatch.partyShardConfigSequenceSize ≤ buff.length) "bad orderer metadata"
    return block

/-- `pullSingleBatch`: what is sent into the channel of `GetBatch`, when the batcher answers with a block or not at
all. -/
def pullSingleBatch (W : Wire) (batchID : BatchIDKey) (response : Option Block) : Option FabricBatch :=
  match response with
  | none => none
  | some block =>
    match newFabricBatchFromBlock block with
    | .error _ => none
    | .ok fb =>
      if W.digest (block.data.getD []) ≠ (block.header.map BlockHeader.dataHash).getD [] then none
      else if fb.batchID ≠ batchID then none
      else some fb

variable {fb : FabricBatch}

theorem newFabricBatchFromBlock_eq_ok {block} (h : newFabricBatchFromBlock block = .ok fb) : fb = block := by
  simp only [newFabricBatchFromBlock, bind_eq_ok] at h
  obtain ⟨-, -, -, -, -, -, h⟩ := h
  split at h
  · cases h
  · simp only [bind_eq_ok] at h
    obtain ⟨-, -, h⟩ := h
    exact (Except.ok.inj h).symm

/-- **What comes of a request is a genuine batch with that id.** -/
theorem pullSingleBatch_eq_some {W batchID response}
    (h : pullSingleBatch W batchID response = some fb) : fb.batchID = batchID ∧ fb.Hashed W := by
  unfold pullSingleBatch at h
  split at h
  · cases h
  · rename_i block
    split at h
    · cases h
    · rename_i fb' hfb
      obtain rfl := newFabricBatchFromBlock_eq_ok hfb
      split at h
      · cases h
      · rename_i hdigest
        split at h
        · cases h
        · rename_i hid
          cases h
          exact ⟨not_not.mp hid, (not_not.mp hdigest).symm⟩

/-! ## The state -/

/-- Where `handleReplication` of a shard stands. -/
inductive ReplicationControl where
  | receive
  | taken (batch : FabricBatch)
  | put (batch : FabricBatch)

/-- The batch that a goroutine of a shard has in hand. -/
def ReplicationControl.inHand : ReplicationControl → Option FabricBatch
  | .receive => none
  | .taken batch => some batch
  | .put batch => some batch

/-- The stream of a shard: the channel of `Replicate`, and the goroutine that empties it. -/
structure ShardReplication where
  chan : List FabricBatch
  control : ReplicationControl

/-- A call of `GetBatch`: the batchers that have not answered, the answers in its channel, and those it has read. -/
structure Fetch where
  batchID : BatchIDKey
  waiting : List PartyID
  res : List (Option FabricBatch)
  count : Nat
  batchers : Nat

/-- Where `processOrderedBatchAttestations` stands. -/
inductive Collating where
  | receive
  | taken (oba : AvailableBatchOrdered)
  /-- In the loop of `PopOrWait`, with `wasBatchRequestedFlag`. -/
  | pop (oba : AvailableBatchOrdered) (requested : Bool)
  | collated (oba : AvailableBatchOrdered) (batch : FabricBatch)
  | returned

/-- The assembler between two starts. -/
structure Assembly where
  indexes : ShardPrimary → Option PartitionPrefetchIndex
  replication : ShardID → ShardReplication
  requests : List BatchIDKey
  fetches : List Fetch
  /-- What `GetBatch` has returned and `PutForce` has not taken yet. -/
  fetched : List FabricBatch
  timers : List FabricBatch
  /-- The ids with a censorship monitor. -/
  monitors : List BatchIDKey
  control : Collating
  ledger : List Block
  configBlockNumber : Nat

namespace Assembly

def setIndex (a : Assembly) (pi : PartitionPrefetchIndex) : Assembly :=
  { a with indexes := update a.indexes pi.partition (some pi) }

/-- The goroutine of a shard goes on. -/
def setReplication (a : Assembly) (shard : ShardID) (r : ShardReplication) : Assembly :=
  { a with replication := update a.replication shard r }

/-- Where the goroutine is after a part of `Put`: an error is logged. -/
def afterPut (batch : FabricBatch) : Except IndexErr Unit → ReplicationControl
  | .ok _ => .put batch
  | .error _ => .receive

/-- The attestation that the replicator makes of a block of a decision, whatever the decision is. -/
def Made (W : Wire) (oba : AvailableBatchOrdered) : Prop :=
  ∃ header sigs index acb, availableBatchOrdered W header sigs index acb = .ok oba

/-- **One step** of one of the goroutines. `batchers` are those of a shard in the config. -/
inductive Step (W : Wire) (batchers : ShardID → Option (List PartyID)) (a : Assembly) : Assembly → Prop
  /-- The batcher of the own party streams a block of the shard. -/
  | stream {shard block fb} (hfb : newFabricBatchFromBlock block = .ok fb) (hhashed : fb.Hashed W) : Step W batchers a
        (a.setReplication shard { a.replication shard with chan := (a.replication shard).chan ++ [fb] })
  | takeBatch {shard batch rest}
      (hat : (a.replication shard).control = .receive) (hchan : (a.replication shard).chan = batch :: rest) :
      Step W batchers a (a.setReplication shard ⟨rest, .taken batch⟩)
  | putEnter {shard batch pi pi' r} (hat : (a.replication shard).control = .taken batch)
      (hpi : a.indexes batch.batchID.partition = some pi) (hput : pi.putEnter batch = .ok (pi', r)) :
      Step W batchers a ((a.setIndex pi').setReplication shard ⟨(a.replication shard).chan, afterPut batch r⟩)
  /-- There is no room for a batch that is asked for. -/
  | putEvict {shard batch pi pi' r}
      (hat : (a.replication shard).control = .put batch) (hpi : a.indexes batch.batchID.partition = some pi)
      (hfull : pi.full batch = true) (hrunning : pi.cancelled = false) (hasked : batch.seq ≤ pi.maxPoppedCallSeq)
      (hevict : pi.evictOldestBatch = .ok (pi', r)) :
      Step W batchers a ((a.setIndex pi').setReplication shard ⟨(a.replication shard).chan, afterPut batch r⟩)
  /-- There is no room, and the index was stopped. -/
  | putFail {shard batch pi}
      (hat : (a.replication shard).control = .put batch) (hpi : a.indexes batch.batchID.partition = some pi)
      (hfull : pi.full batch = true) (hfail : pi.cancelled = true) :
      Step W batchers a (a.setReplication shard ⟨(a.replication shard).chan, .receive⟩)
  /-- There is room. A batch that the heap refuses has a timer too. -/
  | putSave {shard batch pi pi' r} (hat : (a.replication shard).control = .put batch)
      (hpi : a.indexes batch.batchID.partition = some pi) (hroom : pi.full batch = false)
      (hsave : pi.saveOrdinaryBatch batch = .ok (pi', r)) :
      Step W batchers a { (a.setIndex pi').setReplication shard ⟨(a.replication shard).chan, .receive⟩ with
        timers := batch :: a.timers }
  | expire {batch pi pi' r} (htimer : batch ∈ a.timers) (hpi : a.indexes batch.batchID.partition = some pi)
      (hremove : pi.removeUnsafe batch.batchID = .ok (pi', r)) : Step W batchers a (a.setIndex pi')
  /-- `handleBatchRequests` calls `GetBatch`, which asks all batchers of the shard. -/
  | takeRequest {id rest parties}
      (hrequests : a.requests = id :: rest) (hbatchers : batchers id.shard = some parties) :
      Step W batchers a
        { a with requests := rest, fetches := a.fetches ++ [⟨id, parties, [], 0, parties.length⟩] }
  /-- A batcher answers with any block, or fails to. -/
  | answer {before after f party}
      (hfetches : a.fetches = before ++ f :: after) (hwaiting : party ∈ f.waiting) (response : Option Block) :
      Step W batchers a { a with fetches := before ++ { f with
        waiting := f.waiting.erase party
        res := f.res ++ [pullSingleBatch W f.batchID response] } :: after }
  | found {before after f fb rest}
      (hfetches : a.fetches = before ++ f :: after) (hres : f.res = some fb :: rest) (hid : fb.batchID = f.batchID) :
      Step W batchers a { a with fetches := before ++ after, fetched := fb :: a.fetched }
  | notFound {before after f answer rest} (hfetches : a.fetches = before ++ f :: after)
      (hres : f.res = answer :: rest) (hid : ∀ fb, answer = some fb → fb.batchID ≠ f.batchID)
      (hcount : f.count + 1 ≠ f.batchers) :
      Step W batchers a { a with fetches := before ++ { f with res := rest, count := f.count + 1 } :: after }
  | cancelFetch {before after f} (hfetches : a.fetches = before ++ f :: after) :
      Step W batchers a { a with fetches := before ++ after }
  | putForce {before after fb pi pi' r} (hfetched : a.fetched = before ++ fb :: after)
      (hpi : a.indexes fb.batchID.partition = some pi) (hput : pi.putForce fb = .ok (pi', r)) :
      Step W batchers a { a.setIndex pi' with fetched := before ++ after }
  | takeOba {oba} (hat : a.control = .receive) (hmade : Made W oba) :
      Step W batchers a { a with control := .taken oba }
  | appendConfig {oba ledger} (hat : a.control = .taken oba) (hshard : oba.availableBatch.shard = shardIDConsensus)
      (happend : AssemblerLedger.appendConfig W a.ledger oba = .ok ledger) :
      Step W batchers a { a with
        ledger
        control := if a.configBlockNumber < (oba.commonBlock.header.map BlockHeader.number).getD 0 then .returned
          else .receive }
  | popEnter {oba pi pi'} (hat : a.control = .taken oba) (hshard : oba.availableBatch.shard ≠ shardIDConsensus)
      (hpi : a.indexes oba.availableBatch.partition = some pi) (hpop : pi.popEnter oba.availableBatch = .ok pi') :
      Step W batchers a { a.setIndex pi' with control := .pop oba false }
  | popFound {oba requested pi pi' batch} (hat : a.control = .pop oba requested)
      (hpi : a.indexes oba.availableBatch.partition = some pi)
      (hpop : pi.popRound oba.availableBatch = .ok (pi', .ok batch)) :
      Step W batchers a { a.setIndex pi' with control := .collated oba batch }
  /-- The batch is not there: `PopOrWait` asks for it if the stream is past it, or sets the monitor, and waits. -/
  | popWait {oba requested pi pi'}
      (hat : a.control = .pop oba requested) (hpi : a.indexes oba.availableBatch.partition = some pi)
      (hpop : pi.popRound oba.availableBatch = .ok (pi', .error .batchDoesNotExist)) :
      Step W batchers a { a.setIndex pi' with
        requests := a.requests ++
          if requested = false ∧ pi.doubleDigest oba.availableBatch = true then [oba.availableBatch] else []
        monitors := if requested = false ∧ pi.doubleDigest oba.availableBatch = false
          then oba.availableBatch :: a.monitors else a.monitors
        control := .pop oba (requested || pi.doubleDigest oba.availableBatch) }
  | popCancelled {oba requested pi pi'}
      (hat : a.control = .pop oba requested) (hpi : a.indexes oba.availableBatch.partition = some pi)
      (hpop : pi.popRound oba.availableBatch = .ok (pi', .error .operationCancelled)) :
      Step W batchers a { a.setIndex pi' with control := .returned }
  | monitor {id} (hmonitor : id ∈ a.monitors) : Step W batchers a { a with
        requests := a.requests ++ [id]
        control := match a.control with
          | .pop oba requested => .pop oba (requested || oba.availableBatch = id)
          | control => control }
  | append {oba batch ledger}
      (hat : a.control = .collated oba batch) (happend : AssemblerLedger.append W a.ledger batch oba = .ok ledger) :
      Step W batchers a { a with ledger, control := .receive }
  | stop : Step W batchers a { a with indexes := fun p => (a.indexes p).map stop }
  | close (hat : a.control = .receive) : Step W batchers a { a with control := .returned }

def Run (W : Wire) (batchers : ShardID → Option (List PartyID)) : Assembly → Assembly → Prop :=
  Relation.ReflTransGen (Step W batchers)

/-- The assembler starts, with any ledger: every index of a partition is a new one, and nothing is on its way. -/
structure Begins (a : Assembly) : Prop where
  indexes : ∀ p pi, a.indexes p = some pi → ∃ maxSizeBytes, pi = .new p maxSizeBytes
  replication : ∀ shard, a.replication shard = ⟨[], .receive⟩
  fetches : a.fetches = []
  fetched : a.fetched = []
  control : a.control = .receive

/-! ## What is appended -/

/-- What a block's ORDERER entry says. -/
def Reads (W : Wire) (block : Block) (v : BlockMetadataValues) : Prop :=
  ∃ md orderer, block.metadata = some md ∧ md[indexOrderer]? = some orderer ∧
    assemblerBlockMetadataFromBytes W orderer = .ok v

/-- **A block with the data of a batch**: the batch has the id that the metadata and the header name, and the header
has the hash of its requests. -/
structure Collated (W : Wire) (block : Block) (v : BlockMetadataValues) (header : BlockHeader) (batch : FabricBatch) :
    Prop where
  reads : Reads W block v
  header_eq : block.header = some header
  data_eq : block.data = some batch.requests
  batchID : batch.batchID = ⟨v.shard, v.primary, v.seq, header.dataHash⟩
  digest : W.digest batch.requests = header.dataHash

/-- A block that may be in the ledger: a config block, or one with the data of its batch. -/
def Committed (W : Wire) (block : Block) : Prop :=
  (∃ v, Reads W block v ∧ v.shard = shardIDConsensus ∧ isConfigBlock W block = true) ∨
    ∃ v header batch, v.shard ≠ shardIDConsensus ∧ Collated W block v header batch

variable {W : Wire} {batchers : ShardID → Option (List PartyID)} {a a' a₀ : Assembly}

variable {oba : AvailableBatchOrdered}

theorem Made.reads (h : Made W oba) : ∃ v header, Reads W oba.commonBlock v ∧ oba.commonBlock.header = some header ∧
      oba.availableBatch = ⟨v.shard, v.primary, v.seq, header.dataHash⟩ := by
  obtain ⟨hdr, sigs, index, acb, h⟩ := h
  simp only [availableBatchOrdered, bind_eq_ok, deref_eq_ok, index_eq_ok, orPanic_eq_ok] at h
  obtain ⟨md, hmd, raw, hraw, v, hv, header, hheader, signatures, -, hret⟩ := h
  cases hret
  exact ⟨v, header, ⟨md, raw, hmd, hraw, hv⟩, hheader, rfl⟩

theorem Reads.setSignatures {block v} (h : Reads W block v) {md md' sigs bytes} (hmd : block.metadata = some md)
    (hset : setSignatures W md sigs bytes = .ok md') (header : Option BlockHeader) (data) :
    Reads W ⟨header, data, some md'⟩ v := by
  obtain ⟨md₀, orderer, hmd₀, horderer, hv⟩ := h
  cases hmd.symm.trans hmd₀
  simp only [Arma.setSignatures, bind_eq_ok] at hset
  obtain ⟨-, -, hret⟩ := hset
  cases hret
  have hne : indexSignatures ≠ indexOrderer := by decide
  exact ⟨_, orderer, rfl, by rw [getElem?_set_ne hne]; exact horderer, hv⟩

/-- **`Append` of a genuine batch** with the id in the attestation. -/
theorem append_committed {batch ledger ledger'}
    (hmade : Made W oba) (hshard : oba.availableBatch.shard ≠ shardIDConsensus)
    (hid : batch.batchID = oba.availableBatch) (hhashed : batch.Hashed W)
    (h : AssemblerLedger.append W ledger batch oba = .ok ledger') :
    ∃ block, ledger' = ledger ++ [block] ∧ Committed W block := by
  obtain ⟨v, header, hreads, hheader, hba⟩ := hmade.reads
  simp only [AssemblerLedger.append, bind_eq_ok, deref_eq_ok] at h
  obtain ⟨arranged, -, md, hmd, md', hset, happend⟩ := h
  obtain ⟨hconcat, -⟩ := appendBlock_eq_ok happend
  have hdigest : batch.digest = header.dataHash := congrArg BatchIDKey.digest (hid.trans hba)
  rw [hba] at hshard
  exact ⟨_, hconcat, .inr ⟨v, header, batch, hshard, hreads.setSignatures hmd hset _ _, hheader, rfl, hid.trans hba,
    hhashed.symm.trans hdigest⟩⟩

theorem appendConfig_committed {ledger ledger'} (hmade : Made W oba)
    (hshard : oba.availableBatch.shard = shardIDConsensus)
    (h : AssemblerLedger.appendConfig W ledger oba = .ok ledger') :
    ∃ block, ledger' = ledger ++ [block] ∧ Committed W block := by
  obtain ⟨v, header, hreads, -, hba⟩ := hmade.reads
  rw [hba] at hshard
  unfold AssemblerLedger.appendConfig at h
  dsimp only at h
  split at h
  · cases h
  · rename_i hconfig
    have hconfig : isConfigBlock W oba.commonBlock = true := by simpa using hconfig
    simp only [bind_eq_ok] at h
    obtain ⟨arranged, -, h⟩ := h
    split at h
    · exact ⟨_, (appendBlock_eq_ok h).1, .inl ⟨v, hreads, hshard, hconfig⟩⟩
    · simp only [bind_eq_ok, deref_eq_ok] at h
      obtain ⟨md, hmd, md', hset, happend⟩ := h
      exact ⟨_, (appendBlock_eq_ok happend).1, .inl ⟨v, hreads.setSignatures hmd hset _ _, hshard, hconfig⟩⟩

/-! ## The invariant -/

theorem inHand_afterPut {batch r} (h : (afterPut batch r).inHand = some fb) : fb = batch := by
  cases r with
  | ok _ => exact (Option.some.inj h).symm
  | error _ => cases h

/-- What the collator has in hand: the attestation is one of the replicator's, and the batch is genuine and has its
id. -/
def CollatingOk (W : Wire) : Collating → Prop
  | .receive => True
  | .taken oba => Made W oba
  | .pop oba _ => Made W oba ∧ oba.availableBatch.shard ≠ shardIDConsensus
  | .collated oba batch => Made W oba ∧ oba.availableBatch.shard ≠ shardIDConsensus ∧
      batch.batchID = oba.availableBatch ∧ batch.Hashed W
  | .returned => True

/-- **Every batch on its way is genuine**, and is where its id says; `a₀` is the assembler at its start. -/
structure Inv (W : Wire) (a₀ a : Assembly) : Prop where
  indexes : ∀ p pi, a.indexes p = some pi → pi.partition = p ∧ pi.Holds (FabricBatch.Hashed W)
  chan : ∀ shard, ∀ fb ∈ (a.replication shard).chan, fb.Hashed W
  inHand : ∀ shard fb, (a.replication shard).control.inHand = some fb → fb.Hashed W
  fetches : ∀ f ∈ a.fetches, ∀ fb, some fb ∈ f.res → fb.Hashed W
  fetched : ∀ fb ∈ a.fetched, fb.Hashed W
  control : CollatingOk W a.control
  ledger : ∃ appended, a.ledger = a₀.ledger ++ appended ∧ ∀ block ∈ appended, Committed W block

theorem Begins.inv (h : Begins a) : Inv W a a where
  indexes p pi hpi := by
    obtain ⟨maxSizeBytes, rfl⟩ := h.indexes p pi hpi
    exact ⟨rfl, holds_new p maxSizeBytes _⟩
  chan shard fb hfb := by simp [h.replication] at hfb
  inHand shard fb hfb := by simp [h.replication, ReplicationControl.inHand] at hfb
  fetches f hf := by simp [h.fetches] at hf
  fetched fb hfb := by simp [h.fetched] at hfb
  control := by rw [h.control]; trivial
  ledger := ⟨[], by simp⟩

theorem Inv.setIndex (h : Inv W a₀ a) {p pi pi'}
    (hpi : a.indexes p = some pi) (hleaves : PartitionPrefetchIndex.Leaves (FabricBatch.Hashed W) pi pi') :
    Inv W a₀ (a.setIndex pi') where
  indexes q qi hqi := by
    change update a.indexes pi'.partition (some pi') q = some qi at hqi
    by_cases hq : q = pi'.partition
    · subst hq
      rw [update_self] at hqi
      cases hqi
      exact ⟨rfl, hleaves.2 (h.indexes p pi hpi).2⟩
    · rw [update_of_ne hq] at hqi
      exact h.indexes q qi hqi
  chan := h.chan
  inHand := h.inHand
  fetches := h.fetches
  fetched := h.fetched
  control := h.control
  ledger := h.ledger

theorem Inv.setReplication (h : Inv W a₀ a) {shard r}
    (hchan : ∀ fb ∈ r.chan, fb.Hashed W) (hinHand : ∀ fb, r.control.inHand = some fb → fb.Hashed W) :
    Inv W a₀ (a.setReplication shard r) where
  indexes := h.indexes
  chan shard' fb hfb := by
    change fb ∈ (update a.replication shard r shard').chan at hfb
    by_cases hs : shard' = shard
    · subst hs
      rw [update_self] at hfb
      exact hchan fb hfb
    · rw [update_of_ne hs] at hfb
      exact h.chan shard' fb hfb
  inHand shard' fb hfb := by
    change (update a.replication shard r shard').control.inHand = some fb at hfb
    by_cases hs : shard' = shard
    · subst hs
      rw [update_self] at hfb
      exact hinHand fb hfb
    · rw [update_of_ne hs] at hfb
      exact h.inHand shard' fb hfb
  fetches := h.fetches
  fetched := h.fetched
  control := h.control
  ledger := h.ledger

/-- The calls of `GetBatch`, the requests, the monitors and what has been fetched change. -/
theorem Inv.setFetches (h : Inv W a₀ a) {requests fetches fetched}
    (hfetches : ∀ f ∈ fetches, ∀ fb, some fb ∈ f.res → fb.Hashed W) (hfetched : ∀ fb ∈ fetched, fb.Hashed W) :
    Inv W a₀ { a with requests, fetches, fetched } where
  indexes := h.indexes
  chan := h.chan
  inHand := h.inHand
  fetches := hfetches
  fetched := hfetched
  control := h.control
  ledger := h.ledger

theorem Inv.setControl (h : Inv W a₀ a) {requests monitors control}
    (hcontrol : CollatingOk W control) : Inv W a₀ { a with requests, monitors, control } where
  indexes := h.indexes
  chan := h.chan
  inHand := h.inHand
  fetches := h.fetches
  fetched := h.fetched
  control := hcontrol
  ledger := h.ledger

theorem Inv.append (h : Inv W a₀ a) {ledger control} (hcontrol : CollatingOk W control)
    (hledger : ∃ block, ledger = a.ledger ++ [block] ∧ Committed W block) : Inv W a₀ { a with ledger, control } where
  indexes := h.indexes
  chan := h.chan
  inHand := h.inHand
  fetches := h.fetches
  fetched := h.fetched
  control := hcontrol
  ledger := by
    obtain ⟨block, rfl, hblock⟩ := hledger
    obtain ⟨appended, happended, hcommitted⟩ := h.ledger
    refine ⟨appended ++ [block], by rw [happended, append_assoc], fun b hb => ?_⟩
    rcases mem_append.mp hb with hold | hnew
    · exact hcommitted b hold
    · exact mem_singleton.mp hnew ▸ hblock

section Replication

variable {shard : ShardID} {batch : FabricBatch} {pi pi' : PartitionPrefetchIndex}

theorem Inv.stream (h : Inv W a₀ a) (hhashed : batch.Hashed W) :
    Inv W a₀ (a.setReplication shard { a.replication shard with chan := (a.replication shard).chan ++ [batch] }) :=
  h.setReplication (forall_mem_append.mpr ⟨h.chan shard, forall_mem_singleton.mpr hhashed⟩) (h.inHand shard)

theorem Inv.takeBatch (h : Inv W a₀ a) {rest} (hchan : (a.replication shard).chan = batch :: rest) :
    Inv W a₀ (a.setReplication shard ⟨rest, .taken batch⟩) := by
  obtain ⟨hbatch, hrest⟩ := forall_mem_cons.mp (hchan ▸ h.chan shard)
  refine h.setReplication hrest fun fb hfb => ?_
  cases hfb
  exact hbatch

theorem Inv.hashed (h : Inv W a₀ a) {control} (hat : (a.replication shard).control = control)
    (hin : control.inHand = some batch) : batch.Hashed W := h.inHand shard batch (hat ▸ hin)

/-- A step of `Put`, after which the goroutine is still in it or not. -/
theorem Inv.put (h : Inv W a₀ a) {control} (hpi : a.indexes batch.batchID.partition = some pi)
    (hleaves : PartitionPrefetchIndex.Leaves (FabricBatch.Hashed W) pi pi')
    (hcontrol : ∀ fb, control.inHand = some fb → fb.Hashed W) :
    Inv W a₀ ((a.setIndex pi').setReplication shard ⟨(a.replication shard).chan, control⟩) :=
  (h.setIndex hpi hleaves).setReplication (h.chan shard) hcontrol

end Replication

section Fetching

variable {before after : List Fetch} {f f' : Fetch}

theorem Inv.takeRequest (h : Inv W a₀ a) {requests} (hf : f.res = []) :
    Inv W a₀ { a with requests, fetches := a.fetches ++ [f] } :=
  h.setFetches (forall_mem_append.mpr ⟨h.fetches, forall_mem_singleton.mpr (by simp [hf])⟩) h.fetched

section

variable (h : Inv W a₀ a) (hfetches : a.fetches = before ++ f :: after)
include h hfetches

theorem Inv.setFetch (hres : (∀ fb, some fb ∈ f.res → fb.Hashed W) → ∀ fb, some fb ∈ f'.res → fb.Hashed W) :
    Inv W a₀ { a with fetches := before ++ f' :: after } :=
  h.setFetches (forall_mem_replace (hfetches ▸ h.fetches) hres) h.fetched

theorem Inv.answer {waiting id response} : Inv W a₀ { a with fetches := before ++
      { f with waiting, res := f.res ++ [pullSingleBatch W id response] } :: after } := by
  refine h.setFetch hfetches fun hres fb hfb => ?_
  rcases mem_append.mp hfb with hold | hnew
  · exact hres fb hold
  · exact (pullSingleBatch_eq_some (mem_singleton.mp hnew).symm).2

theorem Inv.found {fb rest}
    (hres : f.res = some fb :: rest) : Inv W a₀ { a with fetches := before ++ after, fetched := fb :: a.fetched } := by
  have hall : ∀ g ∈ before ++ f :: after, ∀ fb, some fb ∈ g.res → fb.Hashed W := hfetches ▸ h.fetches
  refine h.setFetches (forall_mem_remove hall) (forall_mem_cons.mpr ⟨?_, h.fetched⟩)
  exact hall f (by simp) fb (by simp [hres])

end

end Fetching

section Collating

variable {control : Collating}

theorem Inv.collating (h : Inv W a₀ a) (hat : a.control = control) : CollatingOk W control := hat ▸ h.control

theorem Inv.popFound (h : Inv W a₀ a) {requested pi pi' batch} (hat : a.control = .pop oba requested)
    (hpi : a.indexes oba.availableBatch.partition = some pi)
    (hpop : pi.popRound oba.availableBatch = .ok (pi', .ok batch)) :
    Inv W a₀ { a.setIndex pi' with control := .collated oba batch } := by
  obtain ⟨hmade, hshard⟩ := h.collating hat
  obtain ⟨hleaves, hbatch⟩ := popRound_spec (P := FabricBatch.Hashed W) hpop
  obtain ⟨hid, hhashed⟩ := hbatch (h.indexes _ _ hpi).2 _ rfl
  exact (h.setIndex hpi hleaves).setControl ⟨hmade, hshard, hid, hhashed⟩

theorem CollatingOk.monitor (id : BatchIDKey) : CollatingOk W control → CollatingOk W (match control with
      | .pop oba requested => .pop oba (requested || oba.availableBatch = id)
      | control => control) := by
  cases control <;> exact fun h => h

theorem Inv.stop (h : Inv W a₀ a) : Inv W a₀ { a with indexes := fun p => (a.indexes p).map stop } := by
  refine ⟨fun p pi hpi => ?_, h.chan, h.inHand, h.fetches, h.fetched, h.control, h.ledger⟩
  obtain ⟨pi₀, hpi₀, rfl⟩ := Option.map_eq_some_iff.mp hpi
  obtain ⟨hpartition, hholds⟩ := h.indexes p pi₀ hpi₀
  exact ⟨hpartition, stop_leaves.2 hholds⟩

end Collating

open PartitionPrefetchIndex in
/-- **Every step keeps the batches genuine.** -/
theorem Inv.step (h : Inv W a₀ a) (hstep : Step W batchers a a') : Inv W a₀ a' := by
  cases hstep with
  | stream _ hhashed => exact h.stream hhashed
  | takeBatch _ hchan => exact h.takeBatch hchan
  | putEnter hat hpi hput =>
    exact h.put hpi (putEnter_leaves hput) fun fb hfb => inHand_afterPut hfb ▸ h.hashed hat rfl
  | putEvict hat hpi _ _ _ hevict =>
    exact h.put hpi (evictOldestBatch_leaves hevict) fun fb hfb => inHand_afterPut hfb ▸ h.hashed hat rfl
  | putFail => exact h.setReplication (h.chan _) (by rintro fb ⟨⟩)
  | @putSave shard batch pi pi' _ hat hpi _ hsave =>
    have h' := @Inv.put W a a₀ shard batch pi pi' h .receive hpi (saveOrdinaryBatch_leaves (h.hashed hat rfl) hsave)
      (by rintro fb ⟨⟩)
    exact ⟨h'.indexes, h'.chan, h'.inHand, h'.fetches, h'.fetched, h'.control, h'.ledger⟩
  | expire _ hpi hremove => exact h.setIndex hpi (removeUnsafe_spec hremove).1
  | takeRequest => exact h.takeRequest rfl
  | answer hfetches => exact h.answer hfetches
  | found hfetches hres => exact h.found hfetches hres
  | notFound hfetches hres =>
    exact h.setFetch hfetches fun hf fb hfb => hf fb (hres ▸ mem_cons_of_mem _ hfb)
  | cancelFetch hfetches => exact h.setFetches (forall_mem_remove (hfetches ▸ h.fetches)) h.fetched
  | @putForce before after fb _ _ _ hfetched hpi hput =>
    have hall : ∀ b ∈ before ++ fb :: after, b.Hashed W := hfetched ▸ h.fetched
    exact (h.setIndex hpi (putForce_leaves (hall fb (by simp)) hput)).setFetches h.fetches (forall_mem_remove hall)
  | takeOba _ hmade => exact h.setControl hmade
  | appendConfig hat hshard happend =>
    refine h.append ?_ (appendConfig_committed (h.collating hat) hshard happend)
    split <;> trivial
  | popEnter hat hshard hpi hpop =>
    exact (h.setIndex hpi (popEnter_leaves hpop)).setControl ⟨h.collating hat, hshard⟩
  | popFound hat hpi hpop => exact h.popFound hat hpi hpop
  | popWait hat hpi hpop =>
    obtain ⟨hmade, hshard⟩ := h.collating hat
    exact (h.setIndex hpi (popRound_spec hpop).1).setControl ⟨hmade, hshard⟩
  | popCancelled _ hpi hpop => exact (h.setIndex hpi (popRound_spec hpop).1).setControl trivial
  | monitor => exact h.setControl (.monitor _ h.control)
  | append hat happend =>
    obtain ⟨hmade, hshard, hid, hhashed⟩ := h.collating hat
    exact h.append trivial (append_committed hmade hshard hid hhashed happend)
  | stop => exact h.stop
  | close => exact h.setControl trivial

theorem Inv.run (h : Inv W a₀ a) (hrun : Run W batchers a a') : Inv W a₀ a' := by
  induction hrun with
  | refl => exact h
  | tail _ hstep ih => exact ih.step hstep

/-- **The assembler never commits foreign data.** -/
theorem committed (hbegins : Begins a₀) (hrun : Run W batchers a₀ a) :
    ∃ appended, a.ledger = a₀.ledger ++ appended ∧ ∀ block ∈ appended, Committed W block :=
  (hbegins.inv.run hrun).ledger

/-- The first batch of party 1 in shard 1. -/
def firstBatch (W : Wire) : FabricBatch := newFabricBatchFromRequests 1 1 0 [[7]] (W.digest [[7]]) 0 [] []

/-- The attestation of its block. -/
def firstBatchOba (W : Wire) : AvailableBatchOrdered :=
  Collation.obaAt W ⟨1, W.blockHeaderHash Collation.genesisHeader, W.digest [[7]]⟩ ⟨1, 1, 0, W.digest [[7]]⟩ ⟨1, 1, 0⟩ 1

/-- An assembler with the genesis block starts. -/
def firstAssembly (W : Wire) : Assembly where
  indexes p := some (.new p 100)
  replication _ := ⟨[], .receive⟩
  requests := []
  fetches := []
  fetched := []
  timers := []
  monitors := []
  control := .receive
  ledger := [(Collation.genesisOba W).commonBlock]
  configBlockNumber := 0

theorem begins_firstAssembly (W : Wire) : Begins (firstAssembly W) where
  indexes _ _ hpi := ⟨100, (Option.some.inj hpi).symm⟩
  replication _ := rfl
  fetches := rfl
  fetched := rfl
  control := rfl

theorem made_firstBatchOba (W : Wire) : Made W (firstBatchOba W) := by
  have hshard : (⟨1, 1, 0, W.digest [[7]]⟩ : BatchIDKey).shard ≠ 0 := (by decide : (1 : ShardID) ≠ 0)
  have hextracted := (Collation.decisionAt W ⟨1, W.blockHeaderHash Collation.genesisHeader, W.digest [[7]]⟩
    ⟨1, 1, 0, W.digest [[7]]⟩ ⟨1, 1, 0⟩ 1 hshard).extracted
  have hoba : [firstBatchOba W][0]? = some (firstBatchOba W) := rfl
  obtain ⟨acb, -, hacb⟩ := getElem?_of_mapEach hextracted hoba
  exact ⟨_, _, _, acb, hacb⟩

theorem append_firstBatchOba (W : Wire) (batch : FabricBatch) : ∃ block,
    AssemblerLedger.append W (firstAssembly W).ledger batch (firstBatchOba W) =
      .ok ((firstAssembly W).ledger ++ [block]) := by
  have happend : ∀ data metadata,
      appendBlock W (firstAssembly W).ledger ⟨(firstBatchOba W).commonBlock.header, data, metadata⟩ =
        .ok ((firstAssembly W).ledger ++ [⟨(firstBatchOba W).commonBlock.header, data, metadata⟩]) := by
    intro data metadata
    simp [appendBlock, ledgerHash, firstAssembly, firstBatchOba, Collation.genesisOba, Collation.obaAt,
      Collation.blockAt]
  exact ⟨_, happend _ _⟩

/-- The batch comes from the stream, and its block is appended. -/
theorem committed_firstAssembly : ∃ a, Begins (firstAssembly refWire) ∧
    Run refWire (fun _ => some []) (firstAssembly refWire) a ∧ a.ledger.length = 2 ∧
    ∃ appended, a.ledger = (firstAssembly refWire).ledger ++ appended ∧
      ∀ block ∈ appended, Committed refWire block := by
  have hstream : Run refWire (fun _ => some []) (firstAssembly refWire) _ :=
    .single (@Step.stream _ _ _ 1 (firstBatch refWire) (firstBatch refWire) rfl rfl)
  have htaken := hstream.tail (@Step.takeBatch _ _ _ 1 (firstBatch refWire) [] rfl rfl)
  have hentered := htaken.tail (@Step.putEnter _ _ _ 1 (firstBatch refWire) _ _ _ rfl rfl rfl)
  have hsaved := hentered.tail (@Step.putSave _ _ _ 1 (firstBatch refWire) _ _ _ rfl rfl rfl rfl)
  have hoba := hsaved.tail (.takeOba rfl (made_firstBatchOba refWire))
  have hpop := hoba.tail (.popEnter rfl (by decide) rfl rfl)
  have hfound := hpop.tail (.popFound rfl rfl rfl)
  obtain ⟨block, happend⟩ := append_firstBatchOba refWire (firstBatch refWire)
  have happended := hfound.tail (.append rfl happend)
  exact ⟨_, begins_firstAssembly refWire, happended, rfl, committed (begins_firstAssembly refWire) happended⟩

end Assembly

end Arma
