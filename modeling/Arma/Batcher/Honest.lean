import Arma.Batcher.Node
import Arma.Request.Inserting

/-!
# The batches of an honest primary

`runPrimary` takes a batch from the mem pool, digests, signs and appends it; `orderBatch` is that part of it, and
`orderBatch_steps` says that the role does so.

The limits of a batch are kept by a counter that the calls of `Insert` share (`Request/Inserting.lean`). A secondary
checks the batch itself: the length of the list and the sum of the sizes.

**`verifyBatch_honest`**: if what is inserted passes `VerifyRequest` and the size check of `Submit`, then every batch
that `runPrimary` appends passes `verifyBatch` at a secondary of the same config that waits for it, however the calls of
`Insert`, `Fetch` and `Remove` are interleaved and however the secondary's workers go on. It is not needed that
`BatchMaxSize` is at least 1, nor that a request of `RequestMaxBytes` fits into a batch: without that, some requests are
in no batch.
-/

namespace Arma

open Arma.Lib Outcome List Function

namespace BatcherRole

variable {W : Wire} {primary party : PartyID} {shard : ShardID} {p : BatcherRole W primary shard}
  {sign : Bytes → Except String Bytes} {currentBatch : BatchedRequests} {baf : BAF} {ledger : BatchLedgerArray W shard}

/-- What `runPrimary` does with the requests that `NextRequests` gives: the fragment and the ledger, if there are
requests. -/
def orderBatch (p : BatcherRole W primary shard) (sign : Bytes → Except String Bytes) (currentBatch : BatchedRequests) :
    Outcome (Option (BAF × BatchLedgerArray W shard)) :=
  if currentBatch.length = 0 then .ok none
  else do
    let digest := currentBatch.digest W.sha256
    let baf ← p.createBAF sign p.seq primary digest (UInt64.ofNat currentBatch.length) []
    let ledger ← p.ledger.append primary p.seq p.configSequence currentBatch digest baf.signature
    return some (baf, ledger)

theorem orderBatch_eq_ok : p.orderBatch sign currentBatch = .ok (some (baf, ledger)) ↔ currentBatch ≠ [] ∧
    p.createBAF sign p.seq primary (currentBatch.digest W.sha256) (UInt64.ofNat currentBatch.length) [] = .ok baf ∧
    p.ledger.append primary p.seq p.configSequence currentBatch (currentBatch.digest W.sha256) baf.signature =
      .ok ledger := by
  unfold orderBatch
  by_cases hempty : currentBatch = []
  · simp [hempty]
  · have hlength : ¬ currentBatch.length = 0 := by simpa using hempty
    simp only [if_neg hlength, bind_eq_ok]
    constructor
    · rintro ⟨baf', hbaf, ledger', happend, hret⟩
      cases hret
      exact ⟨hempty, hbaf, happend⟩
    · rintro ⟨-, hbaf, happend⟩
      exact ⟨baf, hbaf, ledger, happend, rfl⟩

theorem orderBatch_steps (hat : p.control = .nextRequests)
    (h : p.orderBatch sign currentBatch = .ok (some (baf, ledger))) :
    Relation.ReflTransGen Step p { p with ledger, control := .startSend baf } := by
  obtain ⟨hne, hbaf, happend⟩ := orderBatch_eq_ok.mp h
  have hbatched : Relation.ReflTransGen Step p _ := .single (.batched hat currentBatch hne)
  have hsigned := hbatched.tail (.signOwn rfl sign hbaf)
  exact hsigned.tail (.appendOwn rfl happend)

theorem orderBatch_appends (h : p.orderBatch sign currentBatch = .ok (some (baf, ledger))) :
    ∃ batch : FabricBatch, ledger.batches = update p.ledger.batches primary (p.ledger.batches primary ++ [batch]) ∧
      batch.shard = shard ∧ batch.primary = primary ∧ batch.seq = p.seq ∧ batch.requests = currentBatch ∧
      batch.digest = currentBatch.digest W.sha256 ∧
      sign ((primaryBAF batch).toBeSigned W) = .ok batch.primarySignature := by
  obtain ⟨-, hbaf, happend⟩ := orderBatch_eq_ok.mp h
  obtain ⟨-, prevHash, hbatches⟩ := BatchLedgerArray.append_eq_new happend
  refine ⟨_, hbatches, shard_new, primary_new, seq_new, requests_new, digest_new, ?_⟩
  simp only [createBAF, Arma.createBAF, orPanic_eq_ok, bind_eq_ok, ofExcept_eq_ok] at hbaf
  obtain ⟨signature, hsign, hret⟩ := hbaf
  cases hret
  rw [primaryBAF, shard_new, primary_new, seq_new, requests_new, digest_new, configSequence_new, primarySignature_new]
  exact hsign

/-! ## At a secondary -/

variable {verifier : RequestsInspectorVerifier} {c requestMaxBytes : Nat} {pool : Inserting}
  {out : List (String × Bytes)}

/-- What may be in the pool. -/
def Submitted (W : Wire) (verifier : RequestsInspectorVerifier) (requestMaxBytes : Nat) (request : Bytes) : Prop :=
  request.length ≤ requestMaxBytes ∧ verifier.verifyRequest W request = .ok ()

/-- What is fetched from the pool is within the limits that the secondary checks, and valid. -/
theorem within_of_fetched (hpool : Inserting.Run c (Submitted W verifier requestMaxBytes)
      (.fresh verifier.batchMaxSize verifier.batchMaxBytes) pool) (hsize : verifier.batchMaxSize.toNat + c < 2 ^ 32)
    (hbytes : verifier.batchMaxBytes.toNat + c * requestMaxBytes < 2 ^ 32) (hout : out ∈ pool.fetched)
    (hne : out.map Prod.snd ≠ []) :
    verifier.Within (out.map Prod.snd) ∧ ∀ req ∈ out.map Prod.snd, verifier.verifyRequest W req = .ok () := by
  obtain ⟨hwithin, hvalid⟩ := Inserting.fetched_within hpool (fun _ h => h.1) hsize hbytes hout
  refine ⟨⟨hne, ?_, ?_⟩, ?_⟩
  · rw [length_map]
    exact hwithin.length_le
  · rw [map_map]
    exact hwithin.bytes_le
  · intro req hreq
    obtain ⟨e, he, rfl⟩ := mem_map.mp hreq
    exact (hvalid e he).2

/-- **A batch of an honest primary is accepted**: the pool holds requests that pass `VerifyRequest`, and `runPrimary`
has fetched, digested, signed and appended some. Then every secondary that has this primary, waits for this sequence and
knows the primary's key accepts the batch, and its workers come to an end. -/
theorem verifyBatch_honest (S : SignatureScheme) (hpool : Inserting.Run c (Submitted W verifier requestMaxBytes)
      (.fresh verifier.batchMaxSize verifier.batchMaxBytes) pool) (hsize : verifier.batchMaxSize.toNat + c < 2 ^ 32)
    (hbytes : verifier.batchMaxBytes.toNat + c * requestMaxBytes < 2 ^ 32) (hout : out ∈ pool.fetched)
    (hsign : S.SignedBy sign (newBatcherIdentity primary shard))
    (horder : p.orderBatch sign (out.map Prod.snd) = .ok (some (baf, ledger))) : ∃ batch : FabricBatch,
      ledger.batches = Function.update p.ledger.batches primary (p.ledger.batches primary ++ [batch]) ∧
      batch.requests = out.map Prod.snd ∧ verifier.Within batch.requests ∧
      ∀ {party : PartyID} (r : BatcherRole W party shard) {n : Nat} (workers : Strided String String n),
        S.VerifiedBy r.verifySignature → r.primary = primary → r.seq = p.seq → 0 < n →
        Relation.ReflTransGen (RequestsInspectorVerifier.VerifyStep W verifier batch.requests)
          (.start String String n) workers → (workers.Finished →
          r.verifyBatch (fun reqs => verifier.verifyBatchedRequests reqs workers) batch =
            .ok (batch.requests.map (defaultRequestID W))) ∧
        ∃ workers', Relation.ReflTransGen (RequestsInspectorVerifier.VerifyStep W verifier batch.requests)
          workers workers' ∧ workers'.Finished := by
  obtain ⟨hne, -, -⟩ := orderBatch_eq_ok.mp horder
  obtain ⟨hwithin, hvalid⟩ := within_of_fetched hpool hsize hbytes hout hne
  obtain ⟨batch, hbatches, hshard, hprimary, hseq, hrequests, hdigest, hsigned⟩ := orderBatch_appends horder
  rw [← hrequests] at hwithin hvalid
  refine ⟨batch, hbatches, hrequests, hwithin, fun r n workers hverify hrprimary hrseq hn hrun => ?_⟩
  obtain ⟨hverified, hfinish⟩ := RequestsInspectorVerifier.verified_of_valid hvalid hwithin hn hrun
  refine ⟨fun hfinished => verifyBatch_eq_ok.mpr ?_, hfinish⟩
  exact {
    primary_eq := hprimary.trans hrprimary.symm
    shard_eq := hshard
    seq_eq := hseq.trans hrseq.symm
    requests_ne_nil := hwithin.ne_nil
    digest := hrequests ▸ hdigest
    signature := hrprimary ▸ (hverify _ _ _).mpr (hsign _ _ hsigned)
    requests := hverified hfinished }

/-- Two requests are inserted in calls that overlap. -/
theorem run_twoRequests {valid : Bytes → Prop} (hvalid : ∀ request ∈ twoRequests, valid request) : ∃ pool,
    Inserting.Run 2 valid (.fresh 10 100) pool ∧ pool.fetched = [[("07", [7]), ("08", [8])]] := by
  have hcalled : Inserting.Run 2 valid (.fresh 10 100) _ :=
    .single (@Inserting.Step.call _ _ _ "07" [7] Nat.two_pos (hvalid [7] mem_cons_self))
  have hcalled' := hcalled.tail (@Inserting.Step.call _ _ _ "08" [8] Nat.one_lt_two (hvalid [8] (by decide)))
  have hadded := hcalled'.tail (@Inserting.Step.add _ _ _ [_] [] _ rfl rfl)
  have hadded' := hadded.tail (@Inserting.Step.add _ _ _ [] [_] _ rfl rfl)
  have hindexed := hadded'.tail (@Inserting.Step.index _ _ _ [_] [] _ _ _ rfl rfl rfl rfl)
  have hindexed' := hindexed.tail (@Inserting.Step.index _ _ _ [] [_] _ _ _ rfl rfl rfl rfl)
  have hput := hindexed'.tail (@Inserting.Step.put _ _ _ [] [_] _ _ rfl rfl)
  have hput' := hput.tail (@Inserting.Step.put _ _ _ [] [] _ _ rfl rfl)
  exact ⟨_, hput'.tail (.fetch .same nofun rfl), rfl⟩

/-- The two requests are fetched by party 2 and accepted by party 1, which verifies them with two workers. -/
theorem verifyBatch_honest_pair :
    ∃ (pool : Inserting) (out : List (String × Bytes)) (baf : BAF) (ledger : BatchLedgerArray refWire 1)
      (batch : FabricBatch) (workers : Strided String String 2),
      Inserting.Run 2 (Submitted refWire (BatcherNode.firstConfigOnly 0) 100) (.fresh 10 100) pool ∧
      out ∈ pool.fetched ∧ ({ BatcherNode.pairRole refWire 2 0 with primary := 2 } : BatcherRole refWire 2 1).orderBatch
        (fun msg => .ok (1 :: msg)) (out.map Prod.snd) = .ok (some (baf, ledger)) ∧
      ledger.batches 2 = [batch] ∧ workers.Finished ∧
      ({ BatcherNode.pairRole refWire 1 0 with primary := 2 } : BatcherRole refWire 1 1).verifyBatch
        (fun reqs => (BatcherNode.firstConfigOnly 0).verifyBatchedRequests reqs workers) batch = .ok ["07", "08"] := by
  have hvalid : ∀ request ∈ twoRequests, Submitted refWire (BatcherNode.firstConfigOnly 0) 100 request :=
    forall_mem_cons.mpr ⟨⟨by decide, rfl⟩, forall_mem_singleton.mpr ⟨by decide, rfl⟩⟩
  obtain ⟨pool, hpool, hfetched⟩ := run_twoRequests hvalid
  have hmem : [("07", [7]), ("08", [8])] ∈ pool.fetched := hfetched ▸ mem_cons_self
  have hpart : (BatcherNode.pairRole refWire 2 0).ledger.part 2 = .ok (newBatchLedgerPart refWire (.empty 1 2)) := rfl
  let p : BatcherRole refWire 2 1 := { BatcherNode.pairRole refWire 2 0 with primary := 2 }
  obtain ⟨baf, hbaf⟩ : ∃ baf, p.createBAF (fun msg => .ok (1 :: msg)) 0 2 (twoRequests.digest id) 2 [] = .ok baf :=
    ⟨_, rfl⟩
  obtain ⟨ledger, happend⟩ := BatchLedgerArray.exists_append hpart rfl 0 twoRequests (twoRequests.digest id)
    baf.signature
  have horder : p.orderBatch (fun msg => .ok (1 :: msg)) twoRequests = .ok (some (baf, ledger)) :=
    orderBatch_eq_ok.mpr ⟨cons_ne_nil _ _, hbaf, happend⟩
  obtain ⟨batch, hbatches, hrequests, -, hsecondary⟩ := verifyBatch_honest taggedScheme hpool (by decide) (by decide)
    hmem (fun msg sig h => (Except.ok.inj h).symm) horder
  let r : BatcherRole refWire 1 1 := { BatcherNode.pairRole refWire 1 0 with primary := 2 }
  obtain ⟨-, workers, hworkers, hfinished⟩ :=
    hsecondary r (.start String String 2) verifiedBy_taggedVerify rfl rfl Nat.two_pos .refl
  have haccepted := (hsecondary r workers verifiedBy_taggedVerify rfl rfl Nat.two_pos hworkers).1 hfinished
  refine ⟨pool, _, baf, ledger, batch, workers, hpool, hmem, horder, ?_, hfinished, ?_⟩
  · rw [hbatches, update_self]
    rfl
  · rw [haccepted, hrequests]
    rfl

end BatcherRole

end Arma
