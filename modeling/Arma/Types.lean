import Arma.Lib.Outcome
import Arma.Lib.Codec

/-!
# The shared types

Model of `common/types`: the identifiers, the batch attestation fragment (BAF), node identities, the
signature domains and `BatchedRequests`, the framed list of requests that a batch, a proposal's
payload and a block's data hash are all made of.

* `ShardID` and `PartyID` are the source's `uint16`. `ConfigSequence` and a transaction count are its
  `uint64`, with its wrap-around. A batch sequence, a decision number, a term and a block number are
  counters that start at 0 and are raised by one at a time; they are natural numbers here.
* A nil and an empty byte slice are one byte string, as they are to every function modelled except
  the nil checks on a proposal and on a signature, which get an `Option` in their own records.
* `BatchAttestationFragment` is an interface with the one implementation
  `SimpleBatchAttestationFragment`; `BAF` is that record.

* **`BatchedRequests.framing_bijective`**: the framing is a bijection between the non-empty lists of requests
  that are shorter than `2 ^ 32` bytes and the byte strings that are accepted, and the digest binds the list.
* `prefixWithDomain_inj`: what is signed under one domain is not signed under another.
-/

namespace Arma

open Arma.Lib Outcome List

abbrev ShardID := UInt16

abbrev PartyID := UInt16

abbrev BatchSequence := Nat

abbrev DecisionNum := Nat

abbrev ConfigSequence := UInt64

/-- `ShardIDConsensus`: the shard written into the metadata of a config block. -/
def shardIDConsensus : ShardID := 65535

/-- `math.MaxUint16`, the bound every identifier read from the wire is checked against. -/
def maxUint16 : Nat := 65535

/-- `SimpleBatchAttestationFragment`: one batcher's signed statement that it stored a batch. -/
structure BAF where
  shard : ShardID
  primary : PartyID
  seq : BatchSequence
  digest : Bytes
  signer : PartyID
  signature : Bytes
  primarySignature : Bytes
  configSequence : ConfigSequence
  txCount : UInt64
  deriving DecidableEq, Repr, Inhabited

/-- `batchIDKey`: the four values that identify a batch (`types.BatchID`). -/
structure BatchIDKey where
  shard : ShardID
  primary : PartyID
  seq : BatchSequence
  digest : Bytes
  deriving DecidableEq, Repr, Inhabited

/-- `NodeRole`, without its unused zero value. -/
inductive NodeRole where
  | router
  | batcher
  | consenter
  | assembler
  deriving DecidableEq, Repr

def NodeRole.text : NodeRole → String
  | .router => "router"
  | .batcher => "batcher"
  | .consenter => "consenter"
  | .assembler => "assembler"

structure NodeIdentity where
  partyID : PartyID
  role : NodeRole
  shardID : ShardID
  deriving DecidableEq, Repr

def newBatcherIdentity (partyID : PartyID) (shardID : ShardID) : NodeIdentity :=
  ⟨partyID, .batcher, shardID⟩

/-- Only a batcher belongs to a shard. -/
def newRouterIdentity (partyID : PartyID) : NodeIdentity := ⟨partyID, .router, 0⟩

def newConsenterIdentity (partyID : PartyID) : NodeIdentity := ⟨partyID, .consenter, 0⟩

def newAssemblerIdentity (partyID : PartyID) : NodeIdentity := ⟨partyID, .assembler, 0⟩

def NodeIdentity.text (n : NodeIdentity) : String :=
  if n.role = .batcher then s!"{n.role.text} of party {n.partyID} in shard {n.shardID}"
  else s!"{n.role.text} of party {n.partyID}"

/-! ## Signature domains -/

/-- `SignatureDomain`: the context tag that binds a signature to one type of message. -/
inductive SignatureDomain where
  | baf
  | complaint
  | assemblerDecisionReport
  deriving DecidableEq, Repr

/-- The tag's ASCII text. -/
def SignatureDomain.tag : SignatureDomain → Bytes
  | .baf => "arma.baf".toList.map fun c => UInt8.ofNat c.toNat
  | .complaint => "arma.complaint".toList.map fun c => UInt8.ofNat c.toNat
  | .assemblerDecisionReport =>
    "arma.assembler_decision_report".toList.map fun c => UInt8.ofNat c.toNat

/-- `PrefixWithDomain`: the tag's length in two bytes, the tag, the message. No tag is longer than
`0xFFFF`, so the source's panic on one cannot be reached. -/
def prefixWithDomain (domain : SignatureDomain) (msg : Bytes) : Bytes :=
  bigEndian 2 domain.tag.length ++ domain.tag ++ msg

/-- No two tags are of one length, so the two bytes in front tell the domain. -/
theorem SignatureDomain.eq_of_length {d d' : SignatureDomain}
    (h : bigEndian 2 d.tag.length = bigEndian 2 d'.tag.length) : d = d' := by
  revert h
  cases d <;> cases d' <;> decide

theorem prefixWithDomain_inj {d d' : SignatureDomain} {msg msg'} :
    prefixWithDomain d msg = prefixWithDomain d' msg' ↔ d = d' ∧ msg = msg' := by
  constructor
  · intro h
    unfold prefixWithDomain at h
    rw [append_assoc, append_assoc] at h
    obtain ⟨hlen, hrest⟩ := append_inj h (by simp)
    obtain rfl := SignatureDomain.eq_of_length hlen
    exact ⟨rfl, append_cancel_left hrest⟩
  · rintro ⟨rfl, rfl⟩
    rfl

/-! ## Batched requests -/

abbrev BatchedRequests := List Bytes

namespace BatchedRequests

/-- One request as it is framed: its length in four bytes, then its bytes. -/
def frame (req : Bytes) : Bytes := bigEndian 4 req.length ++ req

def serialize (br : BatchedRequests) : Bytes := br.flatMap frame

/-- The loop of `BatchedRequests.Deserialize`: it consumes four bytes at least in every round. -/
def deserializeLoop (bytes : Bytes) : Outcome BatchedRequests :=
  if bytes = [] then .ok []
  else if bytes.length < 4 then .error (.err "size of req is not encoded correctly")
  else
    let size := ofBigEndian (bytes.take 4)
    let rest := bytes.drop 4
    if rest.length < size then .error (.err s!"there is no req with a size of {size}")
    else do
      let reqs ← deserializeLoop (rest.drop size)
      return rest.take size :: reqs
termination_by bytes.length
decreasing_by simp only [length_drop]; omega

def deserialize (bytes : Bytes) : Outcome BatchedRequests :=
  if bytes = [] then .error (.err "nil bytes") else deserializeLoop bytes

/-- `BatchedRequests.Digest`, and `protoutil.ComputeBlockDataHash` of a block with these data: both
hash the framed requests. -/
def digest (sha256 : Bytes → Bytes) (br : BatchedRequests) : Bytes := sha256 br.serialize

/-- The loop of `BatchedRequests.Digest`: a `hash.Hash` to which the length and the bytes of one request after the other
are written, and which hashes all that was written. -/
def runningDigest (sha256 : Bytes → Bytes) (br : BatchedRequests) : Bytes :=
  sha256 (br.foldl (fun written r => (written ++ bigEndian 4 r.length) ++ r) [])

theorem frame_ne_nil (req : Bytes) : frame req ≠ [] := by
  intro h
  have hlen := congrArg List.length h
  simp [frame] at hlen

variable {br : BatchedRequests}

theorem serialize_eq_nil : br.serialize = [] ↔ br = [] := by
  cases br with
  | nil => simp [serialize]
  | cons req br => simp [serialize, frame_ne_nil]

theorem deserializeLoop_frame {req} (h : req.length < 2 ^ 32) (rest : Bytes) : deserializeLoop (frame req ++ rest) = (do
      let reqs ← deserializeLoop rest
      return req :: reqs) := by
  have hne : frame req ++ rest ≠ [] := by simp [frame_ne_nil]
  have hlen : ¬ (frame req ++ rest).length < 4 := by simp [frame]
  have htake : (frame req ++ rest).take 4 = bigEndian 4 req.length := by
    simp [frame]
  have hdrop : (frame req ++ rest).drop 4 = req ++ rest := by
    simp [frame]
  have hsize : ofBigEndian (bigEndian 4 req.length) = req.length := ofBigEndian_bigEndian (by omega)
  rw [deserializeLoop, if_neg hne, if_neg hlen, htake, hdrop, hsize, if_neg (by simp), take_left, drop_left]

theorem deserializeLoop_serialize (h : ∀ req ∈ br, req.length < 2 ^ 32) : deserializeLoop br.serialize = .ok br := by
  induction br with
  | nil =>
    rw [deserializeLoop]
    simp [serialize]
  | cons req br ih =>
    have hcons : serialize (req :: br) = frame req ++ serialize br := by simp [serialize]
    rw [hcons, deserializeLoop_frame (h req (by simp)), ih fun r hr => h r (by simp [hr])]
    rfl

theorem deserializeLoop_noPanic (bytes : Bytes) : (deserializeLoop bytes).NoPanic := by
  fun_induction deserializeLoop bytes with
  | case1 => exact noPanic_ok _
  | case2 | case3 => exact noPanic_fail _
  | case4 bytes hnil hshort size rest hlt ih =>
    exact noPanic_bind_iff.mpr ⟨ih, fun _ _ => noPanic_ok _⟩

theorem deserialize_noPanic (bytes : Bytes) : (deserialize bytes).NoPanic := by
  unfold deserialize
  split
  · exact noPanic_fail _
  · exact deserializeLoop_noPanic bytes

/-- **The framing is undone**: requests that fit a four-byte length are read back as they were. -/
theorem deserialize_serialize (hne : br ≠ [])
    (h : ∀ req ∈ br, req.length < 2 ^ 32) : deserialize br.serialize = .ok br := by
  rw [deserialize, if_neg (mt serialize_eq_nil.mp hne), deserializeLoop_serialize h]

/-- **Nothing but a framing is read.** -/
theorem serialize_of_deserializeLoop {bytes} (h : deserializeLoop bytes = .ok br) : br.serialize = bytes := by
  fun_induction deserializeLoop bytes generalizing br with
  | case1 =>
    cases h
    rfl
  | case2 | case3 => cases h
  | case4 bytes hnil hshort size rest hlt =>
    rename_i ih
    obtain ⟨reqs, hreqs, hret⟩ := bind_eq_ok.mp h
    cases hret
    have hlen : (rest.take size).length = size := length_take_of_le (Nat.le_of_not_lt hlt)
    have hfour : (bytes.take 4).length = 4 := length_take_of_le (Nat.le_of_not_lt hshort)
    have hsize : bigEndian 4 size = bytes.take 4 := by
      have hback := bigEndian_ofBigEndian (bytes.take 4)
      rwa [hfour] at hback
    calc serialize (rest.take size :: reqs) = frame (rest.take size) ++ serialize reqs := by simp [serialize]
      _ = bytes.take 4 ++ (rest.take size ++ rest.drop size) := by
          rw [frame, hlen, hsize, ih hreqs, append_assoc]
      _ = bytes := by rw [take_append_drop, take_append_drop]

theorem serialize_of_deserialize {bytes} (h : deserialize bytes = .ok br) : br.serialize = bytes := by
  unfold deserialize at h
  split at h
  · cases h
  · exact serialize_of_deserializeLoop h

theorem serialize_injOn {br'} (h : ∀ req ∈ br, req.length < 2 ^ 32)
    (h' : ∀ req ∈ br', req.length < 2 ^ 32) (heq : br.serialize = br'.serialize) : br = br' := by
  have hread := deserializeLoop_serialize h
  rw [heq, deserializeLoop_serialize h'] at hread
  exact (Except.ok.inj hread).symm

theorem foldl_write (written : Bytes) (br : BatchedRequests) :
    br.foldl (fun written r => (written ++ bigEndian 4 r.length) ++ r) written = written ++ br.serialize := by
  induction br generalizing written with
  | nil => simp [serialize]
  | cons req br ih =>
    have hcons : serialize (req :: br) = frame req ++ serialize br := by simp [serialize]
    rw [foldl_cons, ih, hcons, frame]
    simp only [append_assoc]

theorem runningDigest_eq (sha256 : Bytes → Bytes) (br : BatchedRequests) :
    br.runningDigest sha256 = br.digest sha256 := by
  unfold runningDigest digest
  rw [foldl_write, nil_append]

/-- **The framing is a bijection and the digest binds it**: between the non-empty lists of requests that fit a four-byte
length and the byte strings that are accepted. -/
theorem framing_bijective {sha256 : Bytes → Bytes} (hsha256 : Function.Injective sha256) :
    (∀ br : BatchedRequests, br ≠ [] → (∀ req ∈ br, req.length < 2 ^ 32) → deserialize br.serialize = .ok br) ∧
      (∀ (bytes : Bytes) (br : BatchedRequests), deserialize bytes = .ok br → br.serialize = bytes) ∧
      (∀ br : BatchedRequests, br.runningDigest sha256 = sha256 br.serialize) ∧
      ∀ br br' : BatchedRequests, (∀ req ∈ br, req.length < 2 ^ 32) → (∀ req ∈ br', req.length < 2 ^ 32) →
        br.runningDigest sha256 = br'.runningDigest sha256 → br = br' := by
  refine ⟨fun br => deserialize_serialize, fun bytes br => serialize_of_deserialize, runningDigest_eq sha256, ?_⟩
  intro br br' hbr hbr' heq
  rw [runningDigest_eq, runningDigest_eq] at heq
  exact serialize_injOn hbr hbr' (hsha256 heq)

theorem framing_bijective_two :
    Function.Injective (id : Bytes → Bytes) ∧ deserialize (serialize [[1], [2, 3]]) = .ok [[1], [2, 3]] ∧
      (∀ br : BatchedRequests, (∀ req ∈ br, req.length < 2 ^ 32) →
        br.runningDigest id = BatchedRequests.runningDigest id [[1], [2, 3]] → br = [[1], [2, 3]]) := by
  obtain ⟨hread, -, -, hdigest⟩ := framing_bijective Function.injective_id
  refine ⟨Function.injective_id, hread _ (by decide) (by decide), fun br hbr heq => ?_⟩
  exact hdigest br _ hbr (by decide) heq

end BatchedRequests

end Arma
