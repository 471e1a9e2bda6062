import Arma.State.Codec

/-!
# What is signed and how a request is named

Model of the byte strings that batchers and assemblers sign (`ToBeSigned` of a fragment, a complaint
and an assembler decision report), and of `ControlEvent.ID` and `SignerID`, from which SmartBFT's
request pool gets the name of a request (`requestID`).
-/

namespace Arma

open Arma.Lib

/-! ## What is signed -/

/-- The message that `SimpleBatchAttestationFragment.ToBeSigned` marshals: everything but the
signatures. -/
def BAF.toAsn1 (b : BAF) : Asn1BAF where
  shard := b.shard.toNat
  primary := b.primary.toNat
  seq := b.seq
  digest := b.digest
  configSequence := b.configSequence.toNat
  txCount := b.txCount.toNat
  signer := b.signer.toNat

/-- `SimpleBatchAttestationFragment.ToBeSigned`, which is also what `toBeSignedBAF` gives. -/
def BAF.toBeSigned (W : Wire) (b : BAF) : Bytes :=
  prefixWithDomain .baf (W.asn1BAF.marshal b.toAsn1)

theorem BAF.toBeSigned_inj {W : Wire} {b b' : BAF} : b.toBeSigned W = b'.toBeSigned W ↔ b.toAsn1 = b'.toAsn1 := by
  unfold toBeSigned
  rw [prefixWithDomain_inj, W.asn1BAF.marshal_inj, and_iff_right rfl]

/-- `duplicateBAFSetSigner`: the fragment under another signer, unsigned. -/
def duplicateBAFSetSigner (b : BAF) (signer : PartyID) : BAF :=
  { b with signer, signature := [] }

/-- `Complaint.Bytes`. The lengths are cut to two bytes; of the reason no more than `0xFFFF` bytes are
written. -/
def Complaint.bytes (c : Complaint) : Bytes :=
  let reason := c.reason.toUTF8.toList.take maxUint16
  bigEndian 8 c.configSeq.toNat ++ bigEndian 2 c.shard.toNat ++ bigEndian 8 c.term ++
    bigEndian 2 c.signer.toNat ++ bigEndian 2 c.signature.length ++ c.signature ++
    bigEndian 2 reason.length ++ reason

def Complaint.toBeSigned (c : Complaint) : Bytes :=
  prefixWithDomain .complaint { c with signature := [] }.bytes

def AssemblerDecisionReport.bytes (r : AssemblerDecisionReport) : Bytes :=
  bigEndian 2 r.party.toNat ++ bigEndian 8 r.decisionNum ++ bigEndian 8 r.configSeq.toNat ++
    bigEndian 4 r.signature.length ++ r.signature

def AssemblerDecisionReport.unsignedBytes (r : AssemblerDecisionReport) : Bytes :=
  { r with signature := [] }.bytes

def AssemblerDecisionReport.toBeSigned (r : AssemblerDecisionReport) : Bytes :=
  prefixWithDomain .assemblerDecisionReport r.unsignedBytes

/-! ## Names of requests -/

def ConfigRequest.bytes (W : Wire) (r : ConfigRequest) : Bytes :=
  W.configRequest.marshal (r.toProto W)

/-- The digest in the 32 bytes that `ControlEvent.ID` copies it into. -/
def copyDigest (digest : Bytes) : Bytes :=
  digest.take 32 ++ List.replicate (32 - digest.length) 0

def ControlEvent.payloadToHash (W : Wire) : ControlEvent → Bytes
  | .baf b =>
    bigEndian 8 b.seq ++ bigEndian 8 b.configSequence.toNat ++ bigEndian 2 b.signer.toNat ++
      bigEndian 2 b.primary.toNat ++ bigEndian 2 b.shard.toNat ++ copyDigest b.digest
  | .complaint c => { c with signature := [] }.bytes
  | .configRequest r => r.bytes W
  | .assemblerReport r => r.unsignedBytes

def ControlEvent.id (W : Wire) (ce : ControlEvent) : String := hex (W.sha256 (ce.payloadToHash W))

def ControlEvent.signerID : ControlEvent → String
  | .baf b => s!"{b.signer}"
  | .complaint c => s!"{c.signer}"
  | .configRequest _ => ""
  | .assemblerReport r => s!"{r.party}"

/-- SmartBFT's `RequestInfo`. -/
structure RequestInfo where
  id : String
  clientID : String
  deriving DecidableEq, Repr, Inhabited

/-- `Consensus.RequestID`: bytes that are no event have the empty name. -/
def requestID (W : Wire) (req : Bytes) : RequestInfo :=
  match ControlEvent.fromBytes W req with
  | .ok ce => ⟨ce.id W, ce.signerID⟩
  | .error _ => ⟨"", ""⟩

end Arma
