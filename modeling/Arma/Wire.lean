import Arma.Lib.Unary
import Arma.Types
import Mathlib.Tactic.DeriveEncodable

/-!
# Messages on the wire

The records that the code marshals and unmarshals, each as its message definition has it and with
the fields the modelled functions read or write, and `Wire`, the codecs between them and bytes.

* Protocol-buffer messages: `common.Block`, its header and its metadata entries, the config
  envelope's layers, and the messages of `node/protos/state`. An identifier is an `uint32` on the
  wire and is checked against `uint16` when it is read. A sub-message that may be absent is an
  `Option`; an absent list and an empty one are the same, as they are after decoding.
* ASN.1 structures: the block header that is hashed and signed, `MessageToSign`, the proposal and
  signature records a decision block stores, and the lists of byte strings that a compound signature
  packs.

The codecs are parameters. What is assumed of them is what `Codec` and `MsgCodec` state (a message
survives marshalling; no bytes are the default message) and nothing about the bytes of anybody's
message that was not marshalled here. The hash is a parameter without any law. `Wire.unary` is an instance.
-/

namespace Arma

open Arma.Lib Outcome

/-! ## Fabric messages -/

structure Envelope where
  payload : Bytes
  signature : Bytes
  deriving DecidableEq, Repr, Inhabited, Encodable

/-- `common.Payload`; of its header the channel header's bytes are read. -/
structure Payload where
  channelHeader : Option Bytes
  data : Bytes
  deriving DecidableEq, Repr, Inhabited, Encodable

/-- `common.ChannelHeader`, of which the type is read. -/
structure ChannelHeader where
  type : Int32
  deriving DecidableEq, Repr, Inhabited, Encodable

def headerTypeConfig : Int32 := 1

/-- `common.ConfigEnvelope`, of which the sequence of the config, when there is one, is read. -/
structure ConfigEnvelope where
  configSequence : Option ConfigSequence
  deriving DecidableEq, Repr, Inhabited, Encodable

structure BlockHeader where
  number : Nat
  previousHash : Bytes
  dataHash : Bytes
  deriving DecidableEq, Repr, Inhabited, Encodable

structure Block where
  header : Option BlockHeader
  data : Option (List Bytes)
  metadata : Option (List Bytes)
  deriving DecidableEq, Repr, Inhabited, Encodable

/-- `BlockMetadataIndex_SIGNATURES`. -/
def indexSignatures : Nat := 0

/-- `BlockMetadataIndex_LAST_CONFIG`. -/
def indexLastConfig : Nat := 1

/-- `BlockMetadataIndex_ORDERER`. -/
def indexOrderer : Nat := 3

/-- `len(common.BlockMetadataIndex_name)`. -/
def numMetadataIndices : Nat := 5

/-- `common.MetadataSignature`, of which the identifier header and the signature are read. -/
structure MetadataSignature where
  signature : Bytes
  identifierHeader : Bytes
  deriving DecidableEq, Repr, Inhabited, Encodable

/-- `common.Metadata`, the content of a metadata entry. -/
structure Metadata where
  value : Bytes
  signatures : List MetadataSignature
  deriving DecidableEq, Repr, Inhabited, Encodable

structure LastConfig where
  index : Nat
  deriving DecidableEq, Repr, Inhabited, Encodable

structure OrdererBlockMetadata where
  lastConfig : Option LastConfig
  consenterMetadata : Bytes
  deriving DecidableEq, Repr, Inhabited, Encodable

structure IdentifierHeader where
  identifier : UInt32
  nonce : Bytes
  deriving DecidableEq, Repr, Inhabited, Encodable

/-- `smartbftprotos.ViewMetadata`, of which the latest sequence is read. -/
structure ViewMetadata where
  latestSequence : Nat
  deriving DecidableEq, Repr, Inhabited, Encodable

/-! ## Messages of the consensus state -/

/-- `stateprotos.BatchAttestationFragment`. -/
structure ProtoBAF where
  shard : UInt32
  primary : UInt32
  seq : Nat
  digest : Bytes
  configSequence : UInt64
  txCount : UInt64
  signer : UInt32
  signature : Bytes
  primarySignature : Bytes
  deriving DecidableEq, Repr, Inhabited, Encodable

/-- `stateprotos.Complaint`. -/
structure ProtoComplaint where
  configSeq : UInt64
  shard : UInt32
  term : Nat
  signer : UInt32
  signature : Bytes
  reason : String
  deriving DecidableEq, Repr, Inhabited, Encodable

/-- `stateprotos.ConfigRequest`. -/
structure ProtoConfigRequest where
  envelope : Bytes
  deriving DecidableEq, Repr, Inhabited, Encodable

/-- `stateprotos.AssemblerDecisionReport`. -/
structure ProtoAssemblerDecisionReport where
  party : UInt32
  decisionNum : Nat
  configSeq : UInt64
  signature : Bytes
  deriving DecidableEq, Repr, Inhabited, Encodable

/-- `stateprotos.ControlEvent`: a oneof that may be unset. -/
inductive ProtoControlEvent where
  | unset
  | baf (baf : ProtoBAF)
  | complaint (complaint : ProtoComplaint)
  | configRequest (configRequest : ProtoConfigRequest)
  | assemblerDecisionReport (report : ProtoAssemblerDecisionReport)
  deriving DecidableEq, Repr, Inhabited, Encodable

/-- `stateprotos.ShardTerm`. -/
structure ProtoShardTerm where
  shard : UInt32
  term : Nat
  deriving DecidableEq, Repr, Inhabited, Encodable

/-- `stateprotos.AssemblerHeight`. -/
structure ProtoAssemblerHeight where
  party : UInt32
  decisionNum : Nat
  deriving DecidableEq, Repr, Inhabited, Encodable

/-- `stateprotos.PrunePoint`. -/
structure ProtoPrunePoint where
  shard : UInt32
  primary : UInt32
  seq : Nat
  deriving DecidableEq, Repr, Inhabited, Encodable

/-- `stateprotos.State`. -/
structure ProtoState where
  numberOfParties : UInt32
  shards : List ProtoShardTerm
  pending : List ProtoBAF
  complaints : List ProtoComplaint
  appContext : Bytes
  staleConfigBAFs : List ProtoBAF
  assemblerHeights : List ProtoAssemblerHeight
  prunePoints : List ProtoPrunePoint
  durableWatermark : Nat
  deriving DecidableEq, Repr, Inhabited, Encodable

/-- `stateprotos.Header`. -/
structure ProtoHeader where
  num : Nat
  decisionNumOfLastConfigBlock : Nat
  prevHash : Bytes
  availableCommonBlocks : List Bytes
  state : Bytes
  deriving DecidableEq, Repr, Inhabited, Encodable

structure AssemblerBlockMetadata where
  primary : UInt32
  shard : UInt32
  sequence : Nat
  decisionNum : Nat
  batchIndex : UInt32
  batchCount : UInt32
  transactionCount : UInt64
  deriving DecidableEq, Repr, Inhabited, Encodable

/-! ## ASN.1 structures -/

structure MessageToSign where
  identifierHeader : Bytes
  blockHeader : Bytes
  ordererBlockMetadata : Bytes
  deriving DecidableEq, Repr, Inhabited, Encodable

structure Asn1Proposal where
  payload : Bytes
  header : Bytes
  metadata : Bytes
  verificationSequence : Int64
  deriving DecidableEq, Repr, Encodable

structure Asn1Signature where
  id : Int64
  value : Bytes
  msg : Bytes
  deriving DecidableEq, Repr, Encodable

/-- `asn1BAF`, whose two signature fields are always empty. -/
structure Asn1BAF where
  shard : Nat
  primary : Nat
  seq : Nat
  digest : Bytes
  configSequence : Nat
  txCount : Nat
  signer : Nat
  deriving DecidableEq, Repr, Encodable

/-! ## The codecs -/

/-- The codecs between messages and bytes, and the hash. -/
structure Wire where
  sha256 : Bytes → Bytes
  envelope : MsgCodec Envelope
  payload : MsgCodec Payload
  channelHeader : MsgCodec ChannelHeader
  configEnvelope : MsgCodec ConfigEnvelope
  blockHeader : MsgCodec BlockHeader
  block : MsgCodec Block
  metadata : MsgCodec Metadata
  lastConfig : MsgCodec LastConfig
  ordererBlockMetadata : MsgCodec OrdererBlockMetadata
  identifierHeader : MsgCodec IdentifierHeader
  viewMetadata : MsgCodec ViewMetadata
  configRequest : MsgCodec ProtoConfigRequest
  controlEvent : MsgCodec ProtoControlEvent
  state : MsgCodec ProtoState
  header : MsgCodec ProtoHeader
  assemblerBlockMetadata : MsgCodec AssemblerBlockMetadata
  /-- `asn1Header`, the form of a block header that is hashed and signed. -/
  asn1Header : Codec BlockHeader
  messageToSign : Codec MessageToSign
  asn1Proposal : Codec Asn1Proposal
  asn1Signature : Codec Asn1Signature
  asn1BAF : Codec Asn1BAF
  byteStrings : Codec (List Bytes)
  /-- A DER value has a tag and a length. -/
  byteStrings_ne_nil : ∀ l, byteStrings.marshal l ≠ []

namespace Wire

/-- A wire with unary codecs, in which the control event `short` takes one byte and nothing is hashed
together. -/
def unary (short : ProtoControlEvent) : Wire where
  sha256 := id
  envelope := .unary default
  payload := .unary default
  channelHeader := .unary default
  configEnvelope := .unary default
  blockHeader := .unary default
  block := .unary default
  metadata := .unary default
  lastConfig := .unary default
  ordererBlockMetadata := .unary default
  identifierHeader := .unary default
  viewMetadata := .unary default
  configRequest := .unary default
  controlEvent := .unary short
  state := .unary default
  header := .unary default
  assemblerBlockMetadata := .unary default
  asn1Header := .unary _
  messageToSign := .unary _
  asn1Proposal := .unary _
  asn1Signature := .unary _
  asn1BAF := .unary _
  byteStrings := .unary _
  byteStrings_ne_nil := Codec.marshal_unary_ne_nil

variable (W : Wire)

def blockHeaderBytes (h : BlockHeader) : Bytes := W.asn1Header.marshal h

def blockHeaderHash (h : BlockHeader) : Bytes := W.sha256 (W.blockHeaderBytes h)

def digest (br : BatchedRequests) : Bytes := BatchedRequests.digest W.sha256 br

def unmarshalEnvelope (b : Bytes) : Outcome Envelope :=
  (ofExcept (W.envelope.unmarshal b)).wrap "error unmarshalling Envelope"

def unmarshalPayload (b : Bytes) : Outcome Payload :=
  (ofExcept (W.payload.unmarshal b)).wrap "error unmarshalling Payload"

/-- The type in the channel header of an envelope, when its layers decode. -/
def envelopeType (envelope : Envelope) : Option Int32 :=
  match W.payload.unmarshal envelope.payload with
  | .ok payload =>
    match payload.channelHeader with
    | some raw =>
      match W.channelHeader.unmarshal raw with
      | .ok hdr => some hdr.type
      | .error _ => none
    | none => none
  | .error _ => none

def unmarshalIdentifierHeader (b : Bytes) : Outcome IdentifierHeader :=
  (ofExcept (W.identifierHeader.unmarshal b)).wrap "error unmarshalling IdentifierHeader"

end Wire

end Arma
