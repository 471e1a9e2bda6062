import Arma.Lib.Gather
import Arma.Lib.Keyed
import Arma.Wire

/-!
# Configurations as the rules read them

The messages of a configuration that `config/verify` reads: the shared config (`ordererpb`), the consenter mapping and
the organizations of the orderer group, the block validation policy.

* A pointer to a sub-message, and an element of a list of pointers, can be nil: they are `Option`s. An organization
  never is, as `NewOrdererConfig` puts into its map what it has built.
* What is outside this repository, or is a parser of texts and certificates, is a parameter, `Libraries`.
* A map is ranged over in any order, and the clock shows any time: `Runtime` is what one call meets.
-/

namespace Arma.Verify

open Arma.Lib

/-! ## The shared config -/

/-- `RouterNodeConfig`, `ConsenterNodeConfig` and `AssemblerNodeConfig`, which have the same fields. -/
structure NodeSection where
  host : String
  port : UInt32
  signCert : Bytes
  tlsCert : Bytes
  deriving DecidableEq, Repr

structure BatcherNodeConfig extends NodeSection where
  shardID : UInt32
  deriving DecidableEq, Repr

/-- `PartyConfig`. `proto.Equal` compares the fields, and the unknown fields of the message and its parts. -/
structure PartyConfig where
  partyID : UInt32
  caCerts : List Bytes
  tlsCACerts : List Bytes
  routerConfig : Option NodeSection
  batchersConfig : List (Option BatcherNodeConfig)
  consenterConfig : Option NodeSection
  assemblerConfig : Option NodeSection
  unknownFields : Bytes
  deriving DecidableEq, Repr

structure BatchTimeouts where
  batchCreationTimeout : String
  firstStrikeThreshold : String
  secondStrikeThreshold : String
  autoRemoveTimeout : String
  deriving DecidableEq, Repr

/-- `BatchSize`, without the preferred size, which nothing reads. -/
structure BatchSize where
  maxMessageCount : UInt32
  absoluteMaxBytes : UInt32
  deriving DecidableEq, Repr

structure BatchingConfig where
  batchTimeouts : Option BatchTimeouts
  batchSize : Option BatchSize
  requestMaxBytes : UInt64
  deriving DecidableEq, Repr

/-- `ordererpb.SmartBFTConfig`, without two flags that no rule looks at. The durations are texts. -/
structure SmartBFTConfig where
  requestBatchMaxCount : UInt64
  requestBatchMaxBytes : UInt64
  requestBatchMaxInterval : String
  incomingMessageBufferSize : UInt64
  requestPoolSize : UInt64
  requestForwardTimeout : String
  requestComplainTimeout : String
  requestAutoRemoveTimeout : String
  viewChangeResendInterval : String
  viewChangeTimeout : String
  leaderHeartbeatTimeout : String
  leaderHeartbeatCount : UInt64
  numOfTicksBehindBeforeSyncing : UInt64
  collectTimeout : String
  leaderRotation : Bool
  decisionsPerLeader : UInt64
  requestMaxBytes : UInt64
  requestPoolSubmitTimeout : String
  deriving DecidableEq, Repr

structure ConsensusConfig where
  smartBFTConfig : Option SmartBFTConfig
  deriving DecidableEq, Repr

structure SharedConfig where
  partiesConfig : List (Option PartyConfig)
  consensusConfig : Option ConsensusConfig
  batchingConfig : Option BatchingConfig
  maxPartyID : UInt32
  deriving DecidableEq, Repr

/-! ## The orderer group -/

structure Consenter where
  id : UInt32
  host : String
  port : UInt32
  mspId : String
  identity : Bytes
  clientTlsCert : Bytes
  serverTlsCert : Bytes
  deriving DecidableEq, Repr

structure OrdererOrg where
  name : String
  mspID : String
  endpoints : List String
  tlsRootCerts : List Bytes
  tlsIntermediateCerts : List Bytes
  deriving DecidableEq, Repr

/-- `channelconfig.Orderer`. -/
structure OrdererConfig where
  consensusMetadata : Bytes
  absoluteMaxBytes : UInt32
  organizations : AList fun _ : String => OrdererOrg
  consenters : List (Option Consenter)

/-- `common.SignaturePolicy`: a message of which one alternative is set, or none. -/
inductive SignaturePolicy where
  | unset
  | signedBy (index : Int32)
  | nOutOf (n : Int32) (rules : List (Option SignaturePolicy))

/-- `msp.MSPPrincipal`; `identity` says that its classification is `IDENTITY`. -/
structure MSPPrincipal where
  identity : Bool
  principal : Bytes
  deriving DecidableEq, Repr

structure SignaturePolicyEnvelope where
  rule : Option SignaturePolicy
  identities : List (Option MSPPrincipal)

structure Policy where
  type : Int32
  value : Bytes
  deriving DecidableEq, Repr

/-- `common.Policy_SIGNATURE`. -/
def policySignature : Int32 := 1

structure ConfigPolicy where
  policy : Option Policy
  deriving DecidableEq, Repr

/-- `channelconfig.Resources`. -/
structure Bundle where
  channelID : String
  sequence : ConfigSequence
  ordererConfig : Option OrdererConfig
  /-- The policy of the orderer group of `ConfigtxValidator().ConfigProto()` under `BlockValidationPolicyKey`. -/
  blockValidationPolicy : Option ConfigPolicy

/-! ## Libraries -/

/-- `types.OrdererEndpoint`, without the party and the MSP, which nothing reads. -/
structure OrdererEndpoint where
  host : String
  port : Int
  api : List String
  deriving DecidableEq, Repr

def broadcast : String := "broadcast"

def deliver : String := "deliver"

/-- `pem.Block`. -/
structure PemBlock where
  type : String
  bytes : Bytes
  deriving DecidableEq, Repr

structure Certificate where
  isCA : Bool
  subject : Bytes
  serialNumber : Int
  notBefore : Int
  rawSubjectPublicKeyInfo : Bytes
  deriving DecidableEq, Repr

inductive ExtKeyUsage where
  | any
  | serverAuth
  | clientAuth
  deriving DecidableEq, Repr

/-- `x509.VerifyOptions`; no intermediates are ever given. -/
structure VerifyOptions where
  roots : List Certificate
  keyUsages : List ExtKeyUsage
  /-- The time of the verification. The zero time, which stands for now, is filled in. -/
  currentTime : Int

/-- What the rules get from other code. Times and durations are counted in nanoseconds. -/
structure Libraries where
  newBundleFromEnvelope : Envelope → Except String Bundle
  /-- `proto.Unmarshal` of a shared config. -/
  unmarshalSharedConfig : Bytes → Except String SharedConfig
  /-- `proto.Unmarshal` of a signature policy envelope. -/
  unmarshalSignaturePolicy : Bytes → Except String SignaturePolicyEnvelope
  /-- `protoutil.MarshalOrPanic(msppb.NewIdentity(mspID, certificate))`. -/
  marshalIdentity : String → Bytes → Bytes
  parseDuration : String → Except String Int
  durationText : Int → String
  parseOrdererEndpoint : String → Except String OrdererEndpoint
  pemDecode : Bytes → Option PemBlock
  parseCertificate : Bytes → Except String Certificate
  verifyCertificate : Certificate → VerifyOptions → Except String Unit
  /-- The verb `%q`. -/
  quote : Bytes → String

/-- What one call meets: the time, and the orders in which its loops range over maps. -/
structure Runtime where
  now : Int
  /-- `Organizations()`, when the endpoints are validated. -/
  endpoints : RangeOrder String OrdererOrg
  /-- `Organizations()`, when they are put under their MSP ids. -/
  orgMap : RangeOrder String OrdererOrg
  /-- `nextMap`. -/
  added : RangeOrder UInt32 PartyConfig
  /-- `currMap`. -/
  removed : RangeOrder UInt32 PartyConfig

end Arma.Verify
