import Arma.Config.Messages

/-!
# The rules of a configuration

Model of `DefaultOrdererRules.ValidateNewConfig` (`config/verify/orderer_rules.go`) with its thirteen rules, and of
`cert_validation.go`. Rule 12 only logs what it finds, so that nothing is left of it but its two errors.

* `validateNewConfig_eq_ok`: a configuration is accepted iff it passes each rule.
* `Passes.roll` says what that means for the parties: none is nil, there are as many as consenters, each consenter is
  the consenter of the party of its id, and every id is in range.
* **`Roll.perm`**: if the ids of the consenters differ, the parties are the consenters.
-/

namespace Arma.Verify

open Arma.Lib Outcome List

variable (L : Libraries)

/-! ## Batching and SmartBFT -/

def validateTimeout (text what : String) : Outcome Unit := do
  let timeout ← ofExcept (L.parseDuration text)
  require (0 < timeout) s!"attempted to set {what} to a non-positive value: {L.durationText timeout}"

def validateBatchTimeout (bt : Option BatchTimeouts) : Outcome Unit := do
  let bt ← nonNil bt "batch timeouts are nil"
  validateTimeout L bt.batchCreationTimeout "the batch creation timeout"
  validateTimeout L bt.firstStrikeThreshold "the first strike threshold"
  validateTimeout L bt.secondStrikeThreshold "the second strike threshold"
  validateTimeout L bt.autoRemoveTimeout "auto remove timeout"

/-- SmartBFT's `types.Configuration`, with what its `Validate` looks at. -/
structure BFTConfiguration where
  selfID : UInt64
  requestBatchMaxCount : UInt64
  requestBatchMaxBytes : UInt64
  requestBatchMaxInterval : Int
  incomingMessageBufferSize : UInt64
  requestPoolSize : UInt64
  requestForwardTimeout : Int
  requestComplainTimeout : Int
  requestAutoRemoveTimeout : Int
  viewChangeResendInterval : Int
  viewChangeTimeout : Int
  leaderHeartbeatTimeout : Int
  leaderHeartbeatCount : UInt64
  numOfTicksBehindBeforeSyncing : UInt64
  collectTimeout : Int
  leaderRotation : Bool
  decisionsPerLeader : UInt64
  requestMaxBytes : UInt64
  requestPoolSubmitTimeout : Int

def BFTConfiguration.validate (c : BFTConfiguration) : Outcome Unit := do
  require (c.selfID ≠ 0) "SelfID should be greater than zero"
  require (c.requestBatchMaxCount ≠ 0) "RequestBatchMaxCount should be greater than zero"
  require (c.requestBatchMaxBytes ≠ 0) "RequestBatchMaxBytes should be greater than zero"
  require (0 < c.requestBatchMaxInterval) "RequestBatchMaxInterval should be greater than zero"
  require (c.incomingMessageBufferSize ≠ 0) "IncomingMessageBufferSize should be greater than zero"
  require (c.requestPoolSize ≠ 0) "RequestPoolSize should be greater than zero"
  require (0 < c.requestForwardTimeout) "RequestForwardTimeout should be greater than zero"
  require (0 < c.requestComplainTimeout) "RequestComplainTimeout should be greater than zero"
  require (0 < c.requestAutoRemoveTimeout) "RequestAutoRemoveTimeout should be greater than zero"
  require (0 < c.viewChangeResendInterval) "ViewChangeResendInterval should be greater than zero"
  require (0 < c.viewChangeTimeout) "ViewChangeTimeout should be greater than zero"
  require (0 < c.leaderHeartbeatTimeout) "LeaderHeartbeatTimeout should be greater than zero"
  require (c.leaderHeartbeatCount ≠ 0) "LeaderHeartbeatCount should be greater than zero"
  require (c.numOfTicksBehindBeforeSyncing ≠ 0) "NumOfTicksBehindBeforeSyncing should be greater than zero"
  require (0 < c.collectTimeout) "CollectTimeout should be greater than zero"
  require (c.requestBatchMaxCount ≤ c.requestBatchMaxBytes)
    "RequestBatchMaxCount is bigger than RequestBatchMaxBytes"
  require (c.requestMaxBytes ≤ c.requestBatchMaxBytes) "RequestMaxBytes is bigger than RequestBatchMaxBytes"
  require (c.requestForwardTimeout ≤ c.requestComplainTimeout)
    "RequestForwardTimeout is bigger than RequestComplainTimeout"
  require (c.requestComplainTimeout ≤ c.requestAutoRemoveTimeout)
    "RequestComplainTimeout is bigger than RequestAutoRemoveTimeout"
  require (c.viewChangeResendInterval ≤ c.viewChangeTimeout)
    "ViewChangeResendInterval is bigger than ViewChangeTimeout"
  require (¬ (c.leaderRotation ∧ c.decisionsPerLeader = 0))
    "DecisionsPerLeader should be greater than zero when leader rotation is active"
  require (¬ (¬ c.leaderRotation ∧ c.decisionsPerLeader ≠ 0))
    "DecisionsPerLeader should be zero when leader rotation is off"
  require (c.requestMaxBytes ≠ 0) "RequestMaxBytes should be greater than zero"
  require (0 < c.requestPoolSubmitTimeout) "RequestPoolSubmitTimeout should be greater than zero"

/-- One of the durations of `validateSmartBFTConfig`. -/
def parseBFTDuration (text field : String) : Outcome Int :=
  (ofExcept (L.parseDuration text)).wrap s!"invalid smartbft config {field}"

/-- `validateSmartBFTConfig`. It starts from SmartBFT's default configuration, of which it replaces every field. -/
def validateSmartBFTConfig (id : UInt64) (cfg : Option SmartBFTConfig) : Outcome Unit := do
  let cfg ← nonNil cfg "smartbft config is nil"
  let requestBatchMaxInterval ← parseBFTDuration L cfg.requestBatchMaxInterval "RequestBatchMaxInterval"
  let requestForwardTimeout ← parseBFTDuration L cfg.requestForwardTimeout "RequestForwardTimeout"
  let requestComplainTimeout ← parseBFTDuration L cfg.requestComplainTimeout "RequestComplainTimeout"
  let requestAutoRemoveTimeout ← parseBFTDuration L cfg.requestAutoRemoveTimeout "RequestAutoRemoveTimeout"
  let viewChangeResendInterval ← parseBFTDuration L cfg.viewChangeResendInterval "ViewChangeResendInterval"
  let viewChangeTimeout ← parseBFTDuration L cfg.viewChangeTimeout "ViewChangeTimeout"
  let leaderHeartbeatTimeout ← parseBFTDuration L cfg.leaderHeartbeatTimeout "LeaderHeartbeatTimeout"
  let collectTimeout ← parseBFTDuration L cfg.collectTimeout "CollectTimeout"
  let requestPoolSubmitTimeout ← parseBFTDuration L cfg.requestPoolSubmitTimeout "RequestPoolSubmitTimeout"
  BFTConfiguration.validate {
    selfID := id
    requestBatchMaxCount := cfg.requestBatchMaxCount
    requestBatchMaxBytes := cfg.requestBatchMaxBytes
    requestBatchMaxInterval
    incomingMessageBufferSize := cfg.incomingMessageBufferSize
    requestPoolSize := cfg.requestPoolSize
    requestForwardTimeout
    requestComplainTimeout
    requestAutoRemoveTimeout
    viewChangeResendInterval
    viewChangeTimeout
    leaderHeartbeatTimeout
    leaderHeartbeatCount := cfg.leaderHeartbeatCount
    numOfTicksBehindBeforeSyncing := cfg.numOfTicksBehindBeforeSyncing
    collectTimeout
    leaderRotation := cfg.leaderRotation
    decisionsPerLeader := cfg.decisionsPerLeader
    requestMaxBytes := cfg.requestMaxBytes
    requestPoolSubmitTimeout }

/-! ## Organizations and consenters -/

def validateOrdererOrgEndpoints (endpoints : List String) : Outcome Unit := do
  require (endpoints.length ≠ 0) "endpoints are empty"
  let eps ← mapEach (fun _ raw => ofExcept (L.parseOrdererEndpoint raw)) 0 endpoints
  require (∃ ep ∈ eps, broadcast ∈ ep.api) "missing broadcast endpoint"
  require (∃ ep ∈ eps, deliver ∈ ep.api) "missing deliver endpoint"

/-- One round of the second loop of `validateConsenterConsistency`. -/
def validateConsenter (partiesMap : AList fun _ : UInt32 => PartyConfig) (consenter : Option Consenter) :
    Outcome Unit := do
  let consenter ← nonNil consenter "consenter config is nil in shared config"
  let party ← nonNil (partiesMap.lookup consenter.id) s!"party ID {consenter.id} missing from shared config"
  let nodeCfg ← nonNil party.consenterConfig
    s!"consenter config missing in shared config for party {consenter.id}"
  require (consenter.host = nodeCfg.host)
    s!"host mismatch for party {consenter.id}: {consenter.host} != {nodeCfg.host}"
  require (consenter.port = nodeCfg.port)
    s!"port mismatch for party {consenter.id}: {consenter.port} != {nodeCfg.port}"
  require (consenter.identity = nodeCfg.signCert) s!"identity/sign_cert mismatch for party {consenter.id}"
  require (¬ (0 < consenter.serverTlsCert.length ∧ consenter.serverTlsCert ≠ nodeCfg.tlsCert))
    s!"server TLS certificate mismatch for party {consenter.id}"
  require (¬ (0 < consenter.clientTlsCert.length ∧ consenter.clientTlsCert ≠ nodeCfg.tlsCert))
    s!"client TLS certificate mismatch for party {consenter.id}"

/-- The map of parties by their ids; of several entries of one id the last one stays. -/
def partiesByID (parties : List PartyConfig) : AList fun _ : UInt32 => PartyConfig :=
  gather PartyConfig.partyID overwrite parties

def validateConsenterConsistency (consenters : List (Option Consenter)) (parties : List (Option PartyConfig)) :
    Outcome Unit := do
  require (consenters.length = parties.length)
    (s!"number of parties in Orderer consenters mapping ({consenters.length}) does not match number of parties in " ++
      s!"Shared config ({parties.length})")
  let parties ← mapEach (fun _ p => nonNil p "party config is nil in shared config") 0 parties
  forEach (fun _ => validateConsenter (partiesByID parties)) 0 consenters

/-- The organizations by their MSP ids. -/
def orgsByMSPID (orgs : List (String × OrdererOrg)) : AList fun _ : String => OrdererOrg :=
  gather (fun e => e.2.mspID) (fun _ e => e.2) orgs

/-- The second loop of rule 7: the organization of each consenter, by the consenter's id. -/
def partyOrgs (orgMap : AList fun _ : String => OrdererOrg) (consenters : List (Option Consenter)) :
    Outcome (AList fun _ : UInt32 => OrdererOrg) := do
  let entries ← mapEach (fun _ consenter => do
    let consenter ← nonNil consenter "consenter config is nil"
    let org ← nonNil (orgMap.lookup consenter.mspId)
      s!"missing orderer organization for party {consenter.id}"
    return (consenter.id, org)) 0 consenters
  return gather Prod.fst (fun _ e => e.2) entries

def certificateSetsEqual (sharedConfigCerts orgCerts : List Bytes) : Outcome Unit := do
  forEach (fun _ cert => require (sharedConfigCerts.contains cert)
    s!"certificate exists in orderer organization MSP but is missing from shared config: {L.quote cert}") 0 orgCerts
  forEach (fun _ cert => require (orgCerts.contains cert)
    s!"certificate exists in shared config but is missing from orderer organization MSP: {L.quote cert}") 0
    sharedConfigCerts

variable (parties : List (Option PartyConfig)) (partyOrgMap : AList fun _ : UInt32 => OrdererOrg)

def validateTLSCACertsConsistency : Outcome Unit :=
  forEach (fun _ party => do
    let party ← nonNil party "party config is nil in shared config"
    let org ← nonNil (partyOrgMap.lookup party.partyID)
      s!"missing orderer organization for party {party.partyID}"
    let orgTLSCACerts := org.tlsRootCerts ++ org.tlsIntermediateCerts
    require (orgTLSCACerts.length ≠ 0)
      s!"orderer organization for party {party.partyID} has no TLS root or intermediate CA certificates"
    (certificateSetsEqual L party.tlsCACerts orgTLSCACerts).wrap
      s!"TLS CA certificates mismatch for party {party.partyID}") 0 parties

/-- `validateRouterAndAssemblerEndpoints`, without its warnings. -/
def validateRouterAndAssemblerEndpoints : Outcome Unit :=
  forEach (fun _ party => do
    let party ← deref party
    let org ← nonNil (partyOrgMap.lookup party.partyID)
      s!"missing orderer organization for party {party.partyID}"
    forEach (fun _ raw => do
      let _ ← ofExcept (L.parseOrdererEndpoint raw)
      return) 0 org.endpoints) 0 parties

/-! ## The block validation policy -/

/-- `policies.ComputeBFTQuorum`: half of the sum, rounded up. -/
def computeBFTQuorum (totalNodes faultyNodes : Nat) : Nat := (totalNodes + faultyNodes + 1 + 1) / 2

/-- The loop of `validateBlockValidationPolicy` over the rules, from rule `i` on. -/
def checkSignedBy (n : Nat) : Nat → List (Option SignaturePolicy) → List Bool → Outcome Unit
  | _, [], _ => .ok ()
  | i, rule :: rules, seenSignedBy => do
    let rule ← nonNil rule s!"policy rule {i} is nil"
    match rule with
    | .signedBy idx => do
      require (0 ≤ idx.toInt ∧ idx.toInt < n) s!"invalid SignedBy index {idx}"
      let seen ← index seenSignedBy idx.toInt.toNat
      require (¬ seen) s!"duplicate SignedBy index {idx}"
      checkSignedBy n (i + 1) rules (seenSignedBy.set idx.toInt.toNat true)
    | _ => fail s!"policy rule {i} is not SignedBy"

/-- The loop over the identities: those that are expected and not found yet. -/
def checkIdentities : List (Option MSPPrincipal) → List Bytes → Outcome (List Bytes)
  | [], expectedIdentities => .ok expectedIdentities
  | id :: ids, expectedIdentities => do
    let id ← nonNil id "identity is nil"
    require id.identity "invalid identity classification"
    require (expectedIdentities.contains id.principal) "unexpected identity in policy"
    checkIdentities ids (expectedIdentities.erase id.principal)

def SignaturePolicyEnvelope.getNOutOf (envelope : SignaturePolicyEnvelope) :
    Option (Int32 × List (Option SignaturePolicy)) :=
  match envelope.rule with
  | some (.nOutOf n rules) => some (n, rules)
  | _ => none

def validateBlockValidationPolicy (policy : Option ConfigPolicy) (consenters : List (Option Consenter)) :
    Outcome Unit := do
  let policy ← nonNil policy "block validation policy is missing from orderer group"
  let policy ← nonNil policy.policy "block validation policy is nil"
  require (policy.type = policySignature) "policy type is not signature"
  let envelope ← (ofExcept (L.unmarshalSignaturePolicy policy.value)).wrap "failed to unmarshal policy"
  let n := consenters.length
  let f := (n - 1) / 3
  let expectedQuorum := Int32.ofNat (computeBFTQuorum n f)
  let nOutOf ← nonNil envelope.getNOutOf "block validation policy rule is not NOutOf"
  require (nOutOf.1 = expectedQuorum) s!"quorum mismatch expected {expectedQuorum} got {nOutOf.1}"
  require (nOutOf.2.length = n) s!"unexpected number of policy rules: expected {n} got {nOutOf.2.length}"
  checkSignedBy n 0 nOutOf.2 (replicate n false)
  let consenters ← mapEach (fun _ c => nonNil c "consenter is nil") 0 consenters
  let expectedIdentities := consenters.foldl (fun ids c => ids.insert (L.marshalIdentity c.mspId c.identity)) []
  let missing ← checkIdentities envelope.identities expectedIdentities
  require (missing.length = 0) "missing identities in policy"

/-! ## Certificates -/

def parseCertificateFromBytes (cert : Bytes) : Outcome Certificate := do
  let pemBlock ← nonNil (L.pemDecode cert) "no PEM data found in certificate"
  require (pemBlock.type = "CERTIFICATE")
    s!"expected PEM block of type CERTIFICATE, but found {pemBlock.type}"
  (ofExcept (L.parseCertificate pemBlock.bytes)).wrap "failed to parse certificate from ASN1 structure"

def validateCACert (raw : Bytes) : Outcome Certificate := do
  require (raw.length ≠ 0) "certificate is empty"
  let cert ← parseCertificateFromBytes L raw
  require cert.isCA s!"certificate {L.quote cert.subject} is not a CA"
  return cert

def verifyCert (raw : Bytes) (opts : VerifyOptions) (ignoreExpiration : Bool) (now : Int) : Outcome Unit := do
  require (raw.length ≠ 0) "certificate is empty"
  let cert ← parseCertificateFromBytes L raw
  let opts := if ignoreExpiration then { opts with currentTime := cert.notBefore } else opts
  (ofExcept (L.verifyCertificate cert opts)).wrap
    s!"verifying certificate with serial number {cert.serialNumber}"
  require (¬ (ignoreExpiration ∧ now < cert.notBefore))
    s!"certificate with serial number {cert.serialNumber} is not yet valid"

variable (tlsOpts signOpts : VerifyOptions) (ignoreExpiration : Bool) (now : Int) (role : String)

/-- The two certificates of a node in `validatePartyCertificates`. -/
def verifyNodeCerts (node : NodeSection) : Outcome Unit := do
  (verifyCert L node.tlsCert tlsOpts ignoreExpiration now).wrap s!"{role} TLS certificate validation failed"
  (verifyCert L node.signCert signOpts ignoreExpiration now).wrap s!"{role} signing certificate validation failed"

/-- A node of a party that must be there. -/
def verifyNode (node : Option NodeSection) : Outcome Unit := do
  let node ← nonNil node s!"{role} config is nil"
  verifyNodeCerts L tlsOpts signOpts ignoreExpiration now role node

def validatePartyCertificates (now : Int) (party : PartyConfig) (ignoreExpiration : Bool) : Outcome Unit := do
  require (party.tlsCACerts.length ≠ 0) "empty TLS CA certificates"
  require (party.caCerts.length ≠ 0) "empty signing CA certificates"
  let tlsPool ← mapEach (fun _ raw => (validateCACert L raw).wrap "invalid TLS CA certificate") 0
    party.tlsCACerts
  let tlsOpts : VerifyOptions := ⟨tlsPool, [.clientAuth, .serverAuth], now⟩
  let signPool ← mapEach (fun _ raw => (validateCACert L raw).wrap "invalid CA certificate") 0 party.caCerts
  let signOpts : VerifyOptions := ⟨signPool, [.any], now⟩
  verifyNode L tlsOpts signOpts ignoreExpiration now "router" party.routerConfig
  verifyNode L tlsOpts signOpts ignoreExpiration now "assembler" party.assemblerConfig
  verifyNode L tlsOpts signOpts ignoreExpiration now "consenter" party.consenterConfig
  forEach (fun _ b =>
    verifyNode L tlsOpts signOpts ignoreExpiration now "batcher" (b.map BatcherNodeConfig.toNodeSection)) 0
    party.batchersConfig

/-- `GetSignCert`, of a node that may be nil. -/
def getSignCert (node : Option NodeSection) : Bytes := (node.map NodeSection.signCert).getD []

/-- The signing certificates of the nodes of a party, with their nodes. -/
def signCerts (party : PartyConfig) : List (NodeIdentity × Bytes) :=
  let partyID := party.partyID.toUInt16
  [(newRouterIdentity partyID, getSignCert party.routerConfig),
    (newAssemblerIdentity partyID, getSignCert party.assemblerConfig),
    (newConsenterIdentity partyID, getSignCert party.consenterConfig)] ++
  party.batchersConfig.map fun b =>
    (newBatcherIdentity partyID ((b.map BatcherNodeConfig.shardID).getD 0).toUInt16,
      getSignCert (b.map BatcherNodeConfig.toNodeSection))

/-- One round of the inner loop of `validateUniqueSigningCerts`. -/
def claimSigningKey (signCertOwners : AList fun _ : Bytes => NodeIdentity) (sc : NodeIdentity × Bytes) :
    Outcome (AList fun _ : Bytes => NodeIdentity) := do
  let cert ← (parseCertificateFromBytes L sc.2).wrap s!"invalid signing certificate of {sc.1.text}"
  match signCertOwners.lookup cert.rawSubjectPublicKeyInfo with
  | some owner => fail s!"{owner.text} and {sc.1.text} share the same signing key"
  | none => return signCertOwners.insert cert.rawSubjectPublicKeyInfo sc.1

def validateUniqueSigningCerts (parties : List (Option PartyConfig)) : Outcome Unit := do
  let _ ← parties.foldlM (fun signCertOwners party => do
    let party ← nonNil party "party config is nil"
    (signCerts party).foldlM (claimSigningKey L) signCertOwners) (∅ : AList fun _ : Bytes => NodeIdentity)
  return

/-! ## Ids -/

/-- A shard id is in `[1, ShardIDConsensus - 1]`. -/
def validateShardID (party : PartyConfig) (batcher : Option BatcherNodeConfig) : Outcome Unit := do
  let batcher ← nonNil batcher s!"nil batcher config for party {party.partyID}"
  require (¬ (batcher.shardID = 0 ∨ shardIDConsensus.toUInt32 ≤ batcher.shardID))
    s!"shard ID {batcher.shardID} of party {party.partyID} out of range [1, {shardIDConsensus - 1}]"

/-- One round of the loop of `validatePartyAndShardIDs`. -/
def validatePartyID (maxPartyID : UInt32) (party : Option PartyConfig) : Outcome Unit := do
  let party ← nonNil party "party config is nil"
  require (¬ (party.partyID = 0 ∨ maxUint16 < party.partyID.toNat))
    s!"party ID {party.partyID} out of range [1, {maxUint16}]"
  require (party.partyID ≤ maxPartyID) s!"party ID {party.partyID} exceeds MaxPartyID {maxPartyID}"
  forEach (fun _ => validateShardID party) 0 party.batchersConfig

def validatePartyAndShardIDs (parties : List (Option PartyConfig)) (maxPartyID : UInt32) : Outcome Unit :=
  forEach (fun _ => validatePartyID maxPartyID) 0 parties

/-! ## All rules -/

def validateNewConfig (rt : Runtime) (envelope : Envelope) (partyID : PartyID) : Outcome Unit := do
  let bundle ← (ofExcept (L.newBundleFromEnvelope envelope)).wrap
    "failed to create bundle from envelope config"
  let ordererConfig ← nonNil bundle.ordererConfig "orderer entry in the config block is empty"
  let sharedConfig ← (ofExcept (L.unmarshalSharedConfig ordererConfig.consensusMetadata)).wrap
    "failed to unmarshal consensus metadata"
  let batchingConfig ← nonNil sharedConfig.batchingConfig "batching config is nil"
  let consensusConfig ← nonNil sharedConfig.consensusConfig "consensus config is nil"
  -- 1.
  validateBatchTimeout L batchingConfig.batchTimeouts
  -- 2. The batch size is not checked for nil.
  let batchSize ← deref batchingConfig.batchSize
  require (batchSize.absoluteMaxBytes = ordererConfig.absoluteMaxBytes)
    "batch size differs between shared and orderer config"
  -- 3.
  require (0 < batchingConfig.requestMaxBytes) "BatchingConfig RequestMaxBytes must be greater than zero"
  let bftConfig ← nonNil consensusConfig.smartBFTConfig "smartbft config is nil"
  require (batchingConfig.requestMaxBytes ≤ bftConfig.requestMaxBytes)
    "smartbft RequestMaxBytes must be equal or greater than BatchingConfig RequestMaxBytes"
  -- 4.
  (validateSmartBFTConfig L partyID.toUInt64 (some bftConfig)).wrap "smartbft config validation failed"
  -- 5.
  forEach (fun _ org => (validateOrdererOrgEndpoints L org.2.endpoints).wrap
    s!"invalid endpoints for orderer organization {org.2.name}") 0
    (rt.endpoints.order (pairs ordererConfig.organizations))
  -- 6.
  (validateConsenterConsistency ordererConfig.consenters sharedConfig.partiesConfig).wrap
    "consenter mapping is inconsistent with shared config parties"
  -- 7.
  let orgMap := orgsByMSPID (rt.orgMap.order (pairs ordererConfig.organizations))
  let partyOrgMap ← partyOrgs orgMap ordererConfig.consenters
  -- 8.
  (validateTLSCACertsConsistency L sharedConfig.partiesConfig partyOrgMap).wrap
    "orderer organization TLS CA certificates are inconsistent with shared config"
  -- 9.
  (validateBlockValidationPolicy L bundle.blockValidationPolicy ordererConfig.consenters).wrap
    "invalid block validation policy"
  -- 10.
  let ignoreExpiration := decide (0 < bundle.sequence)
  forEach (fun _ party => do
    let party ← deref party
    (validatePartyCertificates L rt.now party ignoreExpiration).wrap
      s!"certificate validation failed for party ID {party.partyID}") 0 sharedConfig.partiesConfig
  -- 11.
  require (sharedConfig.maxPartyID.toNat ≤ maxUint16)
    s!"MaxPartyID {sharedConfig.maxPartyID} exceeds uint16 maximum {maxUint16}"
  (validatePartyAndShardIDs sharedConfig.partiesConfig sharedConfig.maxPartyID).wrap
    "invalid party or shard ID in shared config"
  -- 12.
  (validateRouterAndAssemblerEndpoints L sharedConfig.partiesConfig partyOrgMap).wrap
    "failed to verify router and assembler endpoints against shared config"
  -- 13.
  validateUniqueSigningCerts L sharedConfig.partiesConfig

/-! ## What an accepted configuration has passed -/

/-- Rules 1 to 4. -/
structure BatchingPasses (partyID : PartyID) (oc : OrdererConfig) (sc : SharedConfig) (batching : BatchingConfig)
    (batchSize : BatchSize) (bft : SmartBFTConfig) : Prop where
  batchingConfig : sc.batchingConfig = some batching
  consensusConfig : sc.consensusConfig = some ⟨some bft⟩
  batchTimeout : validateBatchTimeout L batching.batchTimeouts = .ok ()
  batchSize_eq : batching.batchSize = some batchSize
  absoluteMaxBytes : batchSize.absoluteMaxBytes = oc.absoluteMaxBytes
  requestMaxBytes_pos : 0 < batching.requestMaxBytes
  requestMaxBytes_le : batching.requestMaxBytes ≤ bft.requestMaxBytes
  smartBFT : validateSmartBFTConfig L partyID.toUInt64 (some bft) = .ok ()

/-- All rules, of a configuration that was read. -/
structure Passes (rt : Runtime) (partyID : PartyID) (bundle : Bundle) (oc : OrdererConfig) (sc : SharedConfig) :
    Prop where
  batching : ∃ batching batchSize bft, BatchingPasses L partyID oc sc batching batchSize bft
  endpoints : ∀ org ∈ rt.endpoints.order (pairs oc.organizations),
    validateOrdererOrgEndpoints L org.2.endpoints = .ok ()
  consenters : validateConsenterConsistency oc.consenters sc.partiesConfig = .ok ()
  orgs : ∃ partyOrgMap,
    partyOrgs (orgsByMSPID (rt.orgMap.order (pairs oc.organizations))) oc.consenters = .ok partyOrgMap ∧
    validateTLSCACertsConsistency L sc.partiesConfig partyOrgMap = .ok () ∧
    validateRouterAndAssemblerEndpoints L sc.partiesConfig partyOrgMap = .ok ()
  policy : validateBlockValidationPolicy L bundle.blockValidationPolicy oc.consenters = .ok ()
  certificates : ∀ party ∈ sc.partiesConfig, ∃ p, party = some p ∧
    validatePartyCertificates L rt.now p (decide (0 < bundle.sequence)) = .ok ()
  maxPartyID : sc.maxPartyID.toNat ≤ maxUint16
  ids : validatePartyAndShardIDs sc.partiesConfig sc.maxPartyID = .ok ()
  signingKeys : validateUniqueSigningCerts L sc.partiesConfig = .ok ()

variable {L} {rt : Runtime} {envelope : Envelope} {partyID : PartyID}

theorem validateNewConfig_eq_ok : validateNewConfig L rt envelope partyID = .ok () ↔ ∃ bundle oc sc,
      L.newBundleFromEnvelope envelope = .ok bundle ∧ bundle.ordererConfig = some oc ∧
      L.unmarshalSharedConfig oc.consensusMetadata = .ok sc ∧ Passes L rt partyID bundle oc sc := by
  simp only [validateNewConfig, bind_eq_ok, wrap_eq_ok, ofExcept_eq_ok, nonNil_eq_ok,
    deref_eq_ok, require_eq_ok, forEach_eq_ok_iff_mem, exists_unit, exists_and_left]
  constructor
  · rintro ⟨bundle, hbundle, oc, hoc, sc, hsc, batching, hbatching, consensus, hconsensus, htimeout, size, hsize, hmax,
      hpos, bft, hbft, hle, hsmart, hendpoints, hconsenters, orgs, horgs, htls, hpolicy, hcerts, hmaxParty, hids,
      hrouter, hkeys⟩
    have hbatch : BatchingPasses L partyID oc sc batching size bft :=
      ⟨hbatching, by rw [hconsensus, ← hbft], htimeout, hsize, hmax, hpos, hle, hsmart⟩
    exact ⟨bundle, hbundle, oc, hoc, sc, hsc, ⟨_, _, _, hbatch⟩, hendpoints, hconsenters, ⟨orgs, horgs, htls, hrouter⟩,
      hpolicy, hcerts, hmaxParty, hids, hkeys⟩
  · rintro ⟨bundle, hbundle, oc, hoc, sc, hsc, ⟨batching, size, bft, hbatch⟩, hendpoints, hconsenters,
      ⟨orgs, horgs, htls, hrouter⟩, hpolicy, hcerts, hmaxParty, hids, hkeys⟩
    exact ⟨bundle, hbundle, oc, hoc, sc, hsc, batching, hbatch.batchingConfig, _, hbatch.consensusConfig,
      hbatch.batchTimeout, size, hbatch.batchSize_eq, hbatch.absoluteMaxBytes, hbatch.requestMaxBytes_pos, bft, rfl,
      hbatch.requestMaxBytes_le, hbatch.smartBFT, hendpoints, hconsenters, orgs, horgs, htls, hpolicy, hcerts,
      hmaxParty, hids, hrouter, hkeys⟩

/-! ## The parties of an accepted configuration -/

structure Consenter.Matches (c : Consenter) (party : PartyConfig) (nodeCfg : NodeSection) : Prop where
  consenterConfig : party.consenterConfig = some nodeCfg
  host : c.host = nodeCfg.host
  port : c.port = nodeCfg.port
  identity : c.identity = nodeCfg.signCert
  serverTlsCert : ¬ (0 < c.serverTlsCert.length ∧ c.serverTlsCert ≠ nodeCfg.tlsCert)
  clientTlsCert : ¬ (0 < c.clientTlsCert.length ∧ c.clientTlsCert ≠ nodeCfg.tlsCert)

theorem validateConsenter_eq_ok {partiesMap} {consenter} :
    validateConsenter partiesMap consenter = .ok () ↔ ∃ c party nodeCfg, consenter = some c ∧
      partiesMap.lookup c.id = some party ∧ c.Matches party nodeCfg := by
  simp only [validateConsenter, bind_eq_ok, nonNil_eq_ok, require_eq_ok, exists_unit]
  constructor
  · rintro ⟨c, hc, party, hparty, nodeCfg, hnode, hhost, hport, hid, hserver, hclient⟩
    exact ⟨c, party, nodeCfg, hc, hparty, hnode, hhost, hport, hid, hserver, hclient⟩
  · rintro ⟨c, party, nodeCfg, hc, hparty, hnode, hhost, hport, hid, hserver, hclient⟩
    exact ⟨c, hc, party, hparty, nodeCfg, hnode, hhost, hport, hid, hserver, hclient⟩

theorem validateConsenterConsistency_eq_ok {consenters parties}
    (h : validateConsenterConsistency consenters parties = .ok ()) :
    ∃ (cs : List Consenter) (ps : List PartyConfig), consenters = cs.map some ∧ parties = ps.map some ∧
      cs.length = ps.length ∧ ∀ c ∈ cs, ∃ p ∈ ps, p.partyID = c.id ∧ ∃ nodeCfg, c.Matches p nodeCfg := by
  simp only [validateConsenterConsistency, bind_eq_ok, require_eq_ok, exists_unit,
    mapEach_nonNil_eq_ok, forEach_eq_ok_iff_mem, validateConsenter_eq_ok] at h
  obtain ⟨hlen, ps, rfl, hmatch⟩ := h
  obtain ⟨cs, rfl⟩ := exists_eq_map_some fun o ho => by
    obtain ⟨c, -, -, hc, -⟩ := hmatch o ho
    exact ⟨c, hc⟩
  refine ⟨cs, ps, rfl, rfl, by simpa using hlen, fun c hc => ?_⟩
  obtain ⟨c', p, nodeCfg, hc', hlookup, hnode⟩ := hmatch (some c) (mem_map_of_mem hc)
  cases hc'
  obtain ⟨hp, hid⟩ := of_lookup_gather_overwrite hlookup
  exact ⟨p, hp, hid, nodeCfg, hnode⟩

/-- The batchers of a party, none of them nil, with shard ids in range. -/
def PartyConfig.BatchersInRange (p : PartyConfig) : Prop :=
  ∃ bs : List BatcherNodeConfig, p.batchersConfig = bs.map some ∧
    ∀ b ∈ bs, b.shardID ≠ 0 ∧ b.shardID < shardIDConsensus.toUInt32

theorem validatePartyID_eq_ok {maxPartyID p} (h : validatePartyID maxPartyID (some p) = .ok ()) :
    p.partyID ≠ 0 ∧ p.partyID ≤ maxPartyID ∧ p.BatchersInRange := by
  simp only [validatePartyID, bind_eq_ok, nonNil_eq_ok, require_eq_ok, exists_unit,
    forEach_eq_ok_iff_mem, validateShardID] at h
  obtain ⟨_, hp, hid, hmax, hbatchers⟩ := h
  cases hp
  obtain ⟨bs, hbs⟩ := exists_eq_map_some fun o ho => by
    obtain ⟨b, hb, -⟩ := hbatchers o ho
    exact ⟨b, hb⟩
  refine ⟨(not_or.mp hid).1, hmax, bs, hbs, fun b hb => ?_⟩
  obtain ⟨b', hb', hrange⟩ := hbatchers (some b) (hbs ▸ mem_map_of_mem hb)
  cases hb'
  exact ⟨(not_or.mp hrange).1, UInt32.not_le.mp (not_or.mp hrange).2⟩

/-- The consenters and the parties of an accepted configuration. -/
structure Roll (oc : OrdererConfig) (sc : SharedConfig) (cs : List Consenter) (ps : List PartyConfig) : Prop where
  consenters : oc.consenters = cs.map some
  parties : sc.partiesConfig = ps.map some
  length_eq : cs.length = ps.length
  party_of : ∀ c ∈ cs, ∃ p ∈ ps, p.partyID = c.id ∧ ∃ nodeCfg, c.Matches p nodeCfg
  id_ne_zero : ∀ p ∈ ps, p.partyID ≠ 0
  id_le : ∀ p ∈ ps, p.partyID ≤ sc.maxPartyID
  max_le : sc.maxPartyID.toNat ≤ maxUint16
  batchers : ∀ p ∈ ps, p.BatchersInRange

theorem Passes.roll {bundle oc sc} (h : Passes L rt partyID bundle oc sc) : ∃ cs ps, Roll oc sc cs ps := by
  obtain ⟨cs, ps, hcs, hps, hlen, hparty⟩ := validateConsenterConsistency_eq_ok h.consenters
  have hids : ∀ p ∈ ps, p.partyID ≠ 0 ∧ p.partyID ≤ sc.maxPartyID ∧ p.BatchersInRange := fun p hp =>
    validatePartyID_eq_ok (forEach_eq_ok_iff_mem.mp h.ids (some p) (hps ▸ mem_map_of_mem hp))
  exact ⟨cs, ps, hcs, hps, hlen, hparty, fun p hp => (hids p hp).1, fun p hp => (hids p hp).2.1, h.maxPartyID,
    fun p hp => (hids p hp).2.2⟩

section Roll

variable {oc : OrdererConfig} {sc : SharedConfig} {cs : List Consenter} {ps : List PartyConfig}

theorem Roll.perm (h : Roll oc sc cs ps) (hnodup : (cs.map Consenter.id).Nodup) :
    (cs.map Consenter.id).Perm (ps.map PartyConfig.partyID) := by
  have hsub : cs.map Consenter.id ⊆ ps.map PartyConfig.partyID := by
    intro id hid
    obtain ⟨c, hc, rfl⟩ := mem_map.mp hid
    obtain ⟨p, hp, hpid, -⟩ := h.party_of c hc
    exact mem_map.mpr ⟨p, hp, hpid⟩
  have hlen : (ps.map PartyConfig.partyID).length ≤ (cs.map Consenter.id).length := by
    simp [h.length_eq]
  exact (subperm_of_subset hnodup hsub).perm_of_length_le hlen

theorem Roll.nodup (h : Roll oc sc cs ps) (hnodup : (cs.map Consenter.id).Nodup) :
    (ps.map PartyConfig.partyID).Nodup := (h.perm hnodup).nodup_iff.mp hnodup

end Roll

end Arma.Verify
