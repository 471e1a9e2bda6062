import Arma.Config.Rules
import Arma.Lib.Roster

/-!
# The rules of a transition

Model of `DefaultOrdererRules.ValidateTransition` (`config/verify/orderer_rules.go`), which compares a proposed
configuration with the current one, and of the chains of configurations that it admits.

* `computePartyChanges_eq_ok` says what the changes are, and `validateTransition_eq_ok` what is admitted.
* `Follows.step`: one admitted transition is one step of a `Roster`, so an accepted chain is a run of rosters.
* **`party_ids_never_reused`**: in every configuration of an accepted chain the parties are the consenters, each once;
  `MaxPartyID` never decreases; neighbours differ by one party at most; and the id of a removed party never comes back.
-/

namespace Arma.Verify

open Arma.Lib Outcome List PartyConfig

/-! ## Comparing the parties -/

/-- `validatePartyModification`: whether a party was modified. -/
def validatePartyModification (curr next : PartyConfig) : Outcome Bool :=
  if curr = next then .ok false
  else do
    require (curr.batchersConfig.length = next.batchersConfig.length)
      s!"batcher shards cannot change for party {curr.partyID}"
    let nextBatchers ← mapEach (fun _ b =>
      nonNil b s!"batcher config is nil for party {curr.partyID} in next config") 0 next.batchersConfig
    let nextShardIDs := nextBatchers.map BatcherNodeConfig.shardID
    forEach (fun _ b => do
      let b ← nonNil b s!"batcher config is nil for party {curr.partyID} in current config"
      require (b.shardID ∈ nextShardIDs) s!"batcher shard IDs cannot change for party {curr.partyID}") 0
      curr.batchersConfig
    return true

structure PartyChanges where
  added : List PartyConfig
  removed : List PartyConfig
  modified : List PartyConfig

/-- What the second loop of `computePartyChanges` finds about a party of `currMap`. -/
inductive PartyChange where
  | removed (currParty : PartyConfig)
  | modified (nextParty : PartyConfig)
  | unchanged

def PartyChange.asRemoved : PartyChange → Option PartyConfig
  | .removed p => some p
  | _ => none

def PartyChange.asModified : PartyChange → Option PartyConfig
  | .modified p => some p
  | _ => none

/-- One round of that loop. -/
def compareParty (nextMap : AList fun _ : UInt32 => PartyConfig) (currParty : PartyConfig) : Outcome PartyChange :=
  match nextMap.lookup currParty.partyID with
  | none => .ok (.removed currParty)
  | some nextParty => do
    let changed ← (validatePartyModification currParty nextParty).wrap
      s!"invalid modification for party ID {currParty.partyID}"
    return if changed then .modified nextParty else .unchanged

def computePartyChanges (rt : Runtime) (currMap nextMap : AList fun _ : UInt32 => PartyConfig) :
    Outcome PartyChanges := do
  let added := ((rt.added.order (pairs nextMap)).map Prod.snd).filter fun p => p.partyID ∉ currMap
  let found ← mapEach (fun _ => compareParty nextMap) 0 ((rt.removed.order (pairs currMap)).map Prod.snd)
  return ⟨added, found.filterMap PartyChange.asRemoved, found.filterMap PartyChange.asModified⟩

/-- Rule 3. -/
def validateMaxPartyID (currCfg nextCfg : SharedConfig) (added : List PartyConfig) : Outcome Unit :=
  match added with
  | [party] => do
    let newID := party.partyID
    require (¬ newID ≤ currCfg.maxPartyID)
      s!"proposed party ID {newID} must be greater than previous MaxPartyID {currCfg.maxPartyID}"
    require (nextCfg.maxPartyID = newID)
      s!"proposed MaxPartyID {nextCfg.maxPartyID} must equal the newly added PartyID {newID}"
    require (nextCfg.maxPartyID = currCfg.maxPartyID + 1)
      s!"proposed MaxPartyID {nextCfg.maxPartyID} must be greater than previous MaxPartyID {currCfg.maxPartyID} by one"
  | _ =>
    require (nextCfg.maxPartyID = currCfg.maxPartyID)
      s!"MaxPartyID cannot change if no new party is added (current={currCfg.maxPartyID}, next={nextCfg.maxPartyID})"

def validateTransition (L : Libraries) (rt : Runtime) (current : Bundle) (next : Envelope) : Outcome Unit := do
  let currOrdererCfg ← nonNil current.ordererConfig "no orderer config found"
  let currCfg ← (ofExcept (L.unmarshalSharedConfig currOrdererCfg.consensusMetadata)).wrap
    "failed to unmarshal current consensus metadata"
  let nextBundle ← (ofExcept (L.newBundleFromEnvelope next)).wrap
    "failed to create bundle from next envelope config"
  -- 1.
  require (current.channelID = nextBundle.channelID) "channel ID cannot change in the proposed config"
  let nextOrdererCfg ← nonNil nextBundle.ordererConfig "orderer entry in the config block is empty"
  let nextCfg ← (ofExcept (L.unmarshalSharedConfig nextOrdererCfg.consensusMetadata)).wrap
    "failed to unmarshal next consensus metadata"
  let currParties ← mapEach (fun _ p =>
    nonNil p "party config is nil in current shared config") 0 currCfg.partiesConfig
  let nextParties ← mapEach (fun _ p =>
    nonNil p "party config is nil in next shared config") 0 nextCfg.partiesConfig
  let changes ← computePartyChanges rt (partiesByID currParties) (partiesByID nextParties)
  -- 2.
  require (changes.added.length ≤ 1) "more than one party added in config tx"
  -- 3.
  validateMaxPartyID currCfg nextCfg changes.added
  -- 4.
  require (changes.removed.length ≤ 1) "more than one party removed in config tx"
  -- 5.
  require (changes.modified.length ≤ 1) "more than one party modified in config tx"
  -- 6.
  require (changes.added.length + changes.removed.length + changes.modified.length ≤ 1)
    (s!"only one party can be changed in a config tx (added={changes.added.length}, " ++
      s!"removed={changes.removed.length}, modified={changes.modified.length})")
  -- 7.
  forEach (fun _ party => (validatePartyCertificates L rt.now party false).wrap
    s!"certificate validation failed for added party ID {party.partyID}") 0 changes.added
  forEach (fun _ party => (validatePartyCertificates L rt.now party false).wrap
    s!"certificate validation failed for modified party ID {party.partyID}") 0 changes.modified

/-! ## What is admitted -/

variable {L : Libraries} {rt : Runtime}

/-- What `computePartyChanges` has found. -/
structure PartyChanges.Describes (changes : PartyChanges) (currMap nextMap : AList fun _ : UInt32 => PartyConfig) :
    Prop where
  mem_added : ∀ p, p ∈ changes.added ↔ nextMap.lookup p.partyID = some p ∧ p.partyID ∉ currMap
  mem_removed : ∀ p, p ∈ changes.removed ↔ currMap.lookup p.partyID = some p ∧ p.partyID ∉ nextMap
  kept : ∀ p q, currMap.lookup p.partyID = some p → nextMap.lookup p.partyID = some q →
    p = q ∨ validatePartyModification p q = .ok true ∧ q ∈ changes.modified

theorem validatePartyModification_eq_false {curr next}
    (h : validatePartyModification curr next = .ok false) : curr = next := by
  by_contra hne
  simp only [validatePartyModification, if_neg hne, bind_eq_ok, pure_eq, Except.ok.injEq,
    Bool.true_eq_false, and_false, exists_const] at h

variable {p : PartyConfig}

theorem mem_map_snd_order {m} {order : RangeOrder UInt32 PartyConfig}
    (hm : ∀ k p, m.lookup k = some p → p.partyID = k) :
    p ∈ (order.order (pairs m)).map Prod.snd ↔ m.lookup p.partyID = some p := by
  have henum := (enumerates_pairs m).perm (order.perm _)
  constructor
  · intro h
    obtain ⟨⟨k, q⟩, hmem, rfl⟩ := mem_map.mp h
    have hk := henum.mem_iff.mp hmem
    rwa [hm k q hk]
  · intro h
    exact mem_map.mpr ⟨(p.partyID, p), henum.mem_iff.mpr h, rfl⟩

variable {nextMap : AList fun _ : UInt32 => PartyConfig}

theorem compareParty_removed {change} (h : compareParty nextMap p = .ok change) (q : PartyConfig) :
    change.asRemoved = some q ↔ q = p ∧ p.partyID ∉ nextMap := by
  unfold compareParty at h
  rw [← AList.lookup_eq_none]
  split at h
  next hnone =>
    cases h
    simp [PartyChange.asRemoved, hnone, eq_comm]
  next nextParty hsome =>
    obtain ⟨changed, -, hret⟩ := bind_eq_ok.mp h
    cases hret
    cases changed <;> simp [PartyChange.asRemoved, hsome]

variable {q : PartyConfig}

theorem compareParty_kept {change} (h : compareParty nextMap p = .ok change) (hq : nextMap.lookup p.partyID = some q) :
    p = q ∨ validatePartyModification p q = .ok true ∧ change.asModified = some q := by
  simp only [compareParty, hq, bind_eq_ok, wrap_eq_ok] at h
  obtain ⟨changed, hmod, hret⟩ := h
  cases hret
  cases changed with
  | false => exact .inl (validatePartyModification_eq_false hmod)
  | true => exact .inr ⟨hmod, rfl⟩

theorem computePartyChanges_eq_ok {currMap} {changes : PartyChanges}
    (hcurr : ∀ k p, currMap.lookup k = some p → p.partyID = k)
    (hnext : ∀ k p, nextMap.lookup k = some p → p.partyID = k)
    (h : computePartyChanges rt currMap nextMap = .ok changes) : changes.Describes currMap nextMap := by
  simp only [computePartyChanges, bind_eq_ok] at h
  obtain ⟨found, hfound, hret⟩ := h
  cases hret
  refine ⟨fun p => ?_, fun p => ?_, fun p q hp hq => ?_⟩
  · simp only [mem_filter, mem_map_snd_order hnext, decide_eq_true_eq]
  · rw [mem_filterMap]
    constructor
    · rintro ⟨change, hchange, hremoved⟩
      obtain ⟨q, hq, hcompare⟩ := exists_of_mem_mapEach hfound hchange
      obtain ⟨rfl, hout⟩ := (compareParty_removed hcompare p).mp hremoved
      exact ⟨(mem_map_snd_order hcurr).mp hq, hout⟩
    · rintro ⟨hp, hout⟩
      obtain ⟨change, hchange, hcompare⟩ := mem_mapEach_of_mem hfound ((mem_map_snd_order hcurr).mpr hp)
      exact ⟨change, hchange, (compareParty_removed hcompare p).mpr ⟨rfl, hout⟩⟩
  · obtain ⟨change, hchange, hcompare⟩ := mem_mapEach_of_mem hfound ((mem_map_snd_order hcurr).mpr hp)
    refine (compareParty_kept hcompare hq).imp_right ?_
    rintro ⟨hmod, hq'⟩
    exact ⟨hmod, mem_filterMap.mpr ⟨change, hchange, hq'⟩⟩

/-- What `ValidateTransition` has checked of the parties and their bound. -/
structure Admits (currCfg nextCfg : SharedConfig) (curr next : List PartyConfig) (changes : PartyChanges) : Prop where
  curr_eq : currCfg.partiesConfig = curr.map some
  next_eq : nextCfg.partiesConfig = next.map some
  describes : changes.Describes (partiesByID curr) (partiesByID next)
  maxPartyID : validateMaxPartyID currCfg nextCfg changes.added = .ok ()
  one : changes.added.length + changes.removed.length + changes.modified.length ≤ 1

theorem partyID_of_lookup {parties k}
    (h : (partiesByID parties).lookup k = some p) : p.partyID = k := (of_lookup_gather_overwrite h).2

/-- **An admitted transition**: both configurations can be read, and at most one party changes between them. -/
theorem validateTransition_eq_ok {current bundle envelope currOc nextOc currCfg nextCfg}
    (hcurrOc : current.ordererConfig = some currOc)
    (hcurrCfg : L.unmarshalSharedConfig currOc.consensusMetadata = .ok currCfg)
    (hbundle : L.newBundleFromEnvelope envelope = .ok bundle) (hnextOc : bundle.ordererConfig = some nextOc)
    (hnextCfg : L.unmarshalSharedConfig nextOc.consensusMetadata = .ok nextCfg)
    (h : validateTransition L rt current envelope = .ok ()) :
    ∃ curr next changes, Admits currCfg nextCfg curr next changes := by
  simp only [validateTransition, hcurrOc, hcurrCfg, hbundle, hnextOc, hnextCfg, nonNil_some,
    ofExcept_ok, wrap_ok, ok_bind, bind_eq_ok, require_eq_ok,
    exists_unit, mapEach_nonNil_eq_ok] at h
  obtain ⟨-, curr, hcurr, next, hnext, changes, hchanges, -, hmax, -, -, hone, -⟩ := h
  have hdescribes := computePartyChanges_eq_ok (fun _ _ => partyID_of_lookup) (fun _ _ => partyID_of_lookup) hchanges
  exact ⟨curr, next, changes, hcurr, hnext, hdescribes, hmax, hone⟩

section Admits

variable {currCfg nextCfg : SharedConfig} {curr next : List PartyConfig} {changes : PartyChanges}

theorem mem_partiesByID {parties id} : id ∈ partiesByID parties ↔ id ∈ parties.map partyID := by
  rw [mem_map]
  exact mem_gather

section

variable (h : Admits currCfg nextCfg curr next changes)
include h

theorem Admits.mem_or_added (hnodup : (next.map partyID).Nodup) (hq : q ∈ next) :
    q ∈ changes.added ∨ ∃ p ∈ curr, p.partyID = q.partyID ∧ (p = q ∨ validatePartyModification p q = .ok true) := by
  have hlookup : (partiesByID next).lookup q.partyID = some q := lookup_gather_overwrite_of_nodup hnodup hq
  by_cases hold : q.partyID ∈ partiesByID curr
  · obtain ⟨p, hp⟩ := Option.isSome_iff_exists.mp (AList.lookup_isSome.mpr hold)
    obtain ⟨hmem, hid⟩ := of_lookup_gather_overwrite hp
    rw [← hid] at hp hlookup
    exact .inr ⟨p, hmem, hid, (h.describes.kept p q hp hlookup).imp_right And.left⟩
  · exact .inl ((h.describes.mem_added q).mpr ⟨hlookup, hold⟩)

theorem Admits.added_fresh (hq : q ∈ changes.added) : q.partyID ∉ curr.map partyID :=
  fun hmem => ((h.describes.mem_added q).mp hq).2 (mem_partiesByID.mpr hmem)

theorem Admits.removed_mem (hp : p ∈ changes.removed) : p.partyID ∈ curr.map partyID :=
  mem_map_of_mem (of_lookup_gather_overwrite ((h.describes.mem_removed p).mp hp).1).1

/-- The ids that are added and removed are the difference of the two configurations. -/
theorem Admits.mem_iff (hcurr : (curr.map partyID).Nodup) (hnext : (next.map partyID).Nodup) (id : UInt32) :
    id ∈ next.map partyID ↔ id ∈ changes.added.map partyID ∨
      id ∈ curr.map partyID ∧ id ∉ changes.removed.map partyID := by
  constructor
  · intro hid
    obtain ⟨q, hq, rfl⟩ := mem_map.mp hid
    refine (h.mem_or_added hnext hq).imp mem_map_of_mem ?_
    rintro ⟨p, hp, hpq, -⟩
    refine ⟨hpq ▸ mem_map_of_mem hp, fun hremoved => ?_⟩
    obtain ⟨p', hp', hid'⟩ := mem_map.mp hremoved
    have hout := ((h.describes.mem_removed p').mp hp').2
    rw [hid', mem_partiesByID] at hout
    exact hout hid
  · rintro (hadded | ⟨hold, hnot⟩)
    · obtain ⟨q, hq, rfl⟩ := mem_map.mp hadded
      exact mem_map_of_mem (of_lookup_gather_overwrite ((h.describes.mem_added q).mp hq).1).1
    · obtain ⟨p, hp, rfl⟩ := mem_map.mp hold
      by_contra hgone
      have hremoved : p ∈ changes.removed := (h.describes.mem_removed p).mpr
        ⟨lookup_gather_overwrite_of_nodup hcurr hp, fun hmem => hgone (mem_partiesByID.mp hmem)⟩
      exact hnot (mem_map_of_mem hremoved)

/-- **At most one party comes or goes**, and one that comes is above the bound. -/
theorem Admits.cases : (changes.added = [] ∧ changes.removed = [] ∧ nextCfg.maxPartyID = currCfg.maxPartyID) ∨
    (∃ q, changes.added = [q] ∧ changes.removed = [] ∧ nextCfg.maxPartyID = q.partyID ∧
      currCfg.maxPartyID < nextCfg.maxPartyID) ∨
    ∃ p, changes.added = [] ∧ changes.removed = [p] ∧ nextCfg.maxPartyID = currCfg.maxPartyID := by
  have hmax := h.maxPartyID
  have hone := h.one
  rcases hadded : changes.added with _ | ⟨q, _ | ⟨q', rest⟩⟩
  · rw [hadded] at hmax
    have hbound : nextCfg.maxPartyID = currCfg.maxPartyID := require_eq_ok.mp hmax
    rcases hremoved : changes.removed with _ | ⟨p, _ | ⟨p', rest⟩⟩
    · exact .inl ⟨rfl, rfl, hbound⟩
    · exact .inr (.inr ⟨p, rfl, rfl, hbound⟩)
    · simp [hremoved] at hone
      omega
  · simp only [hadded, validateMaxPartyID, bind_eq_ok, require_eq_ok, exists_unit] at hmax
    obtain ⟨hnew, heq, -⟩ := hmax
    have hremoved : changes.removed = [] := by
      apply eq_nil_of_length_eq_zero
      simp only [hadded, length_singleton] at hone
      omega
    exact .inr (.inl ⟨q, rfl, hremoved, heq, heq ▸ UInt32.not_le.mp hnew⟩)
  · simp [hadded] at hone
    omega

end

end Admits

/-! ## Configurations and their chains -/

variable (L) in
/-- A configuration that a node can run under: a bundle with an orderer section, whose metadata is a shared config. -/
structure Configuration where
  bundle : Bundle
  ordererConfig : OrdererConfig
  sharedConfig : SharedConfig
  ordererConfig_eq : bundle.ordererConfig = some ordererConfig
  sharedConfig_eq : L.unmarshalSharedConfig ordererConfig.consensusMetadata = .ok sharedConfig

namespace Configuration

/-- The ids of the parties. -/
def partyIDs (c : Configuration L) : List UInt32 :=
  c.sharedConfig.partiesConfig.filterMap (Option.map partyID)

/-- The ids in the consenter mapping. -/
def consenterIDs (c : Configuration L) : List UInt32 := c.ordererConfig.consenters.filterMap (Option.map Consenter.id)

def maxPartyID (c : Configuration L) : UInt32 := c.sharedConfig.maxPartyID

/-- Accepted by `ValidateNewConfig`, at some node and some time. -/
def Accepted (c : Configuration L) : Prop :=
  ∃ rt envelope partyID, L.newBundleFromEnvelope envelope = .ok c.bundle ∧
    validateNewConfig L rt envelope partyID = .ok ()

/-- Accepted by `ValidateNewConfig`, and by `ValidateTransition` against its predecessor. -/
def Follows (curr next : Configuration L) : Prop :=
  ∃ rt rt' envelope partyID, L.newBundleFromEnvelope envelope = .ok next.bundle ∧
    validateNewConfig L rt envelope partyID = .ok () ∧ validateTransition L rt' curr.bundle envelope = .ok ()

/-- Part of a chain of configurations of which each follows its predecessor. The ids in each consenter mapping differ
from each other. -/
abbrev Chain : Configuration L → Configuration L → Prop :=
  Relation.ReflTransGen fun curr next => Follows curr next ∧ next.consenterIDs.Nodup

variable {c c' c'' : Configuration L}

theorem Follows.accepted (h : Follows c c') : c'.Accepted := by
  obtain ⟨rt, -, envelope, partyID, hbundle, hnew, -⟩ := h
  exact ⟨rt, envelope, partyID, hbundle, hnew⟩

theorem Accepted.passes (h : c.Accepted) :
    ∃ rt partyID, Passes L rt partyID c.bundle c.ordererConfig c.sharedConfig := by
  obtain ⟨rt, envelope, partyID, hbundle, hnew⟩ := h
  obtain ⟨bundle, oc, sc, hbundle', hoc, hsc, hpasses⟩ := validateNewConfig_eq_ok.mp hnew
  cases hbundle'.symm.trans hbundle
  cases hoc.symm.trans c.ordererConfig_eq
  cases hsc.symm.trans c.sharedConfig_eq
  exact ⟨rt, partyID, hpasses⟩

theorem Accepted.roll (h : c.Accepted) : ∃ cs ps, Roll c.ordererConfig c.sharedConfig cs ps := by
  obtain ⟨rt, partyID, hpasses⟩ := h.passes
  exact hpasses.roll

theorem Follows.admits (h : Follows c c') :
    ∃ curr next changes, Admits c.sharedConfig c'.sharedConfig curr next changes := by
  obtain ⟨-, rt, envelope, -, hbundle, -, htransition⟩ := h
  exact validateTransition_eq_ok c.ordererConfig_eq c.sharedConfig_eq hbundle c'.ordererConfig_eq c'.sharedConfig_eq
    htransition

theorem partyIDs_eq {ps : List PartyConfig} (h : c.sharedConfig.partiesConfig = ps.map some) :
    c.partyIDs = ps.map partyID := by
  rw [partyIDs, h, filterMap_map]
  exact congrFun filterMap_eq_map _

theorem consenterIDs_eq {cs : List Consenter} (h : c.ordererConfig.consenters = cs.map some) :
    c.consenterIDs = cs.map Consenter.id := by
  rw [consenterIDs, h, filterMap_map]
  exact congrFun filterMap_eq_map _

/-- The parties are the consenters, each once, and no id is above `MaxPartyID`. -/
structure Identities (c : Configuration L) : Prop where
  nodup : c.partyIDs.Nodup
  mem_iff : ∀ id, id ∈ c.partyIDs ↔ id ∈ c.consenterIDs
  le_max : ∀ id ∈ c.partyIDs, id ≤ c.maxPartyID

theorem Accepted.identities (h : c.Accepted) (hnodup : c.consenterIDs.Nodup) : c.Identities := by
  obtain ⟨cs, ps, hroll⟩ := h.roll
  rw [consenterIDs_eq hroll.consenters] at hnodup
  refine ⟨?_, fun id => ?_, fun id hid => ?_⟩
  · rw [partyIDs_eq hroll.parties]
    exact hroll.nodup hnodup
  · rw [partyIDs_eq hroll.parties, consenterIDs_eq hroll.consenters, (hroll.perm hnodup).mem_iff]
  · rw [partyIDs_eq hroll.parties] at hid
    obtain ⟨p, hp, rfl⟩ := mem_map.mp hid
    exact hroll.id_le p hp

/-! ## Transitions as steps of a roster -/

def roster (c : Configuration L) (h : c.Identities) : Roster UInt32 where
  members := c.partyIDs.toFinset
  top := c.maxPartyID
  le_top := fun id hid => h.le_max id (mem_toFinset.mp hid)

theorem Follows.step (h : Follows c c') (hc : c.Identities) (hc' : c'.Identities) :
    Roster.Step (c.roster hc) (c'.roster hc') := by
  obtain ⟨curr, next, changes, hadmits⟩ := h.admits
  have hids : c.partyIDs = curr.map partyID := partyIDs_eq hadmits.curr_eq
  have hids' : c'.partyIDs = next.map partyID := partyIDs_eq hadmits.next_eq
  have hmem := hadmits.mem_iff (hids ▸ hc.nodup) (hids' ▸ hc'.nodup)
  rw [← hids, ← hids'] at hmem
  rcases hadmits.cases with ⟨hadded, hremoved, hmax⟩ | ⟨q, hadded, hremoved, hmax, hlt⟩ | ⟨p, hadded, hremoved, hmax⟩
  · refine .keep ?_ hmax
    ext id
    simp [roster, hmem, hadded, hremoved]
  · refine .enrol hlt ?_
    ext id
    simp [roster, hmem, hadded, hremoved, maxPartyID, hmax]
  · have hp : p.partyID ∈ c.partyIDs := hids ▸ hadmits.removed_mem (hremoved ▸ mem_singleton_self p)
    refine .retire p.partyID (mem_toFinset.mpr hp) ?_ hmax
    ext id
    simp [roster, hmem, hadded, hremoved, and_comm]

theorem Chain.reaches (h : Chain c c') (hc : c.Identities) :
    ∃ hc' : c'.Identities, Roster.Reaches (c.roster hc) (c'.roster hc') := by
  induction h with
  | refl => exact ⟨hc, .refl⟩
  | tail _ hstep ih =>
    obtain ⟨hmid, hrun⟩ := ih
    have hnext := hstep.1.accepted.identities hstep.2
    exact ⟨hnext, hrun.tail (hstep.1.step hmid hnext)⟩

/-- Two sets of ids differ by one addition or one removal at most. -/
def AtMostOneChange (ids ids' : List UInt32) : Prop :=
  (∀ id, id ∈ ids' ↔ id ∈ ids) ∨ (∃ a, a ∉ ids ∧ ∀ id, id ∈ ids' ↔ id = a ∨ id ∈ ids) ∨
    ∃ a, a ∈ ids ∧ ∀ id, id ∈ ids' ↔ id ≠ a ∧ id ∈ ids

theorem Follows.atMostOneChange (h : Follows c c') (hc : c.Identities) (hc' : c'.Identities) :
    AtMostOneChange c.partyIDs c'.partyIDs := by
  have hmem : ∀ {d : Configuration L} (hd : d.Identities) (id : UInt32), id ∈ (d.roster hd).members ↔ id ∈ d.partyIDs :=
    fun _ _ => mem_toFinset
  have hcases := (h.step hc hc').members_cases
  simp only [Finset.ext_iff, Finset.mem_insert, Finset.mem_erase, hmem] at hcases
  exact hcases

theorem party_ids_never_reused {start : Configuration L} (hstart : start.Accepted)
    (hdistinct : start.consenterIDs.Nodup) (hc : Chain start c) : c.Identities ∧
    (∀ next, Follows c next → next.consenterIDs.Nodup → AtMostOneChange c.partyIDs next.partyIDs) ∧
    ∀ later, Chain c later → c.maxPartyID ≤ later.maxPartyID ∧
      ∀ last, Chain later last → ∀ id ∈ c.partyIDs, id ∉ later.partyIDs → id ∉ last.partyIDs := by
  obtain ⟨hid, -⟩ := Chain.reaches hc (hstart.identities hdistinct)
  refine ⟨hid, fun next hnext hnodup => ?_, fun later hlater => ?_⟩
  · exact hnext.atMostOneChange hid (hnext.accepted.identities hnodup)
  · obtain ⟨hidLater, hrun⟩ := Chain.reaches hlater hid
    refine ⟨Roster.top_le_of_reaches hrun, fun last hlast id hmem hgone hback => ?_⟩
    obtain ⟨hidLast, hrun'⟩ := Chain.reaches hlast hidLater
    exact Roster.never_reused hrun hrun' (mem_toFinset.mpr hmem) (fun h => hgone (mem_toFinset.mp h))
      (mem_toFinset.mpr hback)

end Configuration

/-! ## A chain of three configurations -/

/-- A node of a party. The certificates are their own keys; the first byte tells the kind of node. -/
def refNode (kind : UInt8) (id : UInt32) : NodeSection := ⟨"localhost", 7050, [kind, id.toUInt8], [0, kind, id.toUInt8]⟩

def refParty (id : UInt32) (shards : List UInt32) : PartyConfig where
  partyID := id
  caCerts := [[0]]
  tlsCACerts := [[0]]
  routerConfig := some (refNode 1 id)
  batchersConfig := shards.map fun shard => some ⟨⟨"localhost", 7050, [4, id.toUInt8, shard.toUInt8], [0, 4]⟩, shard⟩
  consenterConfig := some (refNode 2 id)
  assemblerConfig := some (refNode 3 id)
  unknownFields := []

def refSmartBFT : SmartBFTConfig where
  requestBatchMaxCount := 10
  requestBatchMaxBytes := 1000
  requestBatchMaxInterval := "1s"
  incomingMessageBufferSize := 10
  requestPoolSize := 10
  requestForwardTimeout := "1s"
  requestComplainTimeout := "1s"
  requestAutoRemoveTimeout := "1s"
  viewChangeResendInterval := "1s"
  viewChangeTimeout := "1s"
  leaderHeartbeatTimeout := "1s"
  leaderHeartbeatCount := 10
  numOfTicksBehindBeforeSyncing := 10
  collectTimeout := "1s"
  leaderRotation := false
  decisionsPerLeader := 0
  requestMaxBytes := 100
  requestPoolSubmitTimeout := "1s"

def refShared (parties : List PartyConfig) (maxPartyID : UInt32) : SharedConfig where
  partiesConfig := parties.map some
  consensusConfig := some ⟨some refSmartBFT⟩
  batchingConfig := some ⟨some ⟨"1s", "1s", "1s", "1s"⟩, some ⟨10, 1000⟩, 100⟩
  maxPartyID

def refOrg : OrdererOrg := ⟨"org", "msp", ["localhost:7050"], [[0]], []⟩

def refOrderer (metadata : Bytes) (parties : List PartyConfig) : OrdererConfig where
  consensusMetadata := metadata
  absoluteMaxBytes := 1000
  organizations := AList.singleton "org" refOrg
  consenters := parties.map fun p => some ⟨p.partyID, "localhost", 7050, "msp", [2, p.partyID.toUInt8], [], []⟩

def refPolicy (parties : List PartyConfig) : SignaturePolicyEnvelope where
  rule := some (.nOutOf (Int32.ofNat (computeBFTQuorum parties.length ((parties.length - 1) / 3)))
    ((range parties.length).map fun i => some (.signedBy (Int32.ofNat i))))
  identities := parties.map fun p => some ⟨true, [2, p.partyID.toUInt8]⟩

def refBundle (metadata : Bytes) (parties : List PartyConfig) : Bundle :=
  ⟨"arma", 0, some (refOrderer metadata parties), some ⟨some ⟨policySignature, metadata⟩⟩⟩

/-- Libraries that know some configurations by their numbers. -/
def refLibraries (configs : List (List PartyConfig × UInt32)) : Libraries where
  newBundleFromEnvelope envelope :=
    match envelope.payload with
    | [k] => match configs[k.toNat]? with
      | some c => .ok (refBundle [k] c.1)
      | none => .error "no bundle"
    | _ => .error "no bundle"
  unmarshalSharedConfig metadata :=
    match metadata with
    | [k] => match configs[k.toNat]? with
      | some c => .ok (refShared c.1 c.2)
      | none => .error "no config"
    | _ => .error "no config"
  unmarshalSignaturePolicy value :=
    match value with
    | [k] => match configs[k.toNat]? with
      | some c => .ok (refPolicy c.1)
      | none => .error "no policy"
    | _ => .error "no policy"
  marshalIdentity _ certificate := certificate
  parseDuration text := if text = "1s" then .ok 1000000000 else .error "time: invalid duration"
  durationText d := toString d
  parseOrdererEndpoint _ := .ok ⟨"localhost", 7050, [broadcast, deliver]⟩
  pemDecode cert := some ⟨"CERTIFICATE", cert⟩
  parseCertificate cert := .ok ⟨cert.length = 1, cert, 1, 0, cert⟩
  verifyCertificate _ _ := .ok ()
  quote cert := toString cert

def refRuntime : Runtime := ⟨0, .same, .same, .same, .same⟩

def refConfiguration {configs : List (List PartyConfig × UInt32)} {k : UInt8} {c : List PartyConfig × UInt32}
    (h : configs[k.toNat]? = some c) : Configuration (refLibraries configs) where
  bundle := refBundle [k] c.1
  ordererConfig := refOrderer [k] c.1
  sharedConfig := refShared c.1 c.2
  ordererConfig_eq := rfl
  sharedConfig_eq := by simp [refLibraries, refOrderer, h]

section Reference

variable {configs : List (List PartyConfig × UInt32)} {k k' : UInt8} {c c' : List PartyConfig × UInt32}
  {h : configs[k.toNat]? = some c} {h' : configs[k'.toNat]? = some c'}

theorem newBundle_refLibraries (h : configs[k.toNat]? = some c) :
    (refLibraries configs).newBundleFromEnvelope ⟨[k], []⟩ = .ok (refConfiguration h).bundle := by
  simp [refLibraries, refConfiguration, h]

theorem refConfiguration_accepted (hnew : validateNewConfig (refLibraries configs) refRuntime ⟨[k], []⟩ 1 = .ok ()) :
    (refConfiguration h).Accepted := ⟨refRuntime, _, 1, newBundle_refLibraries h, hnew⟩

theorem refConfiguration_follows (hnew : validateNewConfig (refLibraries configs) refRuntime ⟨[k'], []⟩ 1 = .ok ())
    (htransition : validateTransition (refLibraries configs) refRuntime (refBundle [k] c.1) ⟨[k'], []⟩ = .ok ()) :
    (refConfiguration h).Follows (refConfiguration h') :=
  ⟨refRuntime, refRuntime, _, 1, newBundle_refLibraries h', hnew, htransition⟩

end Reference

/-- Party 1, then parties 1 and 2, then party 2. -/
def comingAndGoing : List (List PartyConfig × UInt32) :=
  [([refParty 1 [1]], 1), ([refParty 1 [1], refParty 2 [1]], 2), ([refParty 2 [1]], 2)]

def partyOne : Configuration (refLibraries comingAndGoing) := @refConfiguration comingAndGoing 0 _ rfl

def bothParties : Configuration (refLibraries comingAndGoing) := @refConfiguration comingAndGoing 1 _ rfl

def partyTwo : Configuration (refLibraries comingAndGoing) := @refConfiguration comingAndGoing 2 _ rfl

theorem chain_comingAndGoing : Configuration.Chain partyOne partyTwo := by
  have hfirst : partyOne.Follows bothParties := refConfiguration_follows rfl rfl
  have hsecond : bothParties.Follows partyTwo := refConfiguration_follows rfl rfl
  exact .tail (.tail .refl ⟨hfirst, by decide⟩) ⟨hsecond, by decide⟩

theorem party_one_never_reused :
    partyOne.Accepted ∧ partyOne.consenterIDs.Nodup ∧ Configuration.Chain partyOne partyTwo ∧
      1 ∈ partyOne.partyIDs ∧ 1 ∉ partyTwo.partyIDs ∧
      ∀ last, Configuration.Chain partyTwo last → 1 ∉ last.partyIDs := by
  have haccepted : partyOne.Accepted := refConfiguration_accepted rfl
  have hnodup : partyOne.consenterIDs.Nodup := by decide
  have hmem : 1 ∈ partyOne.partyIDs := by decide
  have hgone : 1 ∉ partyTwo.partyIDs := by decide
  have hnever := Configuration.party_ids_never_reused haccepted hnodup .refl
  exact ⟨haccepted, hnodup, chain_comingAndGoing, hmem, hgone, fun last hlast =>
    (hnever.2.2 partyTwo chain_comingAndGoing).2 last hlast 1 hmem hgone⟩

end Arma.Verify
