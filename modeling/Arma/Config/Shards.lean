import Arma.Config.Transition
import Arma.Batcher.Decisions

/-!
# Shards and their batchers along a chain of configurations

The primary of a shard is an index into the list of its batchers, taken modulo the number of parties
(`getPrimaryIDAndTerm`, `getPrimaryID`). It is a batcher only if every party has one batcher in the shard. Model of
`Configuration.ExtractShards` (`config/config.go`), which makes the lists of batchers, and of what the rules of a
transition do to the shards that the parties list.

* `Lists.of_modification`: a party that is modified keeps its shards, as the lengths are compared and one inclusion.
* No rule looks at the shards of a party that is added: **`added_party_strands_shard`** is a chain of two configurations
  after which the batcher of a shard panics.
* **`sharding_of_chain`**: when every added party lists the shards of the others, and no party is listed twice, every
  shard has as many batchers as there are parties, and all of them compute one primary, which is one of them.
-/

namespace Arma.Verify

open Arma.Lib Outcome List Function

/-! ## The batchers of the shards -/

/-- What `ExtractShards` reads of a party: the shards of its batchers, each with the party. -/
def partyEntries (party : Option PartyConfig) : Outcome (List (ShardID × PartyID)) := do
  let party ← deref party
  mapEach (fun _ batcher => do
    let batcher ← deref batcher
    return (batcher.shardID.toUInt16, party.partyID.toUInt16)) 0 party.batchersConfig

/-- `ExtractShards`, with what is kept of a batcher here: its party. The map is ranged over in some order, and its
entries are sorted. -/
def extractShards (range : RangeOrder ShardID (List PartyID)) (parties : List (Option PartyConfig)) :
    Outcome (List ShardInfo) := do
  let entries ← mapEach (fun _ => partyEntries) 0 parties
  let shardToBatchers := gather Prod.fst (bucket Prod.snd) entries.flatten
  let shards := (range.order (pairs shardToBatchers)).map fun e => ShardInfo.mk e.1 e.2
  return shards.mergeSort fun s s' => s.shardId ≤ s'.shardId

theorem foldl_pick {shards : List ShardInfo} {shard batchers} (acc : List PartyID)
    (hall : ∀ info ∈ shards, info.shardId = shard → info.batchers = batchers)
    (hsome : acc = batchers ∨ ∃ info ∈ shards, info.shardId = shard) :
    shards.foldl (fun batchers info => if info.shardId = shard then info.batchers else batchers) acc = batchers := by
  induction shards generalizing acc with
  | nil => simpa using hsome
  | cons info shards ih =>
    rw [foldl_cons]
    refine ih _ (fun i hi => hall i (mem_cons_of_mem _ hi)) ?_
    by_cases hinfo : info.shardId = shard
    · rw [if_pos hinfo]
      exact .inl (hall info mem_cons_self hinfo)
    · rw [if_neg hinfo]
      refine hsome.imp_right ?_
      rintro ⟨i, hi, heq⟩
      refine ⟨i, ?_, heq⟩
      exact (mem_cons.mp hi).resolve_left fun h => hinfo (h ▸ heq)

/-- **The batchers of a shard** are the parties that list it, sorted, in whatever order the map was ranged over. -/
theorem batchersFromConfig_of_extractShards {range}
    {parties config shard entries} (hentries : mapEach (fun _ => partyEntries) 0 parties = .ok entries)
    (hshards : extractShards range parties = .ok config.shards) :
    batchersFromConfig config shard = ((entries.flatten.filter (·.1 = shard)).map Prod.snd).mergeSort := by
  simp only [extractShards, hentries, ok_bind, pure_eq, Except.ok.injEq] at hshards
  have henum := (enumerates_pairs (gather Prod.fst (bucket Prod.snd) entries.flatten)).perm (range.perm _)
  have hmem : ∀ info, info ∈ config.shards ↔ (∃ e ∈ entries.flatten, e.1 = info.shardId) ∧
        info.batchers = (entries.flatten.filter (·.1 = info.shardId)).map Prod.snd := by
    intro info
    rw [← hshards, mem_mergeSort, ← lookup_gather_bucket_eq_some, ← henum.mem_iff, mem_map]
    constructor
    · rintro ⟨e, he, rfl⟩
      exact he
    · intro he
      exact ⟨_, he, rfl⟩
  refine congrArg List.mergeSort (foldl_pick [] (fun info hinfo hid => ?_) ?_)
  · rw [((hmem info).mp hinfo).2, hid]
  · by_cases hsome : ∃ e ∈ entries.flatten, e.1 = shard
    · let info : ShardInfo := ⟨shard, (entries.flatten.filter (·.1 = shard)).map Prod.snd⟩
      exact .inr ⟨info, (hmem info).mpr ⟨hsome, rfl⟩, rfl⟩
    · have hnone : entries.flatten.filter (·.1 = shard) = [] := by
        rw [filter_eq_nil_iff]
        exact fun e he heq => hsome ⟨e, he, of_decide_eq_true heq⟩
      exact .inl (by rw [hnone]; rfl)

/-! ## Parties that list the same shards -/

/-- The party has exactly one batcher in each of the shards, and no other. -/
def PartyConfig.Lists (S : Finset UInt32) (p : PartyConfig) : Prop :=
  ∃ bs : List BatcherNodeConfig, p.batchersConfig = bs.map some ∧ (bs.map BatcherNodeConfig.shardID).Nodup ∧
    (bs.map BatcherNodeConfig.shardID).toFinset = S

theorem validatePartyModification_eq_true {curr next} (h : validatePartyModification curr next = .ok true) :
    ∃ bs : List BatcherNodeConfig, next.batchersConfig = bs.map some ∧
      curr.batchersConfig.length = next.batchersConfig.length ∧
      ∀ b ∈ curr.batchersConfig, ∃ b', b = some b' ∧ b'.shardID ∈ bs.map BatcherNodeConfig.shardID := by
  unfold validatePartyModification at h
  split at h
  · cases h
  · simp only [bind_eq_ok, require_eq_ok, exists_unit, mapEach_nonNil_eq_ok, forEach_eq_ok_iff_mem, nonNil_eq_ok] at h
    obtain ⟨hlen, bs, hbs, hsub, -⟩ := h
    exact ⟨bs, hbs, hlen, hsub⟩

/-- **A modified party keeps its shards**: as many as before that differ from each other, and all of them among the new
ones, which are as many. -/
theorem PartyConfig.Lists.of_modification {S curr next} (hcurr : curr.Lists S)
    (h : validatePartyModification curr next = .ok true) : next.Lists S := by
  obtain ⟨bs, hbs, hnodup, hS⟩ := hcurr
  obtain ⟨bs', hbs', hlen, hsub⟩ := validatePartyModification_eq_true h
  have hsubset : bs.map BatcherNodeConfig.shardID ⊆ bs'.map BatcherNodeConfig.shardID := by
    intro id hid
    obtain ⟨b, hb, rfl⟩ := mem_map.mp hid
    obtain ⟨b', hb', hmem⟩ := hsub (some b) (hbs ▸ mem_map_of_mem hb)
    cases hb'
    exact hmem
  have hle : (bs'.map BatcherNodeConfig.shardID).length ≤ (bs.map BatcherNodeConfig.shardID).length := by
    simp only [hbs, hbs', length_map] at hlen ⊢
    exact hlen.ge
  have hperm := (subperm_of_subset hnodup hsubset).perm_of_length_le hle
  exact ⟨bs', hbs', hperm.nodup_iff.mp hnodup, by rw [← hS, toFinset_eq_of_perm _ _ hperm]⟩

theorem PartyConfig.Lists.partyEntries {S p} (h : p.Lists S) (hS : ∀ s ∈ S, s.toNat < 2 ^ 16) :
    ∃ entries, partyEntries (some p) = .ok entries ∧ ∀ shard : ShardID, shard.toUInt32 ∈ S →
      (entries.filter (·.1 = shard)).map Prod.snd = [p.partyID.toUInt16] := by
  obtain ⟨bs, hbs, hnodup, rfl⟩ := h
  have hentries : Verify.partyEntries (some p) = .ok (bs.map fun b => (b.shardID.toUInt16, p.partyID.toUInt16)) := by
    simp only [Verify.partyEntries, deref_some, ok_bind, hbs]
    refine mapEach_map_eq (fun _ _ => ?_) bs 0
    rfl
  refine ⟨_, hentries, fun shard hshard => ?_⟩
  have hcount : (bs.map BatcherNodeConfig.shardID).count shard.toUInt32 = 1 :=
    count_eq_one_of_mem hnodup (mem_toFinset.mp hshard)
  have hiff : ∀ b ∈ bs, b.shardID.toUInt16 = shard ↔ b.shardID = shard.toUInt32 := by
    intro b hb
    have hlt := hS b.shardID (mem_toFinset.mpr (mem_map_of_mem hb))
    constructor
    · rintro rfl
      apply UInt32.toNat_inj.mp
      rw [UInt16.toNat_toUInt32, UInt32.toNat_toUInt16, Nat.mod_eq_of_lt hlt]
    · intro heq
      rw [heq, UInt16.toUInt16_toUInt32]
  have hone : (bs.filter fun b => b.shardID.toUInt16 = shard).length = 1 := by
    rw [← hcount, List.count, countP_map, ← countP_eq_length_filter]
    refine countP_congr fun b hb => ?_
    simp [hiff b hb]
  rw [filter_map, map_map]
  exact map_const'.trans (congrArg (replicate · p.partyID.toUInt16) hone)

theorem exists_entries {S : Finset UInt32} {ps : List PartyConfig} (hlists : ∀ p ∈ ps, p.Lists S)
    (hS : ∀ s ∈ S, s.toNat < 2 ^ 16) :
    ∃ entries, mapEach (fun _ => partyEntries) 0 (ps.map some) = .ok entries ∧ ∀ shard : ShardID, shard.toUInt32 ∈ S →
        (entries.flatten.filter (·.1 = shard)).map Prod.snd = ps.map fun p => p.partyID.toUInt16 := by
  simp only [mapEach_eq_ok, forall₂_map_left_iff]
  induction ps with
  | nil => exact ⟨[], .nil, fun _ _ => rfl⟩
  | cons p ps ih =>
    obtain ⟨es, hes, hone⟩ := (hlists p mem_cons_self).partyEntries hS
    obtain ⟨entries, hentries, hrest⟩ := ih fun q hq => hlists q (mem_cons_of_mem p hq)
    refine ⟨es :: entries, .cons hes hentries, fun shard hshard => ?_⟩
    rw [flatten_cons, filter_append, map_append, hone shard hshard, hrest shard hshard]
    rfl

/-! ## Configurations under which every shard has its batchers -/

namespace Configuration

variable {L : Libraries} {c c' : Configuration L} {S : Finset UInt32}

/-- `State.N` under the configuration, as `ApplyConfigToState` sets it. -/
def n (c : Configuration L) : UInt16 := UInt16.ofNat c.sharedConfig.partiesConfig.length

/-- Every party lists exactly these shards, each once. -/
def Uniform (c : Configuration L) (S : Finset UInt32) : Prop :=
  ∀ party ∈ c.sharedConfig.partiesConfig, ∃ p, party = some p ∧ p.Lists S

/-- A batcher's configuration under `c` (`ExtractBatcherConfig`): the shards, and a consenter for each party. -/
def Runs (c : Configuration L) (config : Arma.BatcherNodeConfig) : Prop :=
  (∃ range, extractShards range c.sharedConfig.partiesConfig = .ok config.shards) ∧
    config.consenters.length = c.sharedConfig.partiesConfig.length

/-- At every batcher of a shard, `primary` is the primary of `term`: to `getPrimaryIDAndTerm`, in any state with that
term and the number of parties of `c`, and to `getPrimaryID` of its role. -/
structure Leads (c : Configuration L) (shard : ShardID) (term : Nat) (primary : PartyID)
    (config : Arma.BatcherNodeConfig) : Prop where
  mem : primary ∈ batchersFromConfig config shard
  ofState : ∀ state, state.n = c.n → BatcherRole.getTerm shard state = .ok term →
    getPrimaryIDAndTerm shard (batchersFromConfig config shard) state = .ok (primary, term)
  ofRole : ∀ {W party} (r : BatcherRole W party shard), r.batchers = batchersFromConfig config shard →
    r.n = UInt16.ofNat config.consenters.length → r.getPrimaryID term = .ok primary

/-- Every shard has one batcher per party. -/
structure Sharding (c : Configuration L) (S : Finset UInt32) : Prop where
  uniform : c.Uniform S
  extracts : ∀ range, ∃ shards, extractShards range c.sharedConfig.partiesConfig = .ok shards
  /-- In every shard there are `State.N` batchers. -/
  batchers : ∀ shard : ShardID, shard.toUInt32 ∈ S → ∀ config, c.Runs config →
    (batchersFromConfig config shard).length = c.n.toNat
  /-- When there is a batcher at all, the primary of any term is one, and the same one at all of them. -/
  primary : c.sharedConfig.partiesConfig ≠ [] → ∀ shard : ShardID, shard.toUInt32 ∈ S → ∀ term,
    ∃ primary, ∀ config, c.Runs config → c.Leads shard term primary config

theorem Uniform.exists_parties (h : c.Uniform S) :
    ∃ ps : List PartyConfig, c.sharedConfig.partiesConfig = ps.map some ∧ ∀ p ∈ ps, p.Lists S := by
  obtain ⟨ps, hps⟩ := exists_eq_map_some fun party hparty => by
    obtain ⟨p, hp, -⟩ := h party hparty
    exact ⟨p, hp⟩
  refine ⟨ps, hps, fun p hp => ?_⟩
  obtain ⟨p', hp', hlists⟩ := h (some p) (hps ▸ mem_map_of_mem hp)
  cases hp'
  exact hlists

/-- **Every shard has its batchers** when every party lists it once, and there are few enough parties and small enough
shard ids for the sixteen bits that the nodes use. -/
theorem Uniform.sharding (h : c.Uniform S) (hS : ∀ s ∈ S, s.toNat < 2 ^ 16)
    (hlen : c.sharedConfig.partiesConfig.length < 2 ^ 16) : c.Sharding S := by
  obtain ⟨ps, hps, hlists⟩ := h.exists_parties
  obtain ⟨entries, hentries, hall⟩ := exists_entries hlists hS
  rw [← hps] at hentries
  have hn : c.n.toNat = ps.length := by
    rw [n, UInt16.toNat_ofNat', Nat.mod_eq_of_lt hlen, hps, length_map]
  have hbatchers : ∀ shard : ShardID, shard.toUInt32 ∈ S → ∀ config, c.Runs config →
      batchersFromConfig config shard = (ps.map fun p => p.partyID.toUInt16).mergeSort := by
    rintro shard hshard config ⟨⟨range, hshards⟩, -⟩
    rw [batchersFromConfig_of_extractShards hentries hshards, hall shard hshard]
  refine ⟨h, fun range => ?_, fun shard hshard config hruns => ?_, fun hne shard hshard term => ?_⟩
  · simp only [extractShards, hentries, ok_bind, pure_eq, Except.ok.injEq, exists_eq']
  · rw [hbatchers shard hshard config hruns, length_mergeSort, length_map, hn]
  · have hpos : 0 < c.n.toNat := by
      rw [hn, length_pos_iff]
      rintro rfl
      exact hne hps
    have hn0 : c.n ≠ 0 := fun h0 => by rw [h0] at hpos; exact absurd hpos (by decide)
    have hlt : (shard.toNat + term) % c.n.toNat < ((ps.map fun p => p.partyID.toUInt16).mergeSort).length := by
      rw [length_mergeSort, length_map, ← hn]
      exact Nat.mod_lt _ hpos
    obtain ⟨primary, hget⟩ : ∃ primary, ((ps.map fun p => p.partyID.toUInt16).mergeSort)[
        (shard.toNat + term) % c.n.toNat]? = some primary := ⟨_, getElem?_eq_getElem hlt⟩
    refine ⟨primary, fun config hruns => ?_⟩
    have hlist := hbatchers shard hshard config hruns
    refine ⟨hlist ▸ mem_of_getElem? hget, fun state hstate hterm => ?_, fun r hr hrn => ?_⟩
    · rw [hlist]
      simp only [getPrimaryIDAndTerm, hterm, ok_bind, hstate, if_neg hn0]
      rw [index_eq_ok.mpr hget]
      rfl
    · have hrn' : r.n = c.n := by rw [hrn, hruns.2]; rfl
      simp only [BatcherRole.getPrimaryID, BatcherRole.getPrimaryIndex, hrn', if_neg hn0, ok_bind, hr, hlist]
      exact index_eq_ok.mpr hget

/-! ## Along a chain -/

/-- In the next configuration no party is listed twice, and a party that is added lists exactly these shards. -/
structure AddsAlike (S : Finset UInt32) (curr next : Configuration L) : Prop where
  nodup : next.partyIDs.Nodup
  lists : ∀ p, some p ∈ next.sharedConfig.partiesConfig → p.partyID ∉ curr.partyIDs → p.Lists S

theorem Follows.uniform (h : Follows c c') (halike : AddsAlike S c c') (hc : c.Uniform S) : c'.Uniform S := by
  obtain ⟨curr, next, changes, hadmits⟩ := h.admits
  have hnodup : (next.map PartyConfig.partyID).Nodup := partyIDs_eq hadmits.next_eq ▸ halike.nodup
  intro party hparty
  obtain ⟨q, hq, rfl⟩ := mem_map.mp (hadmits.next_eq ▸ hparty)
  refine ⟨q, rfl, ?_⟩
  rcases hadmits.mem_or_added hnodup hq with hadded | ⟨p, hp, -, hkept⟩
  · refine halike.lists q hparty ?_
    rw [partyIDs_eq hadmits.curr_eq]
    exact hadmits.added_fresh hadded
  · obtain ⟨p', hp', hlists⟩ := hc (some p) (hadmits.curr_eq ▸ mem_map_of_mem hp)
    cases hp'
    rcases hkept with rfl | hmodified
    · exact hlists
    · exact hlists.of_modification hmodified

/-- The ids of the parties differ and are of sixteen bits, so there are fewer parties. -/
theorem Accepted.length_lt (h : c.Accepted) (hnodup : c.partyIDs.Nodup) :
    c.sharedConfig.partiesConfig.length < 2 ^ 16 := by
  obtain ⟨cs, ps, hroll⟩ := h.roll
  rw [partyIDs_eq hroll.parties] at hnodup
  have hsub : (ps.map PartyConfig.partyID).map UInt32.toNat ⊆ range' 1 maxUint16 := by
    intro id hid
    rw [map_map] at hid
    obtain ⟨p, hp, rfl⟩ := mem_map.mp hid
    have hpos : p.partyID.toNat ≠ 0 := fun h0 => hroll.id_ne_zero p hp (UInt32.toNat_inj.mp h0)
    have hle : p.partyID.toNat ≤ maxUint16 := (UInt32.le_iff_toNat_le.mp (hroll.id_le p hp)).trans hroll.max_le
    rw [mem_range'_1]
    simp only [Function.comp_apply]
    omega
  have hinj : ((ps.map PartyConfig.partyID).map UInt32.toNat).Nodup := hnodup.map fun a b hab => UInt32.toNat_inj.mp hab
  have hle := (subperm_of_subset hinj hsub).length_le
  simp only [length_map, length_range', maxUint16] at hle
  rw [hroll.parties, length_map]
  omega

/-- **Every shard has one batcher per party**, in every configuration of a chain that starts from one where this is so,
when no configuration lists a party twice and every party that is added lists the shards of the others. -/
theorem sharding_of_chain {start : Configuration L} (hstart : start.Uniform S) (hS : ∀ s ∈ S, s.toNat < 2 ^ 16)
    (hlen : start.sharedConfig.partiesConfig.length < 2 ^ 16)
    (hchain : Relation.ReflTransGen (fun curr next => Follows curr next ∧ AddsAlike S curr next) start c) :
    c.Sharding S := by
  have huniform : c.Uniform S ∧ c.sharedConfig.partiesConfig.length < 2 ^ 16 := by
    induction hchain with
    | refl => exact ⟨hstart, hlen⟩
    | tail _ hstep ih => exact ⟨hstep.1.uniform hstep.2 ih.1, hstep.1.accepted.length_lt hstep.2.nodup⟩
  exact huniform.1.sharding hS huniform.2

end Configuration

/-! ## A party that is added with other shards -/

theorem refParty_lists {id shards} (hnodup : shards.Nodup) : (refParty id shards).Lists shards.toFinset := by
  refine ⟨shards.map fun shard => ⟨⟨"localhost", 7050, [4, id.toUInt8, shard.toUInt8], [0, 4]⟩, shard⟩, ?_, ?_, ?_⟩
  · rw [map_map]
    rfl
  · simpa [comp_def] using hnodup
  · simp [comp_def]

theorem toFinset_eq_of_refParty_lists {id shards S} (h : (refParty id shards).Lists S) : shards.toFinset = S := by
  obtain ⟨bs, hbs, -, rfl⟩ := h
  have hids := congrArg (List.filterMap (Option.map BatcherNodeConfig.shardID)) hbs
  simp only [refParty, filterMap_map] at hids
  have hshards : shards = bs.map BatcherNodeConfig.shardID := by
    simpa [comp_def] using hids
  rw [hshards]

/-- Parties 1 and 2 have a batcher in the shards 1 and 2. -/
def sameShards : List (List PartyConfig × UInt32) :=
  [([refParty 1 [1, 2]], 1), ([refParty 1 [1, 2], refParty 2 [2, 1]], 2)]

theorem sharding_of_chain_sameShards :
    ∃ start c : Configuration (refLibraries sameShards), start.Uniform {1, 2} ∧ start.Follows c ∧ c.n = 2 ∧
      c.Sharding {1, 2} := by
  let start : Configuration (refLibraries sameShards) := @refConfiguration sameShards 0 _ rfl
  let c : Configuration (refLibraries sameShards) := @refConfiguration sameShards 1 _ rfl
  have hone : (refParty 1 [1, 2]).Lists {1, 2} := refParty_lists (by decide)
  have htwo : (refParty 2 [2, 1]).Lists {1, 2} := by
    have hset : ([2, 1] : List UInt32).toFinset = {1, 2} := by decide
    rw [← hset]
    exact refParty_lists (by decide)
  have hstart : start.Uniform {1, 2} := by
    intro party hparty
    obtain rfl : party = some (refParty 1 [1, 2]) := mem_singleton.mp hparty
    exact ⟨_, rfl, hone⟩
  have hfollows : start.Follows c := refConfiguration_follows rfl rfl
  have hadds : Configuration.AddsAlike {1, 2} start c := by
    refine ⟨by decide, fun p hp _ => ?_⟩
    rcases mem_pair.mp hp with heq | heq
    · rw [Option.some.inj heq]
      exact hone
    · rw [Option.some.inj heq]
      exact htwo
  have hchain := Relation.ReflTransGen.single (r := fun curr next : Configuration (refLibraries sameShards) =>
    curr.Follows next ∧ Configuration.AddsAlike {1, 2} curr next) ⟨hfollows, hadds⟩
  have hsmall : ∀ s ∈ ({1, 2} : Finset UInt32), s.toNat < 2 ^ 16 := by
    intro s hs
    rcases Finset.mem_insert.mp hs with rfl | hs
    · decide
    · rw [Finset.mem_singleton.mp hs]
      decide
  exact ⟨start, c, hstart, hfollows, rfl, Configuration.sharding_of_chain hstart hsmall (by decide) hchain⟩

/-- Party 1 has a batcher in shard 1, and party 2 is added with a batcher in shard 2. -/
def otherShard : List (List PartyConfig × UInt32) :=
  [([refParty 1 [1]], 1), ([refParty 1 [1], refParty 2 [2]], 2)]

/-- **A party that is added need not have a batcher in the shards of the others.** Shard 1 is then left with one batcher
of two, and that batcher panics when it starts. -/
theorem added_party_strands_shard :
    ∃ start c : Configuration (refLibraries otherShard), start.Accepted ∧ start.Uniform {1} ∧ start.Follows c ∧
      ¬ c.Uniform {1} ∧ ∃ config, c.Runs config ∧ batchersFromConfig config 1 = [1] ∧ c.n = 2 ∧
        ∃ msg, getPrimaryIDAndTerm 1 (batchersFromConfig config 1) (computeZeroState config) = .error (.panic msg) := by
  let start : Configuration (refLibraries otherShard) := @refConfiguration otherShard 0 _ rfl
  let c : Configuration (refLibraries otherShard) := @refConfiguration otherShard 1 _ rfl
  have hstart : start.Uniform {1} := by
    intro party hparty
    obtain rfl : party = some (refParty 1 [1]) := mem_singleton.mp hparty
    exact ⟨_, rfl, refParty_lists (by decide)⟩
  have hfollows : start.Follows c := refConfiguration_follows rfl rfl
  have hother : ¬ c.Uniform {1} := by
    intro huniform
    obtain ⟨p, hp, hlists⟩ := huniform (some (refParty 2 [2])) (mem_cons_of_mem _ mem_cons_self)
    cases hp
    exact absurd (toFinset_eq_of_refParty_lists hlists) (by decide)
  let config : Arma.BatcherNodeConfig := ⟨[⟨1, [1]⟩, ⟨2, [2]⟩], [1, 2], 0, fun _ _ _ => .ok ()⟩
  have hshards : extractShards ⟨List.reverse, reverse_perm⟩ c.sharedConfig.partiesConfig = .ok config.shards :=
    congrArg Except.ok (mergeSort_of_pairwise (by decide))
  have hbatchers : batchersFromConfig config 1 = [1] := mergeSort_singleton _
  refine ⟨start, c, refConfiguration_accepted rfl, hstart, hfollows, hother, config, ⟨⟨_, hshards⟩, rfl⟩, hbatchers,
    rfl, ?_⟩
  rw [hbatchers]
  exact ⟨_, rfl⟩

end Arma.Verify
