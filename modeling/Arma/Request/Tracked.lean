import Arma.Lib.Loading
import Arma.Request.Inserting

/-!
# Nothing is lost in the batch store, and nothing is fetched twice

The concurrent calls of `Request/Inserting.lean`, with books of the insertions that were accepted, of what was fetched
and of the keys that were removed.

* An insertion is accepted when the call indexes its key. From there on the call returns `true`, and the request is in a
  batch or about to be stored.
* `Remove` is called for the keys that a `Fetch` has returned, once for each time that it was returned. It takes no
  lock, but by then the batch is out of use, so it cannot meet an `Insert` there.
* The counter of a batch must not overflow: a `Fetch` that finds it at zero takes the current batch for empty.

A key is free, then its request is about to be stored, is stored, and is fetched, and then the key is free again
(`Inserting.Place`). **`insertions_accounted`** is the balance of the books with that, in every run where `Remove` is
called that way.
-/

namespace Arma

open Arma.Lib List Function BatchStore

namespace Inserting

variable {c : Nat} {valid : Bytes → Prop} {s s' : Inserting} {before after calls : List InsertCall} {call : InsertCall}
  {store store' : BatchStore Bytes} {b : Nat} {o : RangeOrder String Bytes} {out : List (String × Bytes)}

/-! ## The queue and the calls -/

/-- The queue is in order, and the calls that read are at the current batch. -/
structure Placed (s : Inserting) : Prop where
  queued : Queued s.store
  calls : ∀ call ∈ s.calls, InsertPoint.At s.store.currentBatch call.point

theorem placed_fresh (batchMaxSize batchMaxSizeBytes : UInt32) : (fresh batchMaxSize batchMaxSizeBytes).Placed :=
  ⟨⟨nofun, rfl, nofun⟩, nofun⟩

section

variable (hs : s.Placed) (hcalls : s.calls = before ++ call :: after)
include hs hcalls

theorem Placed.of_mid : InsertPoint.At s.store.currentBatch call.point :=
  hs.calls call (hcalls ▸ mem_append_cons_self)

theorem Placed.move {point} (hpoint : InsertPoint.At s.store.currentBatch point) :
    Placed { s with calls := before ++ { call with point } :: after } := by
  have hall := hs.calls
  rw [hcalls] at hall
  exact ⟨hs.queued, forall_mem_replace hall fun _ => hpoint⟩

theorem Placed.leave : Placed { s with calls := before ++ after } := by
  have hall := hs.calls
  rw [hcalls] at hall
  exact ⟨hs.queued, forall_mem_remove hall⟩

end

theorem Placed.index (hs : s.Placed) (keys2Batches : String → Option Nat) :
    Placed { s with store := { s.store with keys2Batches } } :=
  ⟨⟨hs.queued.enqueued, hs.queued.open_current, hs.queued.ready_lt⟩, hs.calls⟩

theorem Placed.renewed (hs : s.Placed) (hlock : s.Unlocked) (hnew : s.store.Renewed store') :
    Placed { s with store := store' } := by
  refine ⟨hs.queued.renewed hnew, fun call hcall => ?_⟩
  rw [hnew.currentBatch_eq]
  exact (hs.calls call hcall).renewed (hlock call hcall)

theorem Placed.enqueue (hs : s.Placed) (hlock : s.Unlocked) (hle : b ≤ s.store.currentBatch) :
    Placed { s with store := s.store.enqueue b } := by
  rcases hs.queued.enqueue_cases hle with ⟨-, hsame⟩ | ⟨-, hnew⟩
  · rw [hsame]
    exact hs
  · exact hs.renewed hlock hnew

/-- `Fetch` takes a batch out of the queue, or makes a new one. -/
theorem Placed.fetch (hs : s.Placed) (hlock : s.Unlocked) (hfetch : s.store.fetch o = (out, store)) :
    Placed { s with store } := by
  rcases fetch_cases hfetch with ⟨hkept, -⟩ | ⟨hnew, -⟩
  · exact ⟨hs.queued.kept hkept, hkept.currentBatch_eq ▸ hs.calls⟩
  · exact hs.renewed hlock hnew

/-- **A step keeps the queue in order.** -/
theorem Step.placed (h : Step c valid s s') (hs : s.Placed) : s'.Placed := by
  cases h with
  | call =>
    exact ⟨hs.queued, forall_mem_cons.mpr ⟨trivial, hs.calls⟩⟩
  | @add _ _ call hcalls =>
    have hadded : Placed { s with store := s.store.addSize call.size } := ⟨hs.queued.update rfl, hs.calls⟩
    exact hadded.move hcalls rfl
  | known hcalls => exact hs.leave hcalls
  | @index _ _ call currBatch _ hcalls hat =>
    have hpoint := hs.of_mid hcalls
    rw [hat] at hpoint
    have hkeyed : Placed { s with store := s.store.setKey call.key currBatch } := hs.index _
    exact hkeyed.move hcalls hpoint
  | @put _ _ call currBatch hcalls =>
    have hstored : Placed { s with store := s.store.putRequest currBatch call.key call.value } :=
      ⟨hs.queued.update rfl, hs.calls⟩
    exact hstored.leave hcalls
  | giveUp hcalls hat =>
    have hpoint := hs.of_mid hcalls
    rw [hat] at hpoint
    exact hs.move hcalls (Nat.le_of_eq hpoint)
  | enqueue hcalls hat hlock =>
    have hpoint := hs.of_mid hcalls
    rw [hat] at hpoint
    exact (hs.enqueue hlock hpoint).move hcalls trivial
  | fetch _ hlock hfetch =>
    have hfetched := hs.fetch hlock hfetch
    exact ⟨hfetched.queued, hfetched.calls⟩
  | @unindex key =>
    have hkeyed := hs.index (update s.store.keys2Batches key none)
    exact ⟨hkeyed.queued, hkeyed.calls⟩
  | delete => exact ⟨hs.queued.update rfl, hs.calls⟩

theorem Run.placed {batchMaxSize batchMaxSizeBytes}
    (hrun : Run c valid (fresh batchMaxSize batchMaxSizeBytes) s) : s.Placed := by
  induction hrun with
  | refl => exact placed_fresh batchMaxSize batchMaxSizeBytes
  | tail _ hstep ih => exact hstep.placed ih

/-! ## Where a key stands -/

/-- The requests whose key is indexed and that are about to be stored. -/
def storing (calls : List InsertCall) : List (Nat × String × Bytes) :=
  calls.filterMap fun call =>
    match call.point with
    | .indexed currBatch => some (currBatch, call.key, call.value)
    | .start | .added .. | .full _ => none

/-- The store as shelves that are being filled. -/
def loading (s : Inserting) : Loading String Bytes := ⟨s.store.shelves, storing s.calls⟩

/-- **What the store holds and refuses**, the requests that are about to be stored among them. -/
def content (s : Inserting) : Holdings String Bytes := s.loading.holdings

def storingAt (key : String) (calls : List InsertCall) : List (Nat × String × Bytes) :=
  (storing calls).filter fun e => Loading.key e = key

/-- **Where a key stands**: the request under it that can still be fetched, and whether the last one was fetched and the
key not removed. -/
inductive Place (s : Inserting) (key : String) : Option Bytes → Bool → Prop
  | free (hindex : s.store.keys2Batches key = none) (hcalls : storingAt key s.calls = [])
      (hbatches : ∀ b ∈ s.store.shelves.live, key ∉ (s.store.batches b).m) : Place s key none false
  /-- The key is indexed, and a call is about to store the request. -/
  | indexed {value} (hindex : s.store.keys2Batches key = some s.store.currentBatch)
      (hcalls : storingAt key s.calls = [(s.store.currentBatch, key, value)])
      (hbatches : ∀ b ∈ s.store.shelves.live, key ∉ (s.store.batches b).m) : Place s key (some value) false
  | stored {value b} (hindex : s.store.keys2Batches key = some b) (hcalls : storingAt key s.calls = [])
      (hlive : b ∈ s.store.shelves.live) (hvalue : (s.store.batches b).m.lookup key = some value)
      (honly : ∀ b' ∈ s.store.shelves.live, key ∈ (s.store.batches b').m → b' = b) : Place s key (some value) false
  /-- Its batch is out of use. -/
  | fetched {b : Nat} (hindex : s.store.keys2Batches key = some b) (hcalls : storingAt key s.calls = [])
      (hlive : b ∉ s.store.shelves.live) (hle : b ≤ s.store.currentBatch)
      (hbatches : ∀ b ∈ s.store.shelves.live, key ∉ (s.store.batches b).m) : Place s key none true

variable {key : String} {held : Option Bytes} {gone : Bool}

theorem Unlocked.move (hlock : s.Unlocked) (hcalls : s.calls = before ++ call :: after) {call'}
    (hreads : call'.point.reads = false) : Unlocked { s with store, calls := before ++ call' :: after } := by
  unfold Unlocked at hlock
  rw [hcalls] at hlock
  exact forall_mem_replace hlock fun _ => hreads

theorem storing_mid : storingAt key (before ++ call :: after) =
    storingAt key before ++ storingAt key [call] ++ storingAt key after := by
  simp only [storingAt, storing, ← filter_append, ← filterMap_append, append_assoc, singleton_append]

theorem storing_self (hat : call.point = .indexed b) : storingAt call.key [call] = [(b, call.key, call.value)] := by
  simp [storingAt, storing, Loading.key, hat]

theorem mem_storing {value} : (b, key, value) ∈ storing calls ↔
    ∃ call ∈ calls, call.point = .indexed b ∧ call.key = key ∧ call.value = value := by
  unfold storing
  rw [mem_filterMap]
  refine exists_congr fun call => and_congr_right fun _ => ?_
  cases hpoint : call.point with
  | indexed | start | added | full => simp

theorem storing_replace (hcalls : calls = before ++ call :: after) {call'}
    (hcall : storingAt key [call'] = storingAt key [call]) :
    storingAt key (before ++ call' :: after) = storingAt key calls := by
  rw [hcalls, storing_mid, storing_mid, hcall]

theorem storing_remove (hcalls : calls = before ++ call :: after) (hcall : storingAt key [call] = []) :
    storingAt key (before ++ after) = storingAt key calls := by
  rw [hcalls, storing_mid, hcall, append_nil]
  simp only [storingAt, storing, filter_append, filterMap_append]

theorem Unlocked.storing_eq_nil (hlock : s.Unlocked) : storingAt key s.calls = [] := by
  have hnone : storing s.calls = [] := by
    refine filterMap_eq_nil_iff.mpr fun call hcall => ?_
    have hreads := hlock call hcall
    cases hpoint : call.point with
    | indexed =>
      rw [hpoint] at hreads
      cases hreads
    | start | added | full => rfl
  rw [storingAt, hnone, filter_nil]

theorem Place.congr (h : s.Place key held gone) (hindex : s'.store.keys2Batches key = s.store.keys2Batches key)
    (hready : s'.store.readyBatches = s.store.readyBatches) (hcurrent : s'.store.currentBatch = s.store.currentBatch)
    (hcalls : storingAt key s'.calls = storingAt key s.calls) (hbatches : ∀ b ∈ s.store.shelves.live,
      (s'.store.batches b).m.lookup key = (s.store.batches b).m.lookup key) : s'.Place key held gone := by
  have hlive : s'.store.shelves.live = s.store.shelves.live := by simp only [shelves, hready, hcurrent]
  have hmem : ∀ b ∈ s.store.shelves.live, (key ∈ (s'.store.batches b).m ↔ key ∈ (s.store.batches b).m) :=
    fun b hb => by rw [← AList.lookup_isSome, ← AList.lookup_isSome, hbatches b hb]
  cases h with
  | free hi hc hb =>
    refine .free (hindex.trans hi) (hcalls.trans hc) fun b hb' => ?_
    rw [hlive] at hb'
    exact (hmem b hb').not.mpr (hb b hb')
  | indexed hi hc hb =>
    refine .indexed (by rw [hindex, hi, hcurrent]) (by rw [hcalls, hc, hcurrent]) fun b hb' => ?_
    rw [hlive] at hb'
    exact (hmem b hb').not.mpr (hb b hb')
  | @stored _ b hi hc hl hv ho =>
    refine .stored (hindex.trans hi) (hcalls.trans hc) (hlive ▸ hl) ((hbatches b hl).trans hv) fun b' hb' hk => ?_
    rw [hlive] at hb'
    exact ho b' hb' ((hmem b' hb').mp hk)
  | fetched hi hc hl hle hb =>
    refine .fetched (hindex.trans hi) (hcalls.trans hc) (hlive ▸ hl) (hcurrent ▸ hle) fun b hb' => ?_
    rw [hlive] at hb'
    exact (hmem b hb').not.mpr (hb b hb')

theorem Place.gone_eq (h : s.Place key held gone) (hheld : held ≠ none) : gone = false := by
  cases h with
  | free | indexed | stored => rfl
  | fetched => exact absurd rfl hheld

theorem Place.out_of_use (h : s.Place key held true) (hkey : s.store.keys2Batches key = some b) :
    b ∉ s.store.shelves.live ∧ b ≤ s.store.currentBatch := by
  cases h with
  | fetched hindex _ hlive hle =>
    cases hindex.symm.trans hkey
    exact ⟨hlive, hle⟩

theorem Place.held_eq (h : s.Place key held gone) : s.content.held key = held := by
  have hway : s.loading.onTheWay key = (storingAt key s.calls).head?.map fun e => e.2.2 := by
    rw [storingAt, head?_filter]
    rfl
  simp only [content, Loading.holdings, Loading.held, hway]
  cases h with
  | free hindex => simp [loading, shelves, hindex]
  | indexed hindex hcalls hbatches =>
    have hnone := AList.lookup_eq_none.mpr (hbatches _ current_mem_live)
    simp [loading, shelves, hindex, hcalls, hnone]
  | stored hindex hcalls hlive hvalue =>
    simp only [loading, hcalls]
    simp [shelves] at hlive ⊢
    simp [hindex, hlive, hvalue]
  | fetched hindex hcalls hlive =>
    simp only [loading, hcalls]
    simp [shelves] at hlive ⊢
    simp [hindex, hlive]

/-! ### Between calls

While nobody reads, the store is as it is between calls, and `BatchStore.content` says where a key stands. -/

theorem Place.content_eq (h : s.Place key held gone) (hlock : s.Unlocked) :
    s.store.content.held key = held ∧ (key ∈ s.store.content.blocked ↔ gone = true) := by
  have hnone : storingAt key s.calls = [] := hlock.storing_eq_nil
  cases h with
  | free hindex =>
    have hindex : s.store.shelves.index key = none := hindex
    simp [BatchStore.content, Shelves.holdings, Shelves.held, hindex]
  | indexed _ hcalls =>
    rw [hnone] at hcalls
    cases hcalls
  | stored hindex _ hlive hvalue =>
    have hindex : s.store.shelves.index key = _ := hindex
    simp only [BatchStore.content, Shelves.holdings, Shelves.held, hindex, Option.bind_some, if_pos hlive]
    exact ⟨hvalue, by simp [hindex, hlive]⟩
  | fetched hindex _ hlive =>
    have hindex : s.store.shelves.index key = _ := hindex
    simp [BatchStore.content, Shelves.holdings, Shelves.held, hindex, hlive]

theorem place_of_content (hlock : s.Unlocked) (hinv : s.store.Inv) (hheld : s.store.content.held key = held)
    (hgone : key ∈ s.store.content.blocked ↔ gone = true) : s.Place key held gone := by
  have hnone : storingAt key s.calls = [] := hlock.storing_eq_nil
  have hindexed : ∀ b ∈ s.store.shelves.live, key ∈ (s.store.batches b).m → s.store.keys2Batches key = some b :=
    fun b hb hk => hinv.ok.indexed hb hk
  have hsome : ∃ held' gone', s.Place key held' gone' := by
    cases hindex : s.store.keys2Batches key with
    | none => exact ⟨_, _, .free hindex hnone fun b hb hk => by simp [hindexed b hb hk] at hindex⟩
    | some b =>
      have honly : ∀ b' ∈ s.store.shelves.live, key ∈ (s.store.batches b').m → b' = b := fun b' hb' hk =>
        Option.some.inj ((hindexed b' hb' hk).symm.trans hindex)
      by_cases hlive : b ∈ s.store.shelves.live
      · have hmem : key ∈ (s.store.batches b).m := hinv.ok.stored hindex hlive
        obtain ⟨value, hvalue⟩ := Option.isSome_iff_exists.mp (AList.lookup_isSome.mpr hmem)
        exact ⟨_, _, .stored hindex hnone hlive hvalue honly⟩
      · exact ⟨_, _, .fetched hindex hnone hlive (hinv.index_le key b hindex) fun b' hb' hk =>
          hlive (honly b' hb' hk ▸ hb')⟩
  obtain ⟨held', gone', hplace⟩ := hsome
  obtain ⟨hheld', hgone'⟩ := hplace.content_eq hlock
  obtain rfl : held' = held := hheld'.symm.trans hheld
  obtain rfl : gone' = gone := Bool.eq_iff_iff.mpr (hgone'.symm.trans hgone)
  exact hplace

/-- The queue has no batch twice, and `Remove` is at batches that are out of use. -/
structure Linked (s : Inserting) : Prop where
  placed : s.Placed
  nodup : s.store.shelves.live.Nodup
  deleting : ∀ e ∈ s.deleting, e.2 ∉ s.store.shelves.live ∧ e.2 ≤ s.store.currentBatch

theorem linked_fresh (batchMaxSize batchMaxSizeBytes : UInt32) : (fresh batchMaxSize batchMaxSizeBytes).Linked :=
  ⟨placed_fresh batchMaxSize batchMaxSizeBytes, nodup_singleton 0, nofun⟩

theorem Linked.inv (hs : s.Linked) (hlock : s.Unlocked) (hplaces : ∀ key, ∃ held gone, s.Place key held gone) :
    s.store.Inv := by
  have hkey : ∀ key, (∀ b, s.store.keys2Batches key = some b →
      b ≤ s.store.currentBatch ∧ (b ∈ s.store.shelves.live → key ∈ (s.store.batches b).m)) ∧
      ∀ b ∈ s.store.shelves.live, key ∈ (s.store.batches b).m → s.store.keys2Batches key = some b := by
    intro key
    obtain ⟨held, gone, hplace⟩ := hplaces key
    cases hplace with
    | free hindex _ hbatches => exact ⟨by simp [hindex], fun b hb hk => absurd hk (hbatches b hb)⟩
    | indexed _ hcalls =>
      rw [hlock.storing_eq_nil] at hcalls
      cases hcalls
    | @stored _ b hindex _ hlive hvalue honly =>
      refine ⟨fun b' hb' => ?_, fun b' hb' hk => honly b' hb' hk ▸ hindex⟩
      cases hindex.symm.trans hb'
      refine ⟨?_, fun _ => AList.lookup_isSome.mp (Option.isSome_of_mem hvalue)⟩
      exact (mem_live.mp hlive).elim (fun hb => (hs.placed.queued.ready_lt b hb).le) Nat.le_of_eq
    | @fetched _ hindex _ hlive hle hbatches =>
      refine ⟨fun b' hb' => ?_, fun b' hb' hk => absurd hk (hbatches b' hb')⟩
      cases hindex.symm.trans hb'
      exact ⟨hle, fun hb => absurd hb hlive⟩
  refine ⟨⟨hs.nodup, fun {b key} hb => ⟨(hkey key).2 b hb, fun hindex => ((hkey key).1 b hindex).2 hb⟩⟩,
    hs.placed.queued.ready_lt, fun key b hindex => ((hkey key).1 b hindex).1, hs.placed.queued.open_current⟩

/-! ### One step -/

theorem not_live_of_renewed (hnew : store.Renewed store') (hb : b ∉ store.shelves.live ∧ b ≤ store.currentBatch) :
    b ∉ store'.shelves.live ∧ b ≤ store'.currentBatch := by
  obtain ⟨hnot, hle⟩ := hb
  rw [mem_live, not_or] at hnot
  have hcurrent := hnew.currentBatch_eq
  refine ⟨fun hlive => ?_, by omega⟩
  rcases mem_live.mp hlive with hready | heq
  · exact (hnew.ready b hready).elim hnot.1 hnot.2
  · omega

theorem Linked.fetch (hs : s.Linked) (hlock : s.Unlocked) (hinv : s.store.Inv)
    (hfetch : s.store.fetch o = (out, store)) : Linked { s with store, fetched := out :: s.fetched } := by
  have hplaced := hs.placed.fetch hlock hfetch
  refine ⟨⟨hplaced.queued, hplaced.calls⟩, (fetch_spec hinv hfetch).1.ok.nodup, fun e he => ?_⟩
  rcases fetch_cases hfetch with ⟨hkept, -⟩ | ⟨hnew, -⟩
  · obtain ⟨hnot, hle⟩ := hs.deleting e he
    have hcurrent := hkept.currentBatch_eq
    refine ⟨fun hlive => hnot (mem_live.mpr ?_), hcurrent ▸ hle⟩
    exact (mem_live.mp hlive).imp (fun hready => hkept.ready hready) fun heq => heq.trans hcurrent
  · exact not_live_of_renewed hnew (hs.deleting e he)

/-- **`Fetch`** takes out what it returns. -/
theorem Place.fetch (h : s.Place key held gone) (hlock : s.Unlocked) (hinv : s.store.Inv)
    (hfetch : s.store.fetch o = (out, store)) : (∀ e ∈ out, e.1 = key → held = some e.2) ∧
      Place { s with store, fetched := out :: s.fetched } key (if key ∈ out.map Prod.fst then none else held)
        (gone || decide (key ∈ out.map Prod.fst)) := by
  obtain ⟨hinv', hout, hcontent⟩ := fetch_spec hinv hfetch
  obtain ⟨hheld, hgone⟩ := h.content_eq hlock
  refine ⟨fun e he hk => ?_, place_of_content hlock hinv' ?_ ?_⟩
  · rw [← hheld, ← hk]
    exact hout e he
  · simp only [hcontent, Holdings.take, hheld]
  · simp [hcontent, Holdings.take, hgone]

theorem Place.index {newSize : UInt64} (h : s.Place key held gone) (hcalls : s.calls = before ++ call :: after)
    (hat : call.point = .added s.store.currentBatch newSize) (hkey : s.store.keys2Batches call.key = none) :
    let s' := { s with
      store := s.store.setKey call.key s.store.currentBatch
      calls := before ++ { call with point := .indexed s.store.currentBatch } :: after }
    if key = call.key then held = none ∧ gone = false ∧ Place s' key (some call.value) false
    else Place s' key held gone := by
  split
  · next heq =>
    subst heq
    cases h with
    | free _ hnone hbatches =>
      refine ⟨rfl, rfl, .indexed (update_self ..) ?_ hbatches⟩
      rw [hcalls, storing_mid] at hnone
      simp only [append_eq_nil_iff] at hnone
      rw [storing_mid, hnone.1.1, hnone.2]
      simp [storingAt, storing, Loading.key, setKey]
    | indexed hindex | stored hindex | fetched hindex =>
      rw [hkey] at hindex
      cases hindex
  · next hne =>
    refine h.congr (update_of_ne hne ..) rfl rfl (storing_replace hcalls ?_) fun _ _ => rfl
    simp [storingAt, storing, Loading.key, hat, Ne.symm hne]

theorem Place.put (h : s.Place key held gone) (hcalls : s.calls = before ++ call :: after)
    (hat : call.point = .indexed s.store.currentBatch) :
    Place { s with store := s.store.putRequest s.store.currentBatch call.key call.value, calls := before ++ after } key
      held gone := by
  by_cases hk : key = call.key
  · subst hk
    have hmid : storingAt call.key s.calls =
        storingAt call.key before ++ [(s.store.currentBatch, call.key, call.value)] ++ storingAt call.key after := by
      rw [hcalls, storing_mid, storing_self hat]
    cases h with
    | indexed hindex hone hbatches =>
      rw [hmid, append_assoc, singleton_append, append_eq_cons_iff] at hone
      rcases hone with ⟨hbefore, hone⟩ | ⟨_, _, hone⟩
      · obtain ⟨hvalue, hafter⟩ := List.cons.inj hone
        cases hvalue
        refine .stored hindex ?_ current_mem_live ?_ fun b' hb' hk => ?_
        · simp only [storingAt, storing, filter_append, filterMap_append]
          exact append_eq_nil_iff.mpr ⟨hbefore, hafter⟩
        · simp [putRequest]
        · by_contra hne
          simp only [putRequest, update_of_ne hne] at hk
          exact hbatches b' hb' hk
      · simp at hone
    | free _ hnone | stored _ hnone | fetched _ hnone => simp [hmid] at hnone
  · refine h.congr rfl rfl rfl (storing_remove hcalls (by simp [storingAt, storing, Loading.key, hat, Ne.symm hk]))
      fun b hb => ?_
    by_cases hb : b = s.store.currentBatch
    · simp [putRequest, hb, AList.lookup_insert_ne hk]
    · simp [putRequest, hb]

/-- **`Remove`** of a key that was fetched. -/
theorem Place.unindex {key' : String} (h : s.Place key held gone) (deleting) :
    let s' := { s with
      store := { s.store with keys2Batches := update s.store.keys2Batches key' none }, deleting }
    (key = key' → gone = true → held = none ∧ Place s' key none false) ∧ (key ≠ key' → Place s' key held gone) := by
  refine ⟨fun heq hgone => ?_, fun hne => h.congr (update_of_ne hne ..) rfl rfl rfl fun _ _ => rfl⟩
  subst heq hgone
  cases h with
  | fetched _ hnone _ _ hbatches => exact ⟨rfl, .free (update_self ..) hnone hbatches⟩

/-- **A step that neither indexes a key, nor fetches, nor deletes a key from the index** leaves the keys where they
are. -/
theorem Linked.quiet (hs : s.Linked) (hplaces : ∀ key, ∃ held gone, s.Place key held gone) (hstep : Step c valid s s')
    (hindex : s'.store.keys2Batches = s.store.keys2Batches) (hfetched : s'.fetched = s.fetched) :
    s'.Linked ∧ ∀ {key held gone}, s.Place key held gone → s'.Place key held gone := by
  have hplaced := hstep.placed hs.placed
  cases hstep with
  | call => exact ⟨⟨hplaced, hs.nodup, hs.deleting⟩, fun h => h.congr rfl rfl rfl rfl fun _ _ => rfl⟩
  | @add _ _ call hcalls hat =>
    have hshelves := shelves_addSize s.store call.size
    refine ⟨⟨hplaced, hs.nodup, hs.deleting⟩, fun h => h.congr rfl rfl rfl ?_ fun b _ => ?_⟩
    · exact storing_replace hcalls (by simp [storingAt, storing, Loading.key, hat])
    · exact congrArg (AList.lookup _) (congrFun (congrArg Shelves.shelf hshelves) b)
  | known hcalls hat =>
    refine ⟨⟨hplaced, hs.nodup, hs.deleting⟩, fun h => h.congr rfl rfl rfl ?_ fun _ _ => rfl⟩
    exact storing_remove hcalls (by simp [storingAt, storing, Loading.key, hat])
  | @index _ _ call _ _ _ _ _ hkey =>
    have hsame := congrFun hindex call.key
    simp [setKey, hkey] at hsame
  | put hcalls hat =>
    have hpoint := hs.placed.of_mid hcalls
    rw [hat] at hpoint
    cases hpoint
    exact ⟨⟨hplaced, hs.nodup, hs.deleting⟩, fun h => h.put hcalls hat⟩
  | giveUp hcalls hat =>
    refine ⟨⟨hplaced, hs.nodup, hs.deleting⟩, fun h => h.congr rfl rfl rfl ?_ fun _ _ => rfl⟩
    exact storing_replace hcalls (by simp [storingAt, storing, Loading.key, hat])
  | @enqueue _ _ call _ hcalls hat hlock =>
    have hle := hs.placed.of_mid hcalls
    rw [hat] at hle
    have hcall {key : String} : storingAt key [{ call with point := .start }] = storingAt key [call] := by
      simp [storingAt, storing, Loading.key, hat]
    rcases hs.placed.queued.enqueue_cases hle with ⟨-, hsame⟩ | ⟨rfl, hnew⟩
    · simp only [hsame] at hplaced ⊢
      exact ⟨⟨hplaced, hs.nodup, hs.deleting⟩,
        fun h => h.congr rfl rfl rfl (storing_replace hcalls hcall) fun _ _ => rfl⟩
    · obtain ⟨hinv, hcontent⟩ := (hs.inv hlock hplaces).enqueue
      refine ⟨⟨hplaced, hinv.ok.nodup, fun e he => not_live_of_renewed hnew (hs.deleting e he)⟩, fun h => ?_⟩
      obtain ⟨hheld, hgone⟩ := h.content_eq hlock
      refine place_of_content (hlock.move hcalls rfl) hinv ?_ ?_
      · simp only [hcontent, hheld]
      · simp only [hcontent, hgone]
  | fetch => exact absurd hfetched (cons_ne_self _ _)
  | @unindex key _ hkey =>
    have hsame := congrFun hindex key
    simp [hkey] at hsame
  | @delete _ _ key b hdeleting =>
    obtain ⟨hnot, -⟩ := hs.deleting (key, b) (hdeleting ▸ mem_append_cons_self)
    refine ⟨⟨hplaced, hs.nodup, forall_mem_remove (hdeleting ▸ hs.deleting)⟩,
      fun h => h.congr rfl rfl rfl rfl fun b' hb' => ?_⟩
    have hne : b' ≠ b := fun heq => hnot (heq ▸ hb')
    simp only [update_of_ne hne]

/-! ## A counter at zero -/

/-- Nobody has added to the current batch if its counter is at zero. -/
def Untouched (s : Inserting) : Prop :=
  (s.store.batches s.store.currentBatch).sizeBytes = 0 → (s.store.batches s.store.currentBatch).m = ∅ ∧ s.Unlocked

theorem untouched_renewed (hlock : s.Unlocked) (hnew : s.store.Renewed store') :
    Untouched { s with store := store' } := by
  intro _
  refine ⟨?_, hlock⟩
  simp only [hnew.currentBatch_eq, hnew.new]
  rfl

theorem not_unlocked (hcalls : s.calls = before ++ call :: after) (hreads : call.point.reads = true) :
    ¬ s.Unlocked := by
  intro hlock
  have hnot := hlock call (hcalls ▸ mem_append_cons_self)
  rw [hreads] at hnot
  cases hnot

theorem add_item_ne_zero {x size} (hle : x ≤ x + Packed.item size) : x + Packed.item size ≠ 0 := by
  intro hzero
  rw [hzero, UInt64.le_iff_toNat_le] at hle
  have hx : x = 0 := UInt64.toNat_inj.mp (Nat.le_zero.mp hle)
  have hitem := Packed.toNat_item size
  rw [hx, UInt64.zero_add] at hzero
  rw [hzero] at hitem
  have hnone : (0 : UInt64).toNat = 0 := rfl
  omega

theorem Untouched.fetch (h : s.Untouched) (hlock : s.Unlocked) (hfetch : s.store.fetch o = (out, store)) :
    Untouched { s with store, fetched := out :: s.fetched } := by
  rcases fetch_cases hfetch with ⟨hkept, -⟩ | ⟨hnew, -⟩
  · intro hzero
    simp only [hkept.currentBatch_eq, hkept.sizeBytes_eq, hkept.m_eq] at hzero ⊢
    exact h hzero
  · exact untouched_renewed hlock hnew

/-- **A step that does not make the counter overflow.** -/
theorem Untouched.step (h : s.Untouched) (hs : s.Placed) (hstep : Step c valid s s')
    (hcounter : (s.store.batches s.store.currentBatch).sizeBytes ≤
      (s'.store.batches s.store.currentBatch).sizeBytes) : s'.Untouched := by
  cases hstep with
  | call =>
    intro hzero
    obtain ⟨hm, hlock⟩ := h hzero
    exact ⟨hm, forall_mem_cons.mpr ⟨rfl, hlock⟩⟩
  | @add _ _ call =>
    intro hzero
    rw [batches_addSize] at hzero
    have hadded : (s.store.addSize call.size).batches s.store.currentBatch = _ := batches_addSize s.store call.size
    rw [hadded] at hcounter
    exact absurd hzero (add_item_ne_zero hcounter)
  | known hcalls hat | index hcalls hat =>
    exact fun hzero => absurd (h hzero).2 (not_unlocked hcalls (by rw [hat]; rfl))
  | @put _ _ _ currBatch hcalls hat =>
    intro hzero
    have hpoint := hs.of_mid hcalls
    rw [hat] at hpoint
    obtain rfl : currBatch = s.store.currentBatch := hpoint
    simp only [putRequest, update_self] at hzero
    exact absurd (h hzero).2 (not_unlocked hcalls (by rw [hat]; rfl))
  | giveUp hcalls hat => exact fun hzero => absurd (h hzero).2 (not_unlocked hcalls (by rw [hat]; rfl))
  | @enqueue _ _ _ _ hcalls hat hlock =>
    have hle := hs.of_mid hcalls
    rw [hat] at hle
    intro hzero
    refine ⟨?_, hlock.move hcalls rfl⟩
    rcases hs.queued.enqueue_cases hle with ⟨-, hsame⟩ | ⟨-, hnew⟩
    · simp only [hsame] at hzero ⊢
      exact (h hzero).1
    · simp only [hnew.currentBatch_eq, hnew.new]
      rfl
  | fetch _ hlock hfetch => exact h.fetch hlock hfetch
  | unindex => exact h
  | @delete _ _ _ b =>
    intro hzero
    by_cases hb : s.store.currentBatch = b
    · subst hb
      simp only [update_self] at hzero ⊢
      obtain ⟨hm, hlock⟩ := h hzero
      rw [hm]
      exact ⟨rfl, hlock⟩
    · simp only [update_of_ne hb] at hzero ⊢
      exact h hzero

end Inserting

/-! ## A fetch that returns nothing -/

namespace BatchStore

variable {ν : Type} {s s' : BatchStore ν} {o : RangeOrder String ν}

theorem fetchReady_ne_nil {ready out} (h : fetchReady o ready s = (some out, s')) : out ≠ [] := by
  induction ready generalizing s with
  | nil => cases h
  | cons b rest ih =>
    unfold fetchReady at h
    split at h
    · exact ih h
    · cases h
      exact cons_ne_nil _ _

theorem nodup_fetch {out} (hfetch : s.fetch o = (out, s')) : (out.map Prod.fst).Nodup := by
  have hprepare : ∀ b, ((s.prepareBatch o b).map Prod.fst).Nodup := fun b =>
    ((enumerates_pairs (s.batches b).m).perm (o.perm _)).nodup
  rcases fetch_cases hfetch with ⟨-, rfl | ⟨b, -, rfl⟩⟩ | ⟨-, rfl⟩
  · exact nodup_nil
  · exact hprepare b
  · exact hprepare _

theorem Inv.held_of_ready_nil (h : s.Inv) (hready : s.readyBatches = []) {key}
    (hkey : key ∉ s.shelves.shelf s.currentBatch) : s.content.held key = none := by
  refine h.ok.held_eq_none.mpr fun b hb hindex => hkey ?_
  have hcurrent : b = s.currentBatch := (mem_live.mp hb).resolve_left fun hin => by simp [hready] at hin
  exact hcurrent ▸ h.ok.stored hindex hb

/-- **A store from which nothing is fetched holds nothing**, if a counter at zero means an empty batch. -/
theorem Inv.held_of_fetch_nil (h : s.Inv) (hfetch : s.fetch o = ([], s'))
    (hzero : (s.batches s.currentBatch).sizeBytes = 0 → (s.batches s.currentBatch).m = ∅) (key : String) :
    s.content.held key = none := by
  unfold fetch at hfetch
  split at hfetch
  · next out s₁ hready =>
    cases hfetch
    exact absurd rfl (fetchReady_ne_nil hready)
  · next s₁ hready =>
    obtain ⟨h₁, hnone, -⟩ := h.fetchReady rfl hready
    obtain ⟨hcontent, hempty⟩ := hnone rfl
    obtain ⟨hkept, -⟩ := fetchReady_kept rfl hready
    have hnot : key ∉ s₁.shelves.shelf s₁.currentBatch := by
      split at hfetch
      · next hsize =>
        rw [hkept.currentBatch_eq, hkept.sizeBytes_eq] at hsize
        have hm : s₁.shelves.shelf s₁.currentBatch = ∅ := by
          rw [hkept.currentBatch_eq]
          exact (hkept.m_eq _).trans (hzero hsize)
        rw [hm]
        exact AList.notMem_empty key
      · intro hmem
        rw [← mem_keys_prepareBatch (o := o), (Prod.mk.inj hfetch).1] at hmem
        cases hmem
    rw [← hcontent]
    exact h₁.held_of_ready_nil hempty hnot

end BatchStore

/-! ## The books -/

/-- The store with its calls, and the books. -/
structure Tracked where
  state : Inserting
  books : Books String Bytes

namespace Tracked

/-- A new store. -/
def fresh (batchMaxSize batchMaxSizeBytes : UInt32) : Tracked :=
  ⟨.fresh batchMaxSize batchMaxSizeBytes, .empty⟩

/-- One step. `Remove` is called for a key that was returned more often than it was removed. -/
inductive Step (c : Nat) (valid : Bytes → Prop) (t : Tracked) : Tracked → Prop
  /-- Any step of the calls that neither indexes a key, nor fetches, nor deletes a key from the index. The counter of
  the current batch does not overflow. -/
  | quiet {s} (hstep : Inserting.Step c valid t.state s)
      (hindex : s.store.keys2Batches = t.state.store.keys2Batches) (hfetched : s.fetched = t.state.fetched)
      (hcounter : (t.state.store.batches t.state.store.currentBatch).sizeBytes ≤
        (s.store.batches t.state.store.currentBatch).sizeBytes) :
      Step c valid t { t with state := s }
  /-- `Insert` indexes the key, and will return `true`. -/
  | accept {before after call currBatch newSize}
      (hcalls : t.state.calls = before ++ call :: after) (hat : call.point = .added currBatch newSize)
      (hfits : t.state.store.fits newSize = true) (hkey : t.state.store.keys2Batches call.key = none) :
      Step c valid t ⟨{ t.state with
        store := t.state.store.setKey call.key currBatch
        calls := before ++ { call with point := .indexed currBatch } :: after }, t.books.accept call.key call.value⟩
  | fetch {store out} (o : RangeOrder String Bytes)
      (hlock : t.state.Unlocked) (hfetch : t.state.store.fetch o = (out, store)) :
      Step c valid t ⟨{ t.state with store, fetched := out :: t.state.fetched }, t.books.handOut out⟩
  | remove {key b} (howed : t.books.Owed key) (hkey : t.state.store.keys2Batches key = some b) :
      Step c valid t ⟨{ t.state with
        store := { t.state.store with keys2Batches := update t.state.store.keys2Batches key none }
        deleting := (key, b) :: t.state.deleting }, t.books.remove key⟩
  /-- `Remove` does not find the key. -/
  | removeNothing {key} (howed : t.books.Owed key) (hkey : t.state.store.keys2Batches key = none) :
      Step c valid t { t with books := t.books.remove key }

def Run (c : Nat) (valid : Bytes → Prop) : Tracked → Tracked → Prop := Relation.ReflTransGen (Step c valid)

variable {c : Nat} {valid : Bytes → Prop} {t t' : Tracked} {batchMaxSize batchMaxSizeBytes : UInt32}

/-- What holds between any two steps. -/
structure Inv (t : Tracked) : Prop where
  linked : t.state.Linked
  untouched : t.state.Untouched
  tallies : ∀ key, ∃ held gone, t.state.Place key held gone ∧ t.books.Tallies key held gone

theorem Inv.places (ht : t.Inv) (key : String) : ∃ held gone, t.state.Place key held gone := by
  obtain ⟨held, gone, hplace, -⟩ := ht.tallies key
  exact ⟨held, gone, hplace⟩

theorem inv_fresh (batchMaxSize batchMaxSizeBytes : UInt32) : (fresh batchMaxSize batchMaxSizeBytes).Inv where
  linked := Inserting.linked_fresh _ _
  untouched _ := ⟨rfl, nofun⟩
  tallies key := ⟨none, false, .free rfl rfl fun _ _ => AList.notMem_empty key, rfl, rfl⟩

/-- **A step keeps the books balanced.** -/
theorem Step.inv (h : Step c valid t t') (ht : t.Inv) : t'.Inv := by
  have hlinked := ht.linked
  have huntouched := ht.untouched
  cases h with
  | quiet hstep hindex hfetched hcounter =>
    obtain ⟨hlinked', hplace'⟩ := hlinked.quiet ht.places hstep hindex hfetched
    refine ⟨hlinked', huntouched.step hlinked.placed hstep hcounter, fun key => ?_⟩
    obtain ⟨held, gone, hplace, htallies⟩ := ht.tallies key
    exact ⟨held, gone, hplace' hplace, htallies⟩
  | @accept _ _ call currBatch _ hcalls hat hfits hkey =>
    have hstep : Inserting.Step c valid t.state _ := .index hcalls hat hfits hkey
    have hpoint := hlinked.placed.of_mid hcalls
    rw [hat] at hpoint
    obtain rfl : currBatch = t.state.store.currentBatch := hpoint
    refine ⟨⟨hstep.placed hlinked.placed, hlinked.nodup, hlinked.deleting⟩,
      huntouched.step hlinked.placed hstep (UInt64.le_refl _), fun key => ?_⟩
    obtain ⟨held, gone, hplace, haccepted, hreturned⟩ := ht.tallies key
    have hplace' := hplace.index hcalls hat hkey
    by_cases hk : key = call.key
    · rw [if_pos hk] at hplace'
      obtain ⟨rfl, rfl, hplace'⟩ := hplace'
      refine ⟨_, _, hplace', ?_, hreturned⟩
      subst hk
      simp only [Books.accept, update_self, haccepted]
      rfl
    · rw [if_neg hk] at hplace'
      refine ⟨_, _, hplace', ?_, hreturned⟩
      simp only [Books.accept, update_of_ne hk]
      exact haccepted
  | @fetch _ _ _ hlock hfetch =>
    have hinv := hlinked.inv hlock ht.places
    refine ⟨hlinked.fetch hlock hinv hfetch, huntouched.fetch hlock hfetch, fun key => ?_⟩
    obtain ⟨held, gone, hplace, htallies⟩ := ht.tallies key
    obtain ⟨hout, hplace'⟩ := hplace.fetch hlock hinv hfetch
    exact ⟨_, _, hplace', htallies.handOut (nodup_fetch hfetch) hout hplace.gone_eq⟩
  | @remove key b howed hkey =>
    have hstep : Inserting.Step c valid t.state _ := .unindex hkey
    obtain ⟨held, gone, hplace, htallies⟩ := ht.tallies key
    obtain rfl := htallies.gone_of_owed howed
    refine ⟨⟨hstep.placed hlinked.placed, hlinked.nodup, ?_⟩,
      huntouched.step hlinked.placed hstep (UInt64.le_refl _), fun key' => ?_⟩
    · exact forall_mem_cons.mpr ⟨hplace.out_of_use hkey, hlinked.deleting⟩
    · obtain ⟨held', gone', hplace', haccepted, hreturned⟩ := ht.tallies key'
      obtain ⟨hsame, hother⟩ := hplace'.unindex ((key, b) :: t.state.deleting)
      by_cases hk : key' = key
      · obtain rfl : gone' = true := Books.Tallies.gone_of_owed ⟨haccepted, hreturned⟩ (hk ▸ howed)
        obtain ⟨rfl, hfree⟩ := hsame hk rfl
        refine ⟨_, _, hfree, haccepted, ?_⟩
        subst hk
        simp only [Books.remove, update_self]
        exact hreturned
      · refine ⟨_, _, hother hk, haccepted, ?_⟩
        simp only [Books.remove, update_of_ne hk]
        exact hreturned
  | @removeNothing key howed hkey =>
    obtain ⟨held, gone, hplace, htallies⟩ := ht.tallies key
    obtain rfl := htallies.gone_of_owed howed
    cases hplace with
    | fetched hindex =>
      rw [hkey] at hindex
      cases hindex

theorem Run.inv (hrun : Run c valid (fresh batchMaxSize batchMaxSizeBytes) t) : t.Inv := by
  induction hrun with
  | refl => exact inv_fresh batchMaxSize batchMaxSizeBytes
  | tail _ hstep ih => exact hstep.inv ih

/-- The books leave out no step of the calls: any of them is one, if `Remove` is called as it should be and the counter
does not overflow. -/
theorem Step.of_inserting {s} (hstep : Inserting.Step c valid t.state s)
    (howed : ∀ key, t.state.store.keys2Batches key ≠ none → s.store.keys2Batches key = none → t.books.Owed key)
    (hcounter : (t.state.store.batches t.state.store.currentBatch).sizeBytes ≤
      (s.store.batches t.state.store.currentBatch).sizeBytes) : ∃ books, Step c valid t ⟨s, books⟩ := by
  cases hstep with
  | index hcalls hat hfits hkey => exact ⟨_, .accept hcalls hat hfits hkey⟩
  | fetch o hlock hfetch => exact ⟨_, .fetch o hlock hfetch⟩
  | @unindex key b hkey =>
    have hsome : t.state.store.keys2Batches key ≠ none := ne_of_eq_of_ne hkey (Option.some_ne_none b)
    exact ⟨_, .remove (howed key hsome (update_self ..)) hkey⟩
  | call hroom hvalue => exact ⟨_, .quiet (.call hroom hvalue) rfl rfl hcounter⟩
  | add hcalls hat => exact ⟨_, .quiet (.add hcalls hat) rfl rfl hcounter⟩
  | known hcalls hat hfits hkey => exact ⟨_, .quiet (.known hcalls hat hfits hkey) rfl rfl hcounter⟩
  | put hcalls hat => exact ⟨_, .quiet (.put hcalls hat) rfl rfl hcounter⟩
  | giveUp hcalls hat hfull => exact ⟨_, .quiet (.giveUp hcalls hat hfull) rfl rfl hcounter⟩
  | enqueue hcalls hat hlock =>
    refine ⟨_, .quiet (.enqueue hcalls hat hlock) ?_ rfl hcounter⟩
    unfold enqueue
    split <;> rfl
  | delete hdeleting => exact ⟨_, .quiet (.delete hdeleting) rfl rfl hcounter⟩

/-- **The batch store neither loses nor duplicates**, whatever the steps of the calls. The values that were accepted
under a key are those that were fetched under it, in the same order, and then perhaps the one that is held. That one is
in one batch, or about to be. When no `Insert` is in progress and `Fetch` returns nothing, then nothing is held. And
`Insert` refuses a key only if it was accepted more often than it was removed. -/
theorem insertions_accounted (hrun : Run c valid (fresh batchMaxSize batchMaxSizeBytes) t) :
    (∀ key, t.books.accepted key = (t.state.content.held key).toList ++ t.books.returned key) ∧
    (∀ key value, t.state.content.held key = some value → ∃ b ∈ t.state.store.shelves.live,
      ((t.state.store.batches b).m.lookup key = some value ∨
        ∃ call ∈ t.state.calls, call.point = .indexed b ∧ call.key = key ∧ call.value = value) ∧
      ∀ b' ∈ t.state.store.shelves.live, key ∈ (t.state.store.batches b').m → b' = b) ∧
    (∀ o store, t.state.calls = [] → t.state.store.fetch o = ([], store) →
      ∀ key, t.books.accepted key = t.books.returned key) ∧
    ∀ call ∈ t.state.calls, ∀ currBatch newSize b, call.point = .added currBatch newSize →
      t.state.store.keys2Batches call.key = some b → t.books.removed call.key < (t.books.accepted call.key).length := by
  have ht := hrun.inv
  refine ⟨fun key => ?_, fun key value hheld => ?_, fun o store hcalls hfetch key => ?_,
    fun call _ currBatch newSize b _ hkey => ?_⟩
  · obtain ⟨held, gone, hplace, haccepted, -⟩ := ht.tallies key
    rw [hplace.held_eq, haccepted]
  · obtain ⟨held, gone, hplace, -, -⟩ := ht.tallies key
    obtain rfl := hplace.held_eq.symm.trans hheld
    cases hplace with
    | indexed _ hcalls hbatches =>
      refine ⟨_, current_mem_live, .inr (Inserting.mem_storing.mp ?_), ?_⟩
      · exact mem_of_mem_filter (hcalls ▸ mem_singleton_self _)
      · exact fun b' hb' hk => absurd hk (hbatches b' hb')
    | stored _ _ hlive hvalue honly => exact ⟨_, hlive, .inl hvalue, honly⟩
  · have hlock : t.state.Unlocked := by simp [Inserting.Unlocked, hcalls]
    obtain ⟨held, gone, hplace, haccepted, -⟩ := ht.tallies key
    have hinv := ht.linked.inv hlock ht.places
    have hnone := hinv.held_of_fetch_nil hfetch (fun hzero => (ht.untouched hzero).1) key
    rw [(hplace.content_eq hlock).1] at hnone
    rw [haccepted, hnone]
    rfl
  · obtain ⟨held, gone, hplace, haccepted, hreturned⟩ := ht.tallies call.key
    rw [haccepted, length_append, hreturned]
    cases hplace with
    | free hindex => simp [hindex] at hkey
    | indexed | stored | fetched => simp

/-- Two calls of `Insert` overlap, in a store with one request a batch. The second finds the batch full and enqueues it
when the first is through; the batch is fetched before the second gets into the next one, and its key is removed. -/
theorem two_requests_accounted : ∃ t, Run 2 (fun _ => True) (fresh 1 1000) t ∧
    t.books.accepted "a" = [[7]] ∧ t.books.returned "a" = [[7]] ∧ t.books.removed "a" = 1 ∧
    t.books.accepted "b" = [[8]] ∧ t.books.returned "b" = [] ∧ t.state.content.held "b" = some [8] ∧
    ∀ key, t.books.accepted key = (t.state.content.held key).toList ++ t.books.returned key := by
  have hcall : Inserting.Step 2 (fun _ => True) (.fresh 1 1000) _ :=
    @Inserting.Step.call _ _ _ "a" [7] Nat.two_pos trivial
  have hcalled : Run 2 (fun _ => True) (fresh 1 1000) _ := .single (.quiet hcall rfl rfl (UInt64.le_refl _))
  have hcalled' := hcalled.tail
    (.quiet (@Inserting.Step.call _ _ _ "b" [8] Nat.one_lt_two trivial) rfl rfl (UInt64.le_refl _))
  have hadded := hcalled'.tail (.quiet (@Inserting.Step.add _ _ _ [_] [] _ rfl rfl) rfl rfl (by decide))
  have hadded' := hadded.tail (.quiet (@Inserting.Step.add _ _ _ [] [_] _ rfl rfl) rfl rfl (by decide))
  have hfull := hadded'.tail
    (.quiet (@Inserting.Step.giveUp _ _ _ [] [_] _ _ _ rfl rfl rfl) rfl rfl (UInt64.le_refl _))
  have haccepted := hfull.tail (@Step.accept _ _ _ [_] [] _ _ _ rfl rfl rfl rfl)
  have hput := haccepted.tail (.quiet (@Inserting.Step.put _ _ _ [_] [] _ _ rfl rfl) rfl rfl (UInt64.le_refl _))
  have henqueued := hput.tail
    (.quiet (@Inserting.Step.enqueue _ _ _ [] [] _ _ rfl rfl (forall_mem_singleton.mpr rfl)) rfl rfl
      (UInt64.le_refl _))
  have hfetched := henqueued.tail (.fetch .same (forall_mem_singleton.mpr rfl) rfl)
  have hadded'' := hfetched.tail (.quiet (@Inserting.Step.add _ _ _ [] [] _ rfl rfl) rfl rfl (by decide))
  have haccepted' := hadded''.tail (@Step.accept _ _ _ [] [] _ _ _ rfl rfl rfl rfl)
  have hput' := haccepted'.tail (.quiet (@Inserting.Step.put _ _ _ [] [] _ _ rfl rfl) rfl rfl (UInt64.le_refl _))
  have hremoved := hput'.tail (@Step.remove _ _ _ "a" _ Nat.one_pos rfl)
  exact ⟨_, hremoved, rfl, rfl, rfl, rfl, rfl, rfl, (insertions_accounted hremoved).1⟩

end Tracked

end Arma
