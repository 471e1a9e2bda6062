import Mathlib.Data.List.AList
import Mathlib.Data.List.Induction

/-!
# Maps filled in one pass over a list

Code that groups a list by a key walks it once and updates a map entry per element. `gather` is that
walk for any update; `lookup_gather` says what it leaves under a key: what the elements with that key,
in their order, make of an absent entry. With `bucket` the entry is the list of the elements' values
(`lookup_gather_bucket`), with `overwrite` the last element.

`groupsInOrder` is the walk that also keeps the keys in the order they first appear, and gives back
the groups in that order. `groupsInOrder_eq` is its whole meaning: one group for each key that occurs,
holding the elements with that key.
-/

namespace Arma.Lib

open List

variable {α κ ν : Type} [DecidableEq κ]

/-- A map filled by one pass: every element updates the entry under its key. -/
def gather (key : α → κ) (upd : Option ν → α → ν) (l : List α) : AList fun _ : κ => ν :=
  l.foldl (fun m a => m.insert (key a) (upd (m.lookup (key a)) a)) ∅

/-- The update that appends the element's value to the list under the key. -/
def bucket (val : α → ν) (o : Option (List ν)) (a : α) : List ν := o.getD [] ++ [val a]

/-- The update that puts the element itself under the key, in place of what was there. -/
def overwrite (_ : Option α) (a : α) : α := a

variable {key : α → κ} {upd : Option ν → α → ν} {l : List α}

@[simp] theorem gather_nil : gather key upd [] = ∅ := rfl

@[simp] theorem gather_concat (a : α) : gather key upd (l ++ [a]) =
      (gather key upd l).insert (key a) (upd ((gather key upd l).lookup (key a)) a) := by
  simp [gather]

/-- **What a pass leaves under a key**: the elements with that key, applied in order. -/
theorem lookup_gather (k : κ) : (gather key upd l).lookup k =
      (l.filter (key · = k)).foldl (fun o a => some (upd o a)) none := by
  induction l using List.reverseRecOn with
  | nil => simp
  | append_singleton _ a ih =>
    rw [gather_concat]
    by_cases h : key a = k
    · subst h
      simp [AList.lookup_insert, ih]
    · rw [AList.lookup_insert_ne (Ne.symm h), ih]
      simp [h]

variable {k : κ}

theorem mem_gather : k ∈ gather key upd l ↔ ∃ a ∈ l, key a = k := by
  induction l using List.reverseRecOn with
  | nil => simp
  | append_singleton _ a ih =>
    rw [gather_concat, AList.mem_insert, ih]
    simp only [mem_append, mem_singleton]
    constructor
    · rintro (rfl | ⟨b, hb, rfl⟩)
      · exact ⟨a, Or.inr rfl, rfl⟩
      · exact ⟨b, Or.inl hb, rfl⟩
    · rintro ⟨b, hb | rfl, rfl⟩
      · exact Or.inr ⟨b, hb, rfl⟩
      · exact Or.inl rfl

theorem foldl_bucket (val : α → ν) (l : List α) (acc : List ν) :
    l.foldl (fun o a => some (bucket val o a)) (some acc) = some (acc ++ l.map val) := by
  induction l generalizing acc with
  | nil => simp
  | cons a l ih =>
    have hstep : bucket val (some acc) a = acc ++ [val a] := rfl
    rw [foldl_cons, hstep, ih, append_assoc, map_cons, singleton_append]

theorem lookup_gather_bucket (val : α → ν) (k : κ) :
    ((gather key (bucket val) l).lookup k).getD [] = (l.filter (key · = k)).map val := by
  rw [lookup_gather]
  cases l.filter (key · = k) with
  | nil => rfl
  | cons a rest =>
    have hone : bucket val none a = [val a] := rfl
    rw [foldl_cons, hone, foldl_bucket]
    rfl

theorem lookup_gather_bucket_eq_some {val : α → ν} {vs} : (gather key (bucket val) l).lookup k = some vs ↔
      (∃ a ∈ l, key a = k) ∧ vs = (l.filter (key · = k)).map val := by
  constructor
  · intro h
    refine ⟨mem_gather.mp (AList.lookup_isSome.mp (by rw [h]; rfl)), ?_⟩
    rw [← lookup_gather_bucket, h]
    rfl
  · rintro ⟨ha, rfl⟩
    have hmem : k ∈ gather key (bucket val) l := mem_gather.mpr ha
    obtain ⟨vs, hvs⟩ := Option.isSome_iff_exists.mp (AList.lookup_isSome.mpr hmem)
    rw [← lookup_gather_bucket, hvs]
    rfl

theorem of_lookup_gather_overwrite {a} (h : (gather key overwrite l).lookup k = some a) : a ∈ l ∧ key a = k := by
  induction l using List.reverseRecOn with
  | nil => simp at h
  | append_singleton _ b ih =>
    rw [gather_concat] at h
    by_cases hb : key b = k
    · subst hb
      obtain rfl : b = a := by simpa [AList.lookup_insert, overwrite] using h
      simp
    · rw [AList.lookup_insert_ne (Ne.symm hb)] at h
      obtain ⟨hmem, hk⟩ := ih h
      exact ⟨by simp [hmem], hk⟩

theorem lookup_gather_overwrite_of_nodup (hnodup : (l.map key).Nodup) {a} (ha : a ∈ l) :
    (gather key overwrite l).lookup (key a) = some a := by
  have hmem : key a ∈ gather key overwrite l := mem_gather.mpr ⟨a, ha, rfl⟩
  obtain ⟨b, hb⟩ := Option.isSome_iff_exists.mp (AList.lookup_isSome.mpr hmem)
  obtain ⟨hbl, hkey⟩ := of_lookup_gather_overwrite hb
  rw [hb, inj_on_of_nodup_map hnodup hbl ha hkey]

/-! ## A map of maps -/

/-- A pass that fills a map of maps: the outer entry is found by `key`, the inner one by `key'`. -/
def gatherNested {κ' : Type} [DecidableEq κ'] (key : α → κ) (key' : α → κ')
    (upd : Option ν → α → ν) (l : List α) : AList fun _ : κ => AList fun _ : κ' => ν :=
  gather key (fun inner a => (inner.getD ∅).insert (key' a) (upd ((inner.getD ∅).lookup (key' a)) a)) l

/-- The inner map under `k` is the pass over the elements with the outer key `k`. -/
theorem lookup_gatherNested {κ' : Type} [DecidableEq κ'] {key' : α → κ'} (k : κ) :
    ((gatherNested key key' upd l).lookup k).getD ∅ = gather key' upd (l.filter (key · = k)) := by
  unfold gatherNested
  rw [lookup_gather]
  induction l.filter (key · = k) using List.reverseRecOn with
  | nil => rfl
  | append_singleton _ _ ih =>
    rw [foldl_append, foldl_cons, foldl_nil, gather_concat, ← ih]
    rfl

theorem mem_gatherNested {κ' : Type} [DecidableEq κ'] {key' : α → κ'} :
    k ∈ gatherNested key key' upd l ↔ ∃ a ∈ l, key a = k := mem_gather

/-! ## Groups in the order their keys first appear -/

/-- The keys of a list in the order they first appear. -/
def firstSeen (key : α → κ) (l : List α) : List κ :=
  l.foldl (fun order a => if key a ∈ order then order else order ++ [key a]) []

@[simp] theorem firstSeen_concat (a : α) : firstSeen key (l ++ [a]) =
      if key a ∈ firstSeen key l then firstSeen key l else firstSeen key l ++ [key a] := by
  unfold firstSeen
  rw [foldl_append, foldl_cons, foldl_nil]

theorem mem_firstSeen : k ∈ firstSeen key l ↔ ∃ a ∈ l, key a = k := by
  induction l using List.reverseRecOn with
  | nil => simp [firstSeen]
  | append_singleton l a ih =>
    rw [firstSeen_concat]
    by_cases h : key a ∈ firstSeen key l
    · rw [if_pos h, ih]
      constructor
      · rintro ⟨b, hb, rfl⟩
        exact ⟨b, by simp [hb], rfl⟩
      · rintro ⟨b, hb, rfl⟩
        rcases mem_append.mp hb with hb | hb
        · exact ⟨b, hb, rfl⟩
        · obtain rfl := mem_singleton.mp hb
          exact ih.mp h
    · rw [if_neg h, mem_append, ih]
      simp [or_and_right, exists_or, eq_comm]

theorem nodup_firstSeen : (firstSeen key l).Nodup := by
  induction l using List.reverseRecOn with
  | nil => simp [firstSeen]
  | append_singleton _ _ ih =>
    rw [firstSeen_concat]
    split
    · exact ih
    · rename_i h
      exact nodup_append.mpr ⟨ih, by simp, by
        intro x hx y hy hxy
        obtain rfl := mem_singleton.mp hy
        exact h (hxy ▸ hx)⟩

/-- One pass that fills the groups and keeps the keys in the order they first appear. -/
def gatherInOrder (key : α → κ) (l : List α) : (AList fun _ : κ => List α) × List κ :=
  l.foldl (fun acc a =>
    (acc.1.insert (key a) (bucket id (acc.1.lookup (key a)) a),
      if key a ∈ acc.1 then acc.2 else acc.2 ++ [key a])) (∅, [])

/-- The groups of a list, in the order their keys first appear. -/
def groupsInOrder (key : α → κ) (l : List α) : List (List α) :=
  (gatherInOrder key l).2.map fun k => ((gatherInOrder key l).1.lookup k).getD []

theorem gatherInOrder_eq : gatherInOrder key l = (gather key (bucket id) l, firstSeen key l) := by
  induction l using List.reverseRecOn with
  | nil => rfl
  | append_singleton l a ih =>
    have hstep : gatherInOrder key (l ++ [a]) = ((gatherInOrder key l).1.insert (key a)
          (bucket id ((gatherInOrder key l).1.lookup (key a)) a),
         if key a ∈ (gatherInOrder key l).1 then (gatherInOrder key l).2
         else (gatherInOrder key l).2 ++ [key a]) := by
      unfold gatherInOrder
      rw [foldl_append, foldl_cons, foldl_nil]
    have hmem : key a ∈ gather key (bucket id) l ↔ key a ∈ firstSeen key l := by
      rw [mem_gather, mem_firstSeen]
    rw [hstep, ih, gather_concat, firstSeen_concat]
    simp only [hmem]

/-- **The groups**: one for each key that occurs, holding the elements with that key. -/
theorem groupsInOrder_eq : groupsInOrder key l = (firstSeen key l).map fun k => l.filter (key · = k) := by
  unfold groupsInOrder
  rw [gatherInOrder_eq]
  refine map_congr_left fun k _ => ?_
  rw [lookup_gather_bucket, map_id]

theorem mem_groupsInOrder {g} : g ∈ groupsInOrder key l ↔ ∃ a ∈ l, g = l.filter (key · = key a) := by
  rw [groupsInOrder_eq, mem_map]
  constructor
  · rintro ⟨k, hk, rfl⟩
    obtain ⟨a, ha, rfl⟩ := mem_firstSeen.mp hk
    exact ⟨a, ha, rfl⟩
  · rintro ⟨a, ha, rfl⟩
    exact ⟨key a, mem_firstSeen.mpr ⟨a, ha, rfl⟩, rfl⟩

end Arma.Lib
