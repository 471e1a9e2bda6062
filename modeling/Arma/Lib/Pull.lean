import Mathlib.Data.List.Range
import Mathlib.Data.List.Flatten

/-!
# Pulling a remote log over a stream that may fail

A client asks a server for the entries of its log from some position on, and the server sends them in order,
also those that are yet to come. When the stream fails the client asks again, from a position that it chooses
anew. A handler turns each entry into items, which the client puts into a bounded channel, one by one. The
channel outlives the stream.

* A `Session` is one stream: the position asked for and the number of entries that came. `positions` are the
  positions of all entries received, session after session.
* `positions_eq_range'_iff`: they are consecutive from a start on iff every session that gave anything was
  opened right where the one before ended.
* `pairwise_lt_take_iff`: if every session is opened at the same position, they increase as long as they come from
  one session; `Faithful.increasing_iff` is the same for what was taken out of the channel.
* `flatMap_slice_iff`: the same for sessions that bring parts of a list without repetitions.
* `Puller` is the client and `Puller.Step` what it does; `Puller.Faithful`, kept by every step and by a growing
  log, says that what went into the channel is what the handler makes of the entries at these positions.
-/

namespace Arma.Lib

open List

/-- A stream: the position asked for, and how many entries came. -/
structure Session where
  first : Nat
  count : Nat
  deriving DecidableEq, Repr

namespace Session

/-- The positions of the entries that came over a stream. -/
def range (s : Session) : List Nat := range' s.first s.count

/-- The positions of the entries that came over several streams. -/
def positions (sessions : List Session) : List Nat := sessions.flatMap range

/-- Every session that gave anything was opened where the one before ended, the first one at `start`. -/
def InOrder : Nat → List Session → Prop
  | _, [] => True
  | start, s :: rest => (s.count = 0 ∨ s.first = start) ∧ InOrder (start + s.count) rest

/-- The first `k` entries came over one stream. -/
def FromOne : List Session → Nat → Prop
  | [], k => k = 0
  | s :: rest, k => if s.count = 0 then FromOne rest k else k ≤ s.count

variable {s : Session} {sessions rest : List Session} {start : Nat}

@[simp] theorem positions_nil : positions [] = [] := rfl

@[simp] theorem positions_cons : positions (s :: rest) = s.range ++ positions rest := rfl

@[simp] theorem positions_append (l m : List Session) : positions (l ++ m) = positions l ++ positions m :=
  flatMap_append

@[simp] theorem length_range : s.range.length = s.count := length_range'

theorem range'_eq_range'_iff {a b n} : range' a n = range' b n ↔ n = 0 ∨ a = b := by
  cases n with
  | zero => simp
  | succ n =>
    refine ⟨fun h => ?_, fun h => ?_⟩
    · rw [range'_succ, range'_succ] at h
      exact .inr (List.cons.inj h).1
    · rcases h with h | rfl
      · cases h
      · rfl

theorem positions_eq_range'_iff :
    positions sessions = range' start (positions sessions).length ↔ InOrder start sessions := by
  induction sessions generalizing start with
  | nil => simp [InOrder]
  | cons s rest ih =>
    rw [positions_cons, length_append, length_range, ← range'_append_1, InOrder, ← ih, ← range'_eq_range'_iff]
    constructor
    · intro h
      exact append_inj h (by simp)
    · rintro ⟨hs, hrest⟩
      rw [← hrest, range, hs]

/-- The part of a list that a session brings. -/
def slice {I : Type} (items : List I) (s : Session) : List I := (items.drop s.first).take s.count

theorem length_slice {I : Type} {items : List I} (h : s.first + s.count ≤ items.length) :
    (s.slice items).length = s.count := by
  rw [slice, length_take, length_drop]
  omega

theorem slice_eq_iff {I : Type} {items : List I} (hnodup : items.Nodup) (hs : s.first + s.count ≤ items.length)
    (hstart : start + s.count ≤ items.length) :
    s.slice items = (items.drop start).take s.count ↔ s.count = 0 ∨ s.first = start := by
  constructor
  · intro h
    by_cases hcount : s.count = 0
    · exact .inl hcount
    · right
      have hhead := congrArg (·[0]?) h
      simp only [slice, getElem?_take_of_lt (Nat.pos_of_ne_zero hcount), getElem?_drop, Nat.add_zero] at hhead
      have hlt : s.first < items.length := by omega
      exact (getElem?_inj hlt hnodup).mp hhead
  · rintro (hcount | rfl)
    · rw [slice, hcount, take_zero, take_zero]
    · rfl

theorem flatMap_slice_iff {I : Type} {items : List I} (hnodup : items.Nodup)
    (hbound : ∀ s ∈ sessions, s.first + s.count ≤ items.length) :
    sessions.flatMap (slice items) = (items.drop start).take (sessions.flatMap (slice items)).length ↔
      InOrder start sessions := by
  induction sessions generalizing start with
  | nil => simp [InOrder]
  | cons s rest ih =>
    obtain ⟨hs, hrest⟩ := forall_mem_cons.mp hbound
    rw [flatMap_cons, length_append, length_slice hs, take_add, drop_drop, InOrder, ← ih hrest]
    constructor
    · intro h
      have hlength := congrArg List.length h
      simp only [length_append, length_slice hs, length_take, length_drop] at hlength
      by_cases hcount : s.count = 0
      · rw [slice, hcount, take_zero, take_zero, nil_append, nil_append] at h
        exact ⟨.inl hcount, by rw [hcount]; exact h⟩
      · have hstart : start + s.count ≤ items.length := by omega
        obtain ⟨hslice, hothers⟩ := append_inj h (by
          rw [length_slice hs, length_take, length_drop]
          omega)
        exact ⟨(slice_eq_iff hnodup hs hstart).mp hslice, hothers⟩
    · rintro ⟨hcount | rfl, hothers⟩
      · rw [slice, hcount, take_zero, take_zero, nil_append, nil_append]
        rw [hcount] at hothers
        exact hothers
      · rw [← hothers]
        rfl

section

variable (h : ∀ s ∈ sessions, s.first = start)
include h

theorem le_of_mem_positions {n} (hn : n ∈ positions sessions) : start ≤ n := by
  obtain ⟨s, hs, hn⟩ := mem_flatMap.mp hn
  rw [← h s hs]
  exact (mem_range'_1.mp hn).1

theorem head?_positions (hne : positions sessions ≠ []) : (positions sessions).head? = some start := by
  induction sessions with
  | nil => exact absurd rfl hne
  | cons s rest ih =>
    obtain ⟨hs, hrest⟩ := forall_mem_cons.mp h
    by_cases hcount : s.count = 0
    · have hpos : positions (s :: rest) = positions rest := by simp [range, hcount]
      rw [hpos] at hne ⊢
      exact ih hrest hne
    · obtain ⟨n, hn⟩ := Nat.exists_eq_succ_of_ne_zero hcount
      simp [range, hn, hs, range'_succ]

theorem pairwise_lt_take_iff {k} (hk : k ≤ (positions sessions).length) :
    ((positions sessions).take k).Pairwise (· < ·) ↔ FromOne sessions k := by
  induction sessions with
  | nil =>
    obtain rfl : k = 0 := Nat.le_zero.mp hk
    simp [FromOne]
  | cons s rest ih =>
    obtain ⟨hs, hrest⟩ := forall_mem_cons.mp h
    by_cases hcount : s.count = 0
    · have hpos : positions (s :: rest) = positions rest := by simp [range, hcount]
      rw [hpos] at hk ⊢
      rw [FromOne, if_pos hcount, ih hrest hk]
    · rw [FromOne, if_neg hcount, positions_cons, take_append, length_range, pairwise_append]
      constructor
      · rintro ⟨-, -, hlt⟩
        by_contra hgt
        -- the start was received before, and the next session that gave anything began with it again
        have hne : positions rest ≠ [] := by
          rw [positions_cons, length_append, length_range] at hk
          exact ne_nil_of_length_pos (by omega)
        have hagain : start ∈ (positions rest).take (k - s.count) := by
          obtain ⟨n, hn⟩ : ∃ n, k - s.count = n + 1 := Nat.exists_eq_succ_of_ne_zero (by omega)
          rw [eq_cons_of_mem_head? (head?_positions hrest hne), hn]
          exact mem_cons_self
        have hbefore : start ∈ s.range.take k := by
          rw [take_of_length_le (by rw [length_range]; omega)]
          exact mem_range'_1.mpr (by omega)
        exact absurd (hlt start hbefore start hagain) (lt_irrefl start)
      · intro hle
        rw [Nat.sub_eq_zero_of_le hle, take_zero]
        exact ⟨Pairwise.sublist (take_sublist _ _) pairwise_lt_range', .nil, by simp⟩

end

end Session

structure Puller (I : Type) where
  past : List Session
  stream : Option Session
  /-- The items of the last entry that are not in the channel yet. -/
  handing : List I
  chan : List I
  emitted : List I

namespace Puller

variable {U I : Type} {handle : U → List I} {cap seek : Nat} {log : List U} {p p' : Puller I}

/-- A client that has not connected yet. -/
def idle : Puller I := ⟨[], none, [], [], []⟩

def sessions (p : Puller I) : List Session := p.past ++ p.stream.toList

/-- The positions of all entries received. -/
def positions (p : Puller I) : List Nat := Session.positions p.sessions

/-- What the handler makes of the entries at some positions. -/
def items (handle : U → List I) (log : List U) (positions : List Nat) : List I :=
  positions.flatMap fun n => (log[n]?.map handle).getD []

/-- One step of the client, with the server's log and the position that it would ask for now. It notices a failed
stream only when it has put all items of the last entry into the channel. -/
inductive Step (handle : U → List I) (cap : Nat) (log : List U) (seek : Nat) (p : Puller I) : Puller I → Prop
  | connect (hstream : p.stream = none) : Step handle cap log seek p { p with stream := some ⟨seek, 0⟩ }
  | receive {s entry} (hstream : p.stream = some s) (hidle : p.handing = [])
      (hentry : log[s.first + s.count]? = some entry) :
      Step handle cap log seek p
        { p with stream := some { s with count := s.count + 1 }, handing := handle entry }
  | fail {s} (hstream : p.stream = some s) (hidle : p.handing = []) :
      Step handle cap log seek p { p with past := p.past ++ [s], stream := none }
  | hand {item rest} (hhanding : p.handing = item :: rest) (hroom : p.chan.length < cap) : Step handle cap log seek p
        { p with handing := rest, chan := p.chan ++ [item], emitted := p.emitted ++ [item] }

/-- What went into the channel, and what is about to, is what the entries received are made of. -/
structure Faithful (handle : U → List I) (log : List U) (p : Puller I) : Prop where
  emitted : p.emitted ++ p.handing = items handle log p.positions
  bound : ∀ n ∈ p.positions, n < log.length

theorem faithful_idle : (idle : Puller I).Faithful handle log where
  emitted := rfl
  bound := by simp [idle, positions, sessions]

theorem items_append (l m : List Nat) : items handle log (l ++ m) = items handle log l ++ items handle log m :=
  flatMap_append

theorem positions_receive {s} (hstream : p.stream = some s) (handing : List I) :
    ({ p with stream := some { s with count := s.count + 1 }, handing } : Puller I).positions =
      p.positions ++ [s.first + s.count] := by
  simp [positions, sessions, hstream, Session.range, range'_1_concat]

theorem positions_connect (hstream : p.stream = none) (seek : Nat) :
    ({ p with stream := some ⟨seek, 0⟩ } : Puller I).positions = p.positions := by
  simp [positions, sessions, hstream, Session.range]

theorem positions_fail {s} (hstream : p.stream = some s) :
    ({ p with past := p.past ++ [s], stream := none } : Puller I).positions = p.positions := by
  simp [positions, sessions, hstream]

theorem Step.faithful (h : Step handle cap log seek p p') (hp : p.Faithful handle log) : p'.Faithful handle log := by
  cases h with
  | connect hstream =>
    have hpos := positions_connect hstream seek
    exact ⟨hpos ▸ hp.emitted, hpos ▸ hp.bound⟩
  | @receive _ entry hstream hidle hentry =>
    have hpos := positions_receive hstream (handle entry)
    refine ⟨?_, ?_⟩
    · have hemitted := hp.emitted
      rw [hidle, append_nil] at hemitted
      rw [hpos, items_append, ← hemitted]
      simp [items, hentry]
    · rw [hpos]
      intro n hn
      rcases mem_append.mp hn with hn | hn
      · exact hp.bound n hn
      · obtain rfl := mem_singleton.mp hn
        exact (List.getElem?_eq_some_iff.mp hentry).1
  | fail hstream =>
    have hpos := positions_fail hstream
    exact ⟨hpos ▸ hp.emitted, hpos ▸ hp.bound⟩
  | hand hhanding =>
    refine ⟨?_, hp.bound⟩
    have hemitted := hp.emitted
    rw [hhanding] at hemitted
    rw [append_assoc]
    exact hemitted

theorem Step.emitted (h : Step handle cap log seek p p') :
    ∃ items, p'.emitted = p.emitted ++ items ∧ p'.chan = p.chan ++ items := by
  cases h with
  | connect | receive | fail => exact ⟨[], by simp⟩
  | @hand item => exact ⟨[item], rfl, rfl⟩

theorem Step.first_eq (h : Step handle cap log seek p p') (hp : ∀ s ∈ p.sessions, s.first = seek) :
    ∀ s ∈ p'.sessions, s.first = seek := by
  cases h with
  | connect hstream | receive hstream | fail hstream => simpa [sessions, hstream, or_imp, forall_and] using hp
  | hand => exact hp

/-- Without a handler, the entries that know their position tell the positions received. -/
theorem Faithful.map_eq_positions {p : Puller U} {log} (hp : p.Faithful (fun entry => [entry]) log)
    {position} (h : ∀ n entry, log[n]? = some entry → position entry = n) :
    (p.emitted ++ p.handing).map position = p.positions := by
  rw [hp.emitted, items, map_flatMap]
  calc p.positions.flatMap (fun n => ((log[n]?.map fun entry => [entry]).getD []).map position)
      = p.positions.flatMap (fun n => [n]) := by
        refine flatMap_congr fun n hn => ?_
        have hentry := getElem?_eq_getElem (hp.bound n hn)
        simp [hentry, h n _ hentry]
    _ = p.positions := flatMap_singleton' _

theorem Faithful.map_taken {p : Puller U} {log taken} (hp : p.Faithful (fun entry => [entry]) log)
    {position} (h : ∀ n entry, log[n]? = some entry → position entry = n)
    (hemitted : p.emitted = taken ++ p.chan) : taken.map position = p.positions.take taken.length := by
  rw [← hp.map_eq_positions h, hemitted, append_assoc, map_append, take_left' (length_map _)]

/-- **The entries taken increase as long as they come over one stream**, for a client that always asks for the same
position. -/
theorem Faithful.increasing_iff {p : Puller U} {log taken : List U} (hp : p.Faithful (fun entry => [entry]) log)
    {position : U → Nat} (h : ∀ n entry, log[n]? = some entry → position entry = n)
    (hemitted : p.emitted = taken ++ p.chan) (hfirst : ∀ s ∈ p.sessions, s.first = seek) :
    (taken.map position).Pairwise (· < ·) ↔ Session.FromOne p.sessions taken.length := by
  have hmap := hp.map_taken h hemitted
  rw [hmap]
  refine Session.pairwise_lt_take_iff hfirst (?_ : _ ≤ p.positions.length)
  have hlength := congrArg List.length hmap
  rw [length_map, length_take] at hlength
  omega

theorem Faithful.exists_getElem? {p : Puller U} {log} (hp : p.Faithful (fun entry => [entry]) log)
    {entry} (h : entry ∈ p.emitted ++ p.handing) : ∃ n : Nat, log[n]? = some entry := by
  rw [hp.emitted, items] at h
  obtain ⟨n, -, hn⟩ := mem_flatMap.mp h
  cases hentry : log[n]? with
  | none => simp [hentry] at hn
  | some entry' =>
    obtain rfl : entry = entry' := by simpa [hentry] using hn
    exact ⟨n, hentry⟩

theorem Faithful.grow (hp : p.Faithful handle log) (more : List U) : p.Faithful handle (log ++ more) := by
  refine ⟨?_, fun n hn => ?_⟩
  · rw [hp.emitted]
    refine flatMap_congr fun n hn => ?_
    rw [getElem?_append_left (hp.bound n hn)]
  · rw [length_append]
    exact Nat.lt_add_right _ (hp.bound n hn)

/-! ### Entries of several items -/

/-- The number of items of the first `n` entries. -/
def offset (handle : U → List I) (log : List U) (n : Nat) : Nat := ((log.take n).flatMap handle).length

/-- A session as it is seen by those who take the items. -/
def itemwise (handle : U → List I) (log : List U) (s : Session) : Session :=
  ⟨offset handle log s.first, offset handle log (s.first + s.count) - offset handle log s.first⟩

theorem items_range' (log : List U) (a n : Nat) :
    items handle log (range' a n) = ((log.drop a).take n).flatMap handle := by
  induction n generalizing a with
  | zero => simp [items]
  | succ n ih =>
    have hrest := ih (a + 1)
    rw [items] at hrest
    rw [range'_succ, items, flatMap_cons, hrest]
    by_cases ha : a < log.length
    · rw [drop_eq_getElem_cons ha, take_succ_cons, flatMap_cons, getElem?_eq_getElem ha]
      rfl
    · rw [getElem?_eq_none (Nat.le_of_not_lt ha), drop_eq_nil_of_le (Nat.le_of_not_lt ha),
        drop_eq_nil_of_le (by omega)]
      simp

theorem offset_succ {n entry} (h : log[n]? = some entry) :
    offset handle log (n + 1) = offset handle log n + (handle entry).length := by
  rw [offset, offset, take_add_one, h]
  simp

theorem exists_offset {k item} (h : (log.flatMap handle)[k]? = some item) :
    ∃ n entry i, log[n]? = some entry ∧ (handle entry)[i]? = some item ∧ k = offset handle log n + i := by
  induction log using List.reverseRecOn generalizing k with
  | nil => simp at h
  | append_singleton log entry ih =>
    rw [flatMap_append, flatMap_singleton] at h
    by_cases hk : k < (log.flatMap handle).length
    · rw [getElem?_append_left hk] at h
      obtain ⟨n, entry', i, hn, hi, rfl⟩ := ih h
      have hlt := (List.getElem?_eq_some_iff.mp hn).1
      refine ⟨n, entry', i, by rw [getElem?_append_left hlt, hn], hi, ?_⟩
      rw [offset, offset, take_append_of_le_length hlt.le]
    · rw [getElem?_append_right (Nat.le_of_not_lt hk)] at h
      refine ⟨log.length, entry, _, getElem?_concat_length, h, ?_⟩
      rw [offset, take_left]
      omega

theorem items_range (s : Session) : items handle log s.range = (itemwise handle log s).slice (log.flatMap handle) ∧
      (itemwise handle log s).first + (itemwise handle log s).count ≤ (log.flatMap handle).length := by
  have hsplit : log.flatMap handle = (log.take s.first).flatMap handle ++
      (((log.drop s.first).take s.count).flatMap handle ++ (log.drop (s.first + s.count)).flatMap handle) := by
    rw [← flatMap_append, ← flatMap_append, ← drop_drop, take_append_drop, take_append_drop]
  have hoffset : offset handle log (s.first + s.count) = offset handle log s.first +
      (((log.drop s.first).take s.count).flatMap handle).length := by
    rw [offset, offset, take_add, flatMap_append, length_append]
  rw [Session.range, items_range', Session.slice, itemwise, hoffset, hsplit, offset]
  simp only [Nat.add_sub_cancel_left, drop_left, take_left, length_append]
  exact ⟨trivial, by omega⟩

/-- **When the items come in order**, if no two of all items are the same: every session that gave items was opened
at an entry whose items begin where the session before ended. -/
theorem Faithful.items_iff (hp : p.Faithful handle log) (hnodup : (log.flatMap handle).Nodup) {start : Nat} :
    p.emitted ++ p.handing = ((log.flatMap handle).drop start).take (p.emitted ++ p.handing).length ↔
      Session.InOrder start (p.sessions.map (itemwise handle log)) := by
  have hitems : p.emitted ++ p.handing =
      (p.sessions.map (itemwise handle log)).flatMap (Session.slice (log.flatMap handle)) := by
    rw [hp.emitted, positions, Session.positions, items, flatMap_assoc, flatMap_map]
    exact flatMap_congr fun s _ => (items_range s).1
  rw [hitems]
  refine Session.flatMap_slice_iff hnodup fun s hs => ?_
  obtain ⟨s, -, rfl⟩ := mem_map.mp hs
  exact (items_range s).2

end Puller

end Arma.Lib
