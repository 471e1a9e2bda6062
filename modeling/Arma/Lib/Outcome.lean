import Mathlib.Data.List.Forall2

/-!
# Outcomes of a call: a value, a returned error, a panic

A Go function gives back a value, gives back an error, or panics. `Outcome` keeps the three apart:
it is `Except Fault`, and a `Fault` says whether the error was returned or thrown. The monad's bind
is then the usual `if err != nil { return err }`, with a panic unwinding in the same way.

* `wrap` prefixes a returned error, as `errors.Wrap` does; `orPanic` turns one into a panic.
* `index` and `deref` are the two partial primitives of the language: slice indexing and following
  a pointer; `nonNil` is following one after a check.
* `NoPanic` and its rules (`noPanic_bind_iff`, `noPanic_forEach_iff`) say exactly when a
  computation, or a loop that stops at its first fault, cannot panic.
-/

namespace Arma.Lib

theorem forall_getElem?_cons {α : Type} {a : α} {l : List α} {p : Nat → α → Prop} :
    (∀ k b, (a :: l)[k]? = some b → p k b) ↔ p 0 a ∧ ∀ k b, l[k]? = some b → p (k + 1) b := by
  constructor
  · intro h
    exact ⟨h 0 a rfl, fun k b hk => h (k + 1) b (by simpa using hk)⟩
  · rintro ⟨h0, h⟩ k b hk
    cases k with
    | zero =>
      obtain rfl : a = b := by simpa using hk
      exact h0
    | succ k => exact h k b (by simpa using hk)

theorem forall_lt_getElem?_cons {α : Type} {a : α} {l : List α} {k : Nat} {p : Nat → α → Prop} :
    (∀ j b, j < k + 1 → (a :: l)[j]? = some b → p j b) ↔ p 0 a ∧ ∀ j b, j < k → l[j]? = some b → p (j + 1) b := by
  constructor
  · intro h
    exact ⟨h 0 a (by omega) rfl, fun j b hj hb => h (j + 1) b (by omega) (by simpa using hb)⟩
  · rintro ⟨h0, h⟩ j b hj hb
    cases j with
    | zero =>
      obtain rfl : a = b := by simpa using hb
      exact h0
    | succ j => exact h j b (by omega) (by simpa using hb)

theorem lt_of_getElem? {α : Type} {l : List α} {k : Nat} {a} (h : l[k]? = some a) : k < l.length :=
  (List.getElem?_eq_some_iff.mp h).1

theorem getElem?_set_of_some {α : Type} {l : List α} {k : Nat} {a b} (h : l[k]? = some a) : (l.set k b)[k]? = some b :=
  List.getElem?_set_self (lt_of_getElem? h)

/-- Two lists are related element by element iff they are of one length and related at every index. -/
theorem forall₂_iff_getElem? {α β : Type} {R : α → β → Prop} {l m} : List.Forall₂ R l m ↔ l.length = m.length ∧
      ∀ (k : Nat) a b, l[k]? = some a → m[k]? = some b → R a b := by
  rw [List.forall₂_iff_get]
  refine and_congr_right fun hlen => ⟨fun h k a b ha hb => ?_, fun h k hk hk' => ?_⟩
  · obtain ⟨hk, rfl⟩ := List.getElem?_eq_some_iff.mp ha
    obtain ⟨hk', rfl⟩ := List.getElem?_eq_some_iff.mp hb
    exact h k hk hk'
  · exact h k _ _ (List.getElem?_eq_getElem hk) (List.getElem?_eq_getElem hk')

theorem forall_getElem?_append {α : Type} {l m : List α} {p : Nat → α → Prop} : (∀ k b, (l ++ m)[k]? = some b → p k b) ↔
      (∀ k b, l[k]? = some b → p k b) ∧ ∀ k b, m[k]? = some b → p (l.length + k) b := by
  induction l generalizing p with
  | nil => simp
  | cons a l ih =>
    rw [List.cons_append, forall_getElem?_cons, forall_getElem?_cons, ih, and_assoc]
    simp only [List.length_cons, Nat.add_right_comm]

/-- Why a call did not give back a value. -/
inductive Fault where
  | err (msg : String)
  /-- A panic, raised by the code or by the runtime. -/
  | panic (msg : String)
  deriving DecidableEq, Repr

/-- The result of a call. -/
abbrev Outcome (α : Type) := Except Fault α

namespace Outcome

variable {α β : Type}

/-- `return nil, errors.New(msg)`. -/
abbrev fail (msg : String) : Outcome α := .error (.err msg)

/-- `panic(msg)`. -/
abbrev throwPanic (msg : String) : Outcome α := .error (.panic msg)

/-- `errors.Wrap(err, msg)`: a returned error gets the text in front, a panic passes through. -/
def wrap (msg : String) : Outcome α → Outcome α
  | .error (.err e) => .error (.err (msg ++ ": " ++ e))
  | x => x

/-- `if err != nil { panic(f(err)) }`. -/
def orPanic (f : String → String) : Outcome α → Outcome α
  | .error (.err e) => .error (.panic (f e))
  | x => x

/-- A library call that gives back a value or an error text. -/
def ofExcept : Except String α → Outcome α
  | .ok a => .ok a
  | .error e => .error (.err e)

/-- `l[i]`. -/
def index (l : List α) (i : Nat) : Outcome α :=
  match l[i]? with
  | some a => .ok a
  | none => .error (.panic s!"runtime error: index out of range [{i}] with length {l.length}")

/-- Following a pointer. -/
def deref : Option α → Outcome α
  | some a => .ok a
  | none => .error (.panic "runtime error: invalid memory address or nil pointer dereference")

/-- `if p == nil { return errors.New(msg) }`. -/
def nonNil (o : Option α) (msg : String) : Outcome α :=
  match o with
  | some a => .ok a
  | none => .error (.err msg)

/-- `if !cond { return errors.New(msg) }`. -/
def require (cond : Prop) [Decidable cond] (msg : String) : Outcome Unit :=
  if cond then .ok () else .error (.err msg)

/-- `for i, a := range l { if err := f(i, a); err != nil { return err } }`, counting from `i`. -/
def forEach (f : Nat → α → Outcome Unit) : Nat → List α → Outcome Unit
  | _, [] => .ok ()
  | i, a :: l => do
    f i a
    forEach f (i + 1) l

/-- `for i, a := range l { b, err := f(i, a); if err != nil { return err }; out = append(out, b) }`,
counting from `i`. -/
def mapEach (f : Nat → α → Outcome β) : Nat → List α → Outcome (List β)
  | _, [] => .ok []
  | i, a :: l => do
    let b ← f i a
    let bs ← mapEach f (i + 1) l
    return b :: bs

/-! ## When a call gives back a value -/

variable {x : Outcome α} {f : α → Outcome β}

theorem bind_eq_ok {b} : (x >>= f) = .ok b ↔ ∃ a, x = .ok a ∧ f a = .ok b := by
  cases x with
  | error e | ok a => simp [bind, Except.bind]

theorem exists_unit {p : Unit → Prop} : (∃ u, p u) ↔ p () := ⟨fun ⟨_, h⟩ => h, fun h => ⟨(), h⟩⟩

@[simp] theorem pure_eq (a : α) : (pure a : Outcome α) = .ok a := rfl

@[simp] theorem ok_bind (a : α) (f : α → Outcome β) : ((.ok a : Outcome α) >>= f) = f a := rfl

@[simp] theorem error_bind (e : Fault) (f : α → Outcome β) : ((.error e : Outcome α) >>= f) = .error e := rfl

@[simp] theorem wrap_ok (msg : String) (a : α) : wrap msg (.ok a) = .ok a := rfl

@[simp] theorem orPanic_ok (f) (a : α) : orPanic f (.ok a) = .ok a := rfl

@[simp] theorem ofExcept_ok (a : α) : ofExcept (.ok a) = .ok a := rfl

variable {a : α} {msg : String}

@[simp] theorem wrap_eq_ok : wrap msg x = .ok a ↔ x = .ok a := by
  match x with
  | .ok _ => simp
  | .error (.err _) | .error (.panic _) => simp [wrap]

@[simp] theorem orPanic_eq_ok {f} : orPanic f x = .ok a ↔ x = .ok a := by
  match x with
  | .ok _ => simp
  | .error (.err _) | .error (.panic _) => simp [orPanic]

@[simp] theorem ofExcept_eq_ok {x} : ofExcept x = .ok a ↔ x = .ok a := by
  cases x <;> simp [ofExcept]

variable {l : List α} {i : Nat}

@[simp] theorem index_eq_ok : index l i = .ok a ↔ l[i]? = some a := by
  unfold index
  cases l[i]? <;> simp

@[simp] theorem deref_some (a : α) : deref (some a) = .ok a := rfl

variable {o : Option α}

@[simp] theorem deref_eq_ok : deref o = .ok a ↔ o = some a := by
  cases o <;> simp [deref]

@[simp] theorem nonNil_some (a : α) (msg : String) : nonNil (some a) msg = .ok a := rfl

@[simp] theorem nonNil_eq_ok : nonNil o msg = .ok a ↔ o = some a := by
  cases o <;> simp [nonNil]

@[simp] theorem require_eq_ok {cond} [Decidable cond] {u} : require cond msg = .ok u ↔ cond := by
  unfold require
  split <;> simp_all

theorem require_true {cond} [Decidable cond] (msg : String) (h : cond) :
    require cond msg = .ok () := require_eq_ok.mpr h

/-- A loop that stops at its first fault gives back a value iff every round does. -/
theorem forEach_eq_ok {f} : forEach f i l = .ok () ↔ ∀ k a, l[k]? = some a → f (i + k) a = .ok () := by
  induction l generalizing i with
  | nil => simp [forEach]
  | cons a l ih =>
    simp only [forEach, bind_eq_ok, ih, forall_getElem?_cons, Nat.add_zero, Nat.add_assoc, Nat.add_comm 1]
    constructor
    · rintro ⟨_, h0, h⟩
      exact ⟨h0, h⟩
    · rintro ⟨h0, h⟩
      exact ⟨(), h0, h⟩

/-- A loop that does not look at its counter goes through iff it does at every element. -/
theorem forEach_eq_ok_iff_mem {f} : forEach (fun _ => f) i l = .ok () ↔ ∀ a ∈ l, f a = .ok () := by
  rw [forEach_eq_ok]
  constructor
  · intro h a ha
    obtain ⟨k, hk⟩ := List.mem_iff_getElem?.mp ha
    exact h k a hk
  · intro h k a hk
    exact h a (List.mem_of_getElem? hk)

variable {bs : List β}

/-- A loop that does not look at its counter relates its list to its result element by element. -/
theorem mapEach_eq_ok : mapEach (fun _ => f) i l = .ok bs ↔ List.Forall₂ (fun a b => f a = .ok b) l bs := by
  induction l generalizing i bs with
  | nil =>
    rw [List.forall₂_nil_left_iff]
    exact ⟨fun h => (Except.ok.inj h).symm, fun h => by rw [h]; rfl⟩
  | cons a l ih =>
    rw [List.forall₂_cons_left_iff]
    simp only [mapEach, bind_eq_ok, ih]
    constructor
    · rintro ⟨b, hb, bs', hbs', h⟩
      exact ⟨b, bs', hb, hbs', (Except.ok.inj h).symm⟩
    · rintro ⟨b, bs', hb, hbs', rfl⟩
      exact ⟨b, hb, bs', hbs', rfl⟩

theorem exists_mapEach_eq_ok (h : ∀ a ∈ l, ∃ b, f a = .ok b) (i : Nat) : ∃ bs, mapEach (fun _ => f) i l = .ok bs := by
  induction l generalizing i with
  | nil => exact ⟨[], rfl⟩
  | cons a l ih =>
    obtain ⟨b, hb⟩ := h a (by simp)
    obtain ⟨bs, hbs⟩ := ih (fun a' ha' => h a' (by simp [ha'])) (i + 1)
    exact ⟨b :: bs, by rw [mapEach, hb, ok_bind, hbs]; rfl⟩

theorem getElem?_of_mapEach {f} (h : mapEach f i l = .ok bs) {k b} (hb : bs[k]? = some b) :
    ∃ a, l[k]? = some a ∧ f (i + k) a = .ok b := by
  induction l generalizing i bs k with
  | nil =>
    cases h
    simp at hb
  | cons a l ih =>
    simp only [mapEach, bind_eq_ok] at h
    obtain ⟨b', hb', bs', hbs', hret⟩ := h
    cases hret
    cases k with
    | zero =>
      cases hb
      exact ⟨a, rfl, hb'⟩
    | succ k =>
      obtain ⟨a', ha', hf⟩ := ih hbs' hb
      exact ⟨a', ha', by rw [← hf]; congr 1; omega⟩

/-- A loop gives back a list if every round gives back the element of it at its index. -/
theorem mapEach_eq_ok_of_getElem? {f} (hlen : l.length = bs.length)
    (h : ∀ (k : Nat) a b, l[k]? = some a → bs[k]? = some b → f (i + k) a = .ok b) : mapEach f i l = .ok bs := by
  induction l generalizing i bs with
  | nil => rw [List.length_eq_zero_iff.mp hlen.symm]; rfl
  | cons a l ih =>
    cases bs with
    | nil => simp at hlen
    | cons b bs =>
      have hrest : mapEach f (i + 1) l = .ok bs := ih (by simpa using hlen) fun k a' b' ha hb => by
        rw [show i + 1 + k = i + (k + 1) by omega]
        exact h (k + 1) a' b' (by simpa using ha) (by simpa using hb)
      rw [mapEach, show f i a = .ok b from h 0 a b rfl rfl, ok_bind, hrest]
      rfl

theorem length_mapEach {f} (h : mapEach f i l = .ok bs) : bs.length = l.length := by
  induction l generalizing i bs with
  | nil => rw [← Except.ok.inj h]; rfl
  | cons a l ih =>
    simp only [mapEach, bind_eq_ok] at h
    obtain ⟨b, -, bs', hrest, hret⟩ := h
    rw [← Except.ok.inj hret, List.length_cons, List.length_cons, ih hrest]

theorem exists_of_mem_forall₂ {R : α → β → Prop} {l'} (h : List.Forall₂ R l l') (ha : a ∈ l) : ∃ b ∈ l', R a b := by
  induction h with
  | nil => cases ha
  | cons hab _ ih =>
    rcases List.mem_cons.mp ha with rfl | ha
    · exact ⟨_, List.mem_cons_self, hab⟩
    · obtain ⟨b, hb, hR⟩ := ih ha
      exact ⟨b, List.mem_cons_of_mem _ hb, hR⟩

theorem exists_of_mem_mapEach {b : β} (h : mapEach (fun _ => f) i l = .ok bs) (hb : b ∈ bs) : ∃ a ∈ l, f a = .ok b :=
  exists_of_mem_forall₂ (mapEach_eq_ok.mp h).flip hb

theorem mem_mapEach_of_mem (h : mapEach (fun _ => f) i l = .ok bs) (ha : a ∈ l) : ∃ b ∈ bs, f a = .ok b :=
  exists_of_mem_forall₂ (mapEach_eq_ok.mp h) ha

/-- A loop every round of which gives back a value gives back the list of them. -/
theorem mapEach_map_eq {γ : Type} {f : Nat → β → Outcome γ} {g k}
    (h : ∀ i a, f i (g a) = .ok (k a)) (l : List α) (i : Nat) : mapEach f i (l.map g) = .ok (l.map k) := by
  induction l generalizing i with
  | nil => rfl
  | cons a l ih =>
    rw [List.map_cons, mapEach, h, ok_bind, ih]
    rfl

/-- A loop that follows every pointer gives back what they point to iff none is nil. -/
theorem mapEach_nonNil_eq_ok {l : List (Option α)} {as} :
    mapEach (fun _ o => nonNil o msg) i l = .ok as ↔ l = as.map some := by
  rw [mapEach_eq_ok]
  constructor
  · intro h
    induction h with
    | nil => rfl
    | cons hab _ ih => rw [List.map_cons, nonNil_eq_ok.mp hab, ih]
  · rintro rfl
    rw [List.forall₂_map_left_iff]
    exact List.forall₂_same.mpr fun _ _ => nonNil_some _ _

theorem exists_eq_map_some {l : List (Option α)} (h : ∀ o ∈ l, ∃ a, o = some a) : ∃ as : List α, l = as.map some := by
  obtain ⟨as, has⟩ := exists_mapEach_eq_ok (f := fun o => nonNil o "") (l := l)
    (fun o ho => by obtain ⟨a, rfl⟩ := h o ho; exact ⟨a, rfl⟩) 0
  exact ⟨as, mapEach_nonNil_eq_ok.mp has⟩

theorem mapEach_map {f} {g : α → β} (h : ∀ i a, f i (g a) = .ok a)
    (l : List α) (i : Nat) : mapEach f i (l.map g) = .ok l := by
  rw [mapEach_map_eq (k := id) h, List.map_id]

/-! ## When a call cannot panic -/

/-- The call gives back a value or an error. -/
def NoPanic (x : Outcome α) : Prop := ∀ msg, x ≠ .error (.panic msg)

@[simp] theorem noPanic_ok (a : α) : NoPanic (.ok a : Outcome α) := fun _ h => by cases h

@[simp] theorem noPanic_fail (msg : String) : NoPanic (fail msg : Outcome α) := fun _ h => by
  injection h with h; cases h

@[simp] theorem not_noPanic_panic (msg : String) : ¬ NoPanic (throwPanic msg : Outcome α) :=
  fun h => h msg rfl

/-- A sequence cannot panic iff its first call cannot, and neither can the rest once the first has
given back a value. -/
@[simp] theorem noPanic_bind_iff : NoPanic (x >>= f) ↔ NoPanic x ∧ ∀ a, x = .ok a → NoPanic (f a) := by
  match x with
  | .ok a => simp
  | .error (.err e) | .error (.panic e) => simp [NoPanic]

@[simp] theorem noPanic_wrap_iff : NoPanic (wrap msg x) ↔ NoPanic x := by
  match x with
  | .ok _ => simp
  | .error (.err _) => simp [wrap, NoPanic]
  | .error (.panic _) => simp [wrap]

@[simp] theorem noPanic_ofExcept (x : Except String α) : NoPanic (ofExcept x) := by
  cases x <;> simp [ofExcept]

@[simp] theorem noPanic_require (cond : Prop) [Decidable cond] (msg : String) : NoPanic (require cond msg) := by
  unfold require
  split <;> simp

@[simp] theorem noPanic_nonNil (o : Option α) (msg : String) : NoPanic (nonNil o msg) := by
  cases o <;> simp [nonNil]

@[simp] theorem noPanic_index_iff : NoPanic (index l i) ↔ i < l.length := by
  unfold index
  cases h : l[i]? with
  | some a =>
    obtain ⟨hi, -⟩ := List.getElem?_eq_some_iff.mp h
    simpa using hi
  | none => simpa [NoPanic] using h

@[simp] theorem noPanic_deref_iff : NoPanic (deref o) ↔ ∃ a, o = some a := by
  cases o <;> simp [deref, NoPanic]

/-- **A loop cannot panic** iff no round panics that is reached, every earlier round having gone
through. -/
theorem noPanic_forEach_iff {f} : NoPanic (forEach f i l) ↔
      ∀ k a, l[k]? = some a → (∀ j b, j < k → l[j]? = some b → f (i + j) b = .ok ()) → NoPanic (f (i + k) a) := by
  induction l generalizing i with
  | nil => simp [forEach]
  | cons a l ih =>
    have hshift : ∀ n, i + 1 + n = i + (n + 1) := fun n => by omega
    rw [forall_getElem?_cons]
    simp only [forEach, noPanic_bind_iff, ih, forall_lt_getElem?_cons, hshift, Nat.add_zero,
      Nat.not_lt_zero, false_implies, implies_true, true_implies, and_imp]
    exact and_congr_right fun _ => ⟨fun h k b hk h0 => h () h0 k b hk, fun h _ h0 k b hk => h k b hk h0⟩

@[simp] theorem noPanic_forEach {f} (h : ∀ a ∈ l, NoPanic (f a)) (i : Nat) : NoPanic (forEach (fun _ => f) i l) :=
  noPanic_forEach_iff.mpr fun _ a hk _ => h a (List.mem_of_getElem? hk)

theorem noPanic_mapEach_iff {f : Nat → α → Outcome β} : NoPanic (mapEach f i l) ↔
      ∀ k a, l[k]? = some a → (∀ j b, j < k → l[j]? = some b → ∃ c, f (i + j) b = .ok c) → NoPanic (f (i + k) a) := by
  induction l generalizing i with
  | nil => simp [mapEach]
  | cons a l ih =>
    have hshift : ∀ n, i + 1 + n = i + (n + 1) := fun n => by omega
    rw [forall_getElem?_cons]
    simp only [mapEach, noPanic_bind_iff, ih, forall_lt_getElem?_cons, hshift, Nat.add_zero, Nat.not_lt_zero,
      false_implies, implies_true, true_implies, and_imp, pure_eq, noPanic_ok, and_true]
    exact and_congr_right fun _ => ⟨fun h k b hk ⟨c, h0⟩ => h c h0 k b hk, fun h c h0 k b hk => h k b hk ⟨c, h0⟩⟩

@[simp] theorem noPanic_mapEach {f : Nat → α → Outcome β} (h : ∀ i a, NoPanic (f i a)) (l : List α)
    (i : Nat) : NoPanic (mapEach f i l) := noPanic_mapEach_iff.mpr fun _ a _ _ => h _ a

@[simp] theorem noPanic_foldlM {f} (h : ∀ b a, NoPanic (f b a)) (l : List α) (b : β) : NoPanic (l.foldlM f b) := by
  induction l generalizing b with
  | nil => exact noPanic_ok b
  | cons a l ih =>
    rw [List.foldlM_cons, noPanic_bind_iff]
    exact ⟨h b a, fun b' _ => ih b'⟩

end Outcome

end Arma.Lib
