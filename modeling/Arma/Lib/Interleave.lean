import Mathlib.Algebra.BigOperators.Group.List.Basic
import Mathlib.Algebra.GroupWithZero.Nat

/-!
# Threads over a shared state

A pool is a shared state and the threads that run. `act s t s' ts` says what a thread `t` does to the shared state in
one atomic action, and which threads stand for it afterwards: itself further on, none if it has returned, more if it
has started some. Any thread may act next.

A run may be restricted by a condition on the state before each action and the thread that acts (`RunWhen`).

* `RunWhen.invariant`: what every action keeps holds after every run.
* `Step.holds`: an invariant of the shared state and one of every thread against it. The acting thread has to keep the
  first, to establish the second for the threads it leaves, and to keep it for all others.
* `Step.total_le`: a quantity that is spread over the shared state and the threads and that no action increases.
  `count_flatMap_set` is for one that is spread over a list.
-/

namespace Arma.Lib

open List

/-- A shared state and the threads that run. -/
structure ThreadPool (S T : Type) where
  shared : S
  threads : List T

namespace ThreadPool

variable {S T : Type} {act : S → T → S → List T → Prop} {C : ThreadPool S T → T → Prop} {p p' : ThreadPool S T} {t : T}

/-- One of the threads acts. -/
inductive Step (act : S → T → S → List T → Prop) : ThreadPool S T → T → ThreadPool S T → Prop
  | act {s s' t ts before after} (hact : act s t s' ts) :
      Step act ⟨s, before ++ t :: after⟩ t ⟨s', before ++ ts ++ after⟩

/-- The runs in which `C` holds before every action of the thread that acts. -/
def RunWhen (act : S → T → S → List T → Prop) (C : ThreadPool S T → T → Prop) :
    ThreadPool S T → ThreadPool S T → Prop :=
  Relation.ReflTransGen fun p p' => ∃ t, C p t ∧ Step act p t p'

def Run (act : S → T → S → List T → Prop) : ThreadPool S T → ThreadPool S T → Prop := RunWhen act fun _ _ => True

theorem RunWhen.refl : RunWhen act C p p := Relation.ReflTransGen.refl

theorem RunWhen.next (i : Nat) {s' ts} (h : RunWhen act C p p') (ht : p'.threads[i]? = some t)
    (hC : C p' t) (hact : act p'.shared t s' ts) :
    RunWhen act C p ⟨s', p'.threads.take i ++ ts ++ p'.threads.drop (i + 1)⟩ := by
  obtain ⟨s, threads⟩ := p'
  have hsplit : threads.take i ++ t :: threads.drop (i + 1) = threads := by
    obtain ⟨hi, rfl⟩ := List.getElem?_eq_some_iff.mp ht
    exact (congrArg (threads.take i ++ ·) (drop_eq_getElem_cons hi).symm).trans (take_append_drop i threads)
  have hstep : Step act ⟨s, threads.take i ++ t :: threads.drop (i + 1)⟩ t _ := .act hact
  rw [hsplit] at hstep
  exact Relation.ReflTransGen.tail h ⟨t, hC, hstep⟩

theorem Run.next (i : Nat) {s' ts} (h : Run act p p') (ht : p'.threads[i]? = some t)
    (hact : act p'.shared t s' ts) : Run act p ⟨s', p'.threads.take i ++ ts ++ p'.threads.drop (i + 1)⟩ :=
  RunWhen.next i h ht trivial hact

theorem RunWhen.invariant {I : ThreadPool S T → Prop} (hstep : ∀ {p p' t}, I p → C p t → Step act p t p' → I p')
    (h : I p) (hrun : RunWhen act C p p') : I p' := by
  induction hrun with
  | refl => exact h
  | tail _ hlast ih =>
    obtain ⟨t, hC, hact⟩ := hlast
    exact hstep ih hC hact

/-- A property of the shared state, and one of every thread against it. -/
structure Holds (I : S → Prop) (J : S → T → Prop) (p : ThreadPool S T) : Prop where
  shared : I p.shared
  threads : ∀ t ∈ p.threads, J p.shared t

theorem Step.holds {I J} (h : p.Holds I J) (hstep : Step act p t p')
    (hact : ∀ {s' ts}, I p.shared → J p.shared t → act p.shared t s' ts →
      I s' ∧ (∀ u ∈ ts, J s' u) ∧ ∀ u ∈ p.threads, J p.shared u → J s' u) : p'.Holds I J := by
  obtain @⟨s, s', t, ts, before, after, haction⟩ := hstep
  obtain ⟨hI, hnew, hold⟩ := hact h.shared (h.threads t (by simp)) haction
  refine ⟨hI, fun u hu => ?_⟩
  simp only [mem_append] at hu
  rcases hu with (hu | hu) | hu
  · have hmem : u ∈ before ++ t :: after := by simp [hu]
    exact hold u hmem (h.threads u hmem)
  · exact hnew u hu
  · have hmem : u ∈ before ++ t :: after := by simp [hu]
    exact hold u hmem (h.threads u hmem)

/-- What is in the shared state and with the threads. -/
def total (f : S → Nat) (g : T → Nat) (p : ThreadPool S T) : Nat := f p.shared + (p.threads.map g).sum

/-- **The rule for such a quantity**, which may grow by as much as `bound` grows. -/
theorem Step.total_le {f bound : S → Nat} {g} (hstep : Step act p t p')
    (hact : ∀ {s' ts}, act p.shared t s' ts → f s' + (ts.map g).sum + bound p.shared ≤ f p.shared + g t + bound s')
    (h : p.total f g ≤ bound p.shared) : p'.total f g ≤ bound p'.shared := by
  obtain @⟨s, s', t, ts, before, after, haction⟩ := hstep
  have hle := hact haction
  simp only [total, map_append, map_cons, sum_append, sum_cons] at h hle ⊢
  omega

end ThreadPool

theorem forall_mem_replace {α : Type} {p : α → Prop} {before after a a'}
    (h : ∀ x ∈ before ++ a :: after, p x) (ha : p a → p a') : ∀ x ∈ before ++ a' :: after, p x := by
  rw [forall_mem_append, forall_mem_cons] at h ⊢
  exact ⟨h.1, ha h.2.1, h.2.2⟩

theorem forall_mem_remove {α : Type} {p : α → Prop} {before after a}
    (h : ∀ x ∈ before ++ a :: after, p x) : ∀ x ∈ before ++ after, p x := by
  rw [forall_mem_append, forall_mem_cons] at h
  exact forall_mem_append.mpr ⟨h.1, h.2.2⟩

theorem getElem?_concat_eq_some {α : Type} {l : List α} {a b i} :
    (l ++ [a])[i]? = some b ↔ l[i]? = some b ∨ i = l.length ∧ a = b := by
  rw [getElem?_append]
  split
  · rename_i hlt
    exact ⟨.inl, fun h => h.resolve_right fun hnew => absurd hnew.1 (Nat.ne_of_lt hlt)⟩
  · rename_i hle
    rw [getElem?_eq_none (Nat.le_of_not_lt hle), getElem?_singleton]
    grind

/-- What is counted over the entries of a list, when one entry is replaced. -/
theorem count_flatMap_set {α β : Type} [DecidableEq β] {l : List α} {i a b f} (h : l[i]? = some a) (x : β) :
    ((l.set i b).flatMap f).count x + (f a).count x = (l.flatMap f).count x + (f b).count x := by
  induction l generalizing i with
  | nil => simp at h
  | cons c l ih =>
    cases i with
    | zero =>
      cases h
      simp only [set_cons_zero, flatMap_cons, count_append]
      omega
    | succ i =>
      have hrest := ih h
      simp only [set_cons_succ, flatMap_cons, count_append]
      omega

end Arma.Lib
