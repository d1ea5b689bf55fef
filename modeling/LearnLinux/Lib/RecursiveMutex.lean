import Mathlib.Algebra.Order.Ring.Nat
import Mathlib.Logic.Function.Basic

/-!
A recursive mutex, for any type of threads: it knows its owner and how often the owner has
locked it. `Guards` says that it is locked once, by the one thread that is inside a section,
and is kept when a thread enters through `lock` and leaves through `unlock`.
-/

namespace LearnLinux.RecursiveMutex

/-- The owner, and how many of its locks are not undone. -/
structure Mutex (ι : Type*) where
  owner : Option ι
  depth : Nat
  deriving DecidableEq, Repr

variable {ι : Type*}

def Mutex.unlocked : Mutex ι := ⟨none, 0⟩

/-- The mutex after a lock by `t`, or `none` while `t` has to wait. The owner locks it once
more, up to the largest depth a 32-bit counter has, where the call returns an error. -/
def Mutex.lock [DecidableEq ι] (m : Mutex ι) (t : ι) : Option (Mutex ι) :=
  match m.owner with
  | none => some ⟨some t, 1⟩
  | some u =>
    if u = t then some (if m.depth + 1 < 2 ^ 32 then ⟨some t, m.depth + 1⟩ else m) else none

/-- The mutex after an unlock by `t`, which is an error unless `t` is the owner. -/
def Mutex.unlock [DecidableEq ι] (m : Mutex ι) (t : ι) : Mutex ι :=
  if m.owner = some t then
    if m.depth = 1 then .unlocked else ⟨some t, m.depth - 1⟩
  else m

/-- The threads inside are the owner, at depth 1, or nobody. -/
def Mutex.Guards (m : Mutex ι) (inside : ι → Bool) : Prop :=
  (m = .unlocked ∧ ∀ t, inside t = false) ∨
    ∃ t, m = ⟨some t, 1⟩ ∧ ∀ u, inside u = true ↔ u = t

variable {m m' : Mutex ι} {inside : ι → Bool} {t u : ι}

theorem Mutex.Guards.exclusive (h : m.Guards inside) (ht : inside t = true)
    (hu : inside u = true) : t = u := by
  rcases h with ⟨-, hnone⟩ | ⟨v, -, hv⟩
  · rw [hnone t] at ht
    cases ht
  · rw [(hv t).mp ht, (hv u).mp hu]

theorem Mutex.Guards.eq_unlocked (h : m.Guards inside) (hnone : ∀ t, inside t = false) :
    m = .unlocked := by
  rcases h with ⟨hm, -⟩ | ⟨v, -, hv⟩
  · exact hm
  · have hin := (hv v).mpr rfl
    rw [hnone v] at hin
    cases hin

variable [DecidableEq ι]

/-- A thread from outside that gets the lock is the only one inside. -/
theorem Mutex.Guards.lock (h : m.Guards inside) (ht : inside t = false)
    (hl : m.lock t = some m') : m'.Guards (Function.update inside t true) := by
  rcases h with ⟨rfl, hnone⟩ | ⟨v, rfl, hv⟩
  · cases hl
    refine Or.inr ⟨t, rfl, fun u => ?_⟩
    by_cases hu : u = t
    · simp [hu]
    · simp [hu, hnone u]
  · have hne : v ≠ t := by
      rintro rfl
      rw [(hv v).mpr rfl] at ht
      cases ht
    simp [Mutex.lock, hne] at hl

/-- The thread inside leaves the mutex unlocked. -/
theorem Mutex.Guards.unlock (h : m.Guards inside) (ht : inside t = true) :
    (m.unlock t).Guards (Function.update inside t false) := by
  rcases h with ⟨-, hnone⟩ | ⟨v, rfl, hv⟩
  · rw [hnone t] at ht
    cases ht
  · cases (hv t).mp ht
    refine Or.inl ⟨by simp [Mutex.unlock], fun u => ?_⟩
    by_cases hu : u = t
    · simp [hu]
    · rw [Function.update_of_ne hu, Bool.eq_false_iff]
      intro hin
      exact hu ((hv u).mp hin)

/-- While nobody is inside, everybody can get the lock. -/
theorem Mutex.Guards.lock_free (h : m.Guards inside) (hnone : ∀ t, inside t = false) (t : ι) :
    ∃ m', m.lock t = some m' := by
  rw [h.eq_unlocked hnone]
  exact ⟨_, rfl⟩

end LearnLinux.RecursiveMutex
