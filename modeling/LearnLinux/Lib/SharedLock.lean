import LearnLinux.Lib.Census
import Mathlib.Logic.Function.Basic

/-!
A readers-writer lock, for any finite type of threads: it knows its writer and counts its
readers. `Guards` ties it to what each thread is doing, and is kept when a thread enters
through `rdlock` or `wrlock` and leaves through `unlock`.
-/

namespace LearnLinux.SharedLock

open Census

/-- The thread that has the lock for writing, and how many have it for reading. -/
structure RwLock (ι : Type*) where
  writer : Option ι
  readers : Nat
  deriving DecidableEq, Repr

variable {ι : Type*}

def RwLock.free : RwLock ι := ⟨none, 0⟩

/-- The lock after `rdlock`, or `none` while the caller has to wait for a writer. -/
def RwLock.rdlock (l : RwLock ι) : Option (RwLock ι) :=
  match l.writer with
  | none => some ⟨none, l.readers + 1⟩
  | some _ => none

/-- The lock after `wrlock` by `t`, or `none` while `t` has to wait. -/
def RwLock.wrlock (l : RwLock ι) (t : ι) : Option (RwLock ι) :=
  match l.writer with
  | none => if l.readers = 0 then some ⟨some t, 0⟩ else none
  | some _ => none

/-- `unlock` serves both: the writer is told by its identity, anyone else is a reader. -/
def RwLock.unlock [DecidableEq ι] (l : RwLock ι) (t : ι) : RwLock ι :=
  if l.writer = some t then ⟨none, l.readers⟩ else ⟨l.writer, l.readers - 1⟩

/-- What a thread has the lock for. -/
inductive Mode where
  | outside
  | reading
  | writing
  deriving DecidableEq, Repr

/-- The lock counts the threads that read, knows the one that writes, and never has both. -/
structure RwLock.Guards [Fintype ι] (l : RwLock ι) (mode : ι → Mode) : Prop where
  readers : l.readers = census (· = .reading) mode
  writer : ∀ t, mode t = .writing ↔ l.writer = some t
  alone : ∀ t, l.writer = some t → l.readers = 0

variable [Fintype ι] {l l' : RwLock ι} {mode : ι → Mode} {t u : ι}

theorem RwLock.Guards.writer_unique (h : l.Guards mode) (ht : mode t = .writing)
    (hu : mode u = .writing) : t = u :=
  Option.some.inj (((h.writer t).mp ht).symm.trans ((h.writer u).mp hu))

theorem RwLock.Guards.not_writing (h : l.Guards mode) (hw : l.writer = none) :
    mode u ≠ .writing := by
  intro hu
  have hsome := (h.writer u).mp hu
  rw [hw] at hsome
  cases hsome

/-- Nobody reads while somebody writes. -/
theorem RwLock.Guards.no_reader (h : l.Guards mode) (ht : mode t = .writing) :
    mode u ≠ .reading := by
  intro hu
  have hzero := h.alone t ((h.writer t).mp ht)
  rw [h.readers, census_eq_zero_iff] at hzero
  have := hzero u
  simp [hu] at this

/-- **Exclusion.** Whoever shares the lock with a writer is that writer. -/
theorem RwLock.Guards.exclusive (h : l.Guards mode) (ht : mode t = .writing)
    (hu : mode u ≠ .outside) : u = t := by
  cases hm : mode u with
  | outside => exact absurd hm hu
  | reading => exact absurd hm (h.no_reader ht)
  | writing => exact h.writer_unique hm ht

theorem RwLock.Guards.eq_free (h : l.Guards mode) (hout : ∀ t, mode t = .outside) :
    l = .free := by
  have hwriter : l.writer = none := by
    cases hw : l.writer with
    | none => rfl
    | some t =>
      have := (h.writer t).mpr hw
      rw [hout t] at this
      cases this
  have hreaders : l.readers = 0 := by
    rw [h.readers, census_eq_zero_iff]
    intro t
    simp [hout t]
  cases l
  cases hwriter
  cases hreaders
  rfl

theorem guards_free (hout : ∀ t, mode t = .outside) : (RwLock.free : RwLock ι).Guards mode := by
  refine ⟨?_, ?_, ?_⟩
  · symm
    rw [RwLock.free, census_eq_zero_iff]
    intro t
    simp [hout t]
  · intro t
    simp [hout t, RwLock.free]
  · intro t ht
    cases ht

variable [DecidableEq ι]

/-- Only the entry at `t` moves the number of readers. -/
theorem census_reading_update (mode : ι → Mode) (t : ι) (m : Mode) :
    census (· = .reading) (Function.update mode t m) + (decide (mode t = .reading)).toNat =
      census (· = .reading) mode + (decide (m = .reading)).toNat := by
  have h := census_off (fun m : Mode => decide (m = .reading)) mode (Function.update mode t m) t
    fun u hu => by rw [Function.update_of_ne hu]
  rwa [Function.update_self] at h

theorem RwLock.Guards.rdlock (h : l.Guards mode) (ht : mode t = .outside)
    (hl : l.rdlock = some l') : l'.Guards (Function.update mode t .reading) := by
  unfold RwLock.rdlock at hl
  split at hl
  next hw =>
    obtain rfl := Option.some.inj hl
    have hcount := census_reading_update mode t .reading
    simp only [ht, reduceCtorEq, decide_false, decide_true, Bool.toNat_false, Bool.toNat_true]
      at hcount
    refine ⟨?_, ?_, ?_⟩
    · have := h.readers
      dsimp only
      omega
    · intro u
      by_cases hu : u = t
      · simp [hu]
      · simp [hu, h.not_writing hw]
    · intro u hu
      cases hu
  next => cases hl

theorem RwLock.Guards.wrlock (h : l.Guards mode) (ht : mode t = .outside)
    (hl : l.wrlock t = some l') : l'.Guards (Function.update mode t .writing) := by
  unfold RwLock.wrlock at hl
  split at hl
  next hw =>
    split at hl
    next hzero =>
      obtain rfl := Option.some.inj hl
      have hcount := census_reading_update mode t .writing
      simp only [ht, reduceCtorEq, decide_false, Bool.toNat_false, Nat.add_zero] at hcount
      refine ⟨?_, ?_, fun _ _ => rfl⟩
      · rw [hcount, ← h.readers, hzero]
      · intro u
        by_cases hu : u = t
        · simp [hu]
        · simp [hu, h.not_writing hw, Ne.symm hu]
    next => cases hl
  next => cases hl

theorem RwLock.Guards.unlock_reader (h : l.Guards mode) (ht : mode t = .reading) :
    (l.unlock t).Guards (Function.update mode t .outside) := by
  have hw : ∀ u, l.writer ≠ some u := fun u hu => h.no_reader ((h.writer u).mpr hu) ht
  have hcount := census_reading_update mode t .outside
  simp only [ht, reduceCtorEq, decide_false, decide_true, Bool.toNat_false, Bool.toNat_true]
    at hcount
  rw [RwLock.unlock, if_neg (hw t)]
  refine ⟨?_, ?_, fun u hu => absurd hu (hw u)⟩
  · have := h.readers
    dsimp only
    omega
  · intro u
    by_cases hu : u = t
    · simp [hu, hw t]
    · rw [Function.update_of_ne hu]
      exact h.writer u

theorem RwLock.Guards.unlock_writer (h : l.Guards mode) (ht : mode t = .writing) :
    (l.unlock t).Guards (Function.update mode t .outside) := by
  have hw := (h.writer t).mp ht
  have hcount := census_reading_update mode t .outside
  simp only [ht, reduceCtorEq, decide_false, Bool.toNat_false, Nat.add_zero] at hcount
  rw [RwLock.unlock, if_pos hw]
  refine ⟨?_, ?_, fun _ hu => by cases hu⟩
  · rw [hcount]
    exact h.readers
  · intro u
    by_cases hu : u = t
    · simp [hu]
    · have hne : mode u ≠ .writing := fun hm => hu (h.writer_unique hm ht)
      simp [hu, hne]

end LearnLinux.SharedLock
