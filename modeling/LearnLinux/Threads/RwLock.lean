import LearnLinux.Lib.History
import LearnLinux.Lib.SharedLock
import LearnLinux.Lib.Transition
import Mathlib.Algebra.BigOperators.Fin

/-!
# The readers and writers of `02_threads/thread_demo.c`

`demo_rwlock` runs `R` threads of `reader` and `W` threads of `writer` over one `g_rwlock`.
The argument of a `printf` is loaded before the line is printed, so a reader loads
`g_shared_val` and prints it later, and a writer stores it, loads it and prints it, each as a
step of its own. The sleeps inside the sections are not steps.

`readers_print_last_write`: in every interleaving a `READER` line shows the value of the last
`WRITER` line before it, no run gets stuck, and every run has the same length.
-/

namespace LearnLinux.RwLock

open Census History SharedLock Transition

/-! ## The threads -/

/-- The readers, then the writers. -/
abbrev Thread (R W : Nat) := Fin R ⊕ Fin W

/-- The next step of a thread: those of `reader`, those of `writer`, and none. -/
inductive Pc where
  | rdlock
  | readLoad
  | readPrint (val : BitVec 32)
  | readUnlock
  | wrlock
  | setVal
  | setLoad
  | setPrint (val : BitVec 32)
  | setUnlock
  | done
  deriving DecidableEq, Repr

/-- What a thread has `g_rwlock` for. -/
def Pc.mode : Pc → Mode
  | .readLoad | .readPrint _ | .readUnlock => .reading
  | .setVal | .setLoad | .setPrint _ | .setUnlock => .writing
  | .rdlock | .wrlock | .done => .outside

/-- A line of the output: who printed it, and the value it shows. -/
abbrev Line (R W : Nat) := Thread R W × BitVec 32

structure State (R W : Nat) where
  rwlock : RwLock (Thread R W)
  sharedVal : BitVec 32
  thread : Thread R W → Pc
  out : List (Line R W)

/-- One step of `reader` or `writer`; `ids` are the numbers the threads are given. -/
def step {R W : Nat} (ids : Thread R W → BitVec 32) (t : Thread R W) (s : State R W) :
    Option (State R W) :=
  match s.thread t with
  | .rdlock =>
    s.rwlock.rdlock.map fun l =>
      { s with rwlock := l, thread := Function.update s.thread t .readLoad }
  | .readLoad => some { s with thread := Function.update s.thread t (.readPrint s.sharedVal) }
  | .readPrint v =>
    some { s with out := s.out ++ [(t, v)], thread := Function.update s.thread t .readUnlock }
  | .readUnlock =>
    some { s with rwlock := s.rwlock.unlock t, thread := Function.update s.thread t .done }
  | .wrlock =>
    (s.rwlock.wrlock t).map fun l =>
      { s with rwlock := l, thread := Function.update s.thread t .setVal }
  | .setVal =>
    some { s with sharedVal := ids t * 100, thread := Function.update s.thread t .setLoad }
  | .setLoad => some { s with thread := Function.update s.thread t (.setPrint s.sharedVal) }
  | .setPrint v =>
    some { s with out := s.out ++ [(t, v)], thread := Function.update s.thread t .setUnlock }
  | .setUnlock =>
    some { s with rwlock := s.rwlock.unlock t, thread := Function.update s.thread t .done }
  | .done => none

/-- `g_shared_val` is 0 and `g_rwlock` is free when the threads are made. -/
def State.initial (R W : Nat) : State R W :=
  ⟨.free, 0, Sum.elim (fun _ => .rdlock) (fun _ => .wrlock), []⟩

/-! ## What the output says -/

/-- The value of the last `WRITER` line, or the initial one. -/
def lastSet {R W : Nat} (out : List (Line R W)) : BitVec 32 :=
  out.foldl (fun v line => match line.1 with
    | .inl _ => v
    | .inr _ => line.2) 0

/-- The value a line has to show after the lines `out`. -/
def due {R W : Nat} (ids : Thread R W → BitVec 32) (out : List (Line R W)) :
    Thread R W → BitVec 32
  | .inl _ => lastSet out
  | .inr w => ids (.inr w) * 100

/-- Every line shows the value it has to. -/
def Faithful {R W : Nat} (ids : Thread R W → BitVec 32) (out : List (Line R W)) : Prop :=
  Each (fun before line => line.2 = due ids before line.1) out

theorem lastSet_concat {R W : Nat} (out : List (Line R W)) (line : Line R W) :
    lastSet (out ++ [line]) = match line.1 with
      | .inl _ => lastSet out
      | .inr _ => line.2 := by
  rw [lastSet, List.foldl_append]
  rfl

/-! ## The invariant -/

/-- The steps of `reader` are taken by readers, those of `writer` by writers. -/
def Pc.Belongs {R W : Nat} (t : Thread R W) : Pc → Prop
  | .rdlock | .readLoad | .readPrint _ | .readUnlock => t.isLeft = true
  | .wrlock | .setVal | .setLoad | .setPrint _ | .setUnlock => t.isRight = true
  | .done => True

/-- A writer has stored a value whose line is not printed yet. -/
def Pc.unsaid : Pc → Bool
  | .setLoad | .setPrint _ => true
  | _ => false

/-- The thread has printed its line. -/
def Pc.said : Pc → Bool
  | .readUnlock | .setUnlock | .done => true
  | _ => false

/-- What a thread relies on: the value it has loaded is still the shared one, and a writer
that has stored finds what it stored. -/
def Pc.Knows (sharedVal written : BitVec 32) : Pc → Prop
  | .readPrint v => v = sharedVal
  | .setLoad => sharedVal = written
  | .setPrint v => v = sharedVal ∧ sharedVal = written
  | _ => True

structure State.Sound {R W : Nat} (ids : Thread R W → BitVec 32) (s : State R W) : Prop where
  rwlock : s.rwlock.Guards fun t => (s.thread t).mode
  belongs : ∀ t, (s.thread t).Belongs t
  knows : ∀ t, (s.thread t).Knows s.sharedVal (ids t * 100)
  shared : (∀ t, (s.thread t).unsaid = false) → s.sharedVal = lastSet s.out
  faithful : Faithful ids s.out
  once : (s.out.map Prod.fst).Nodup
  said : ∀ t, t ∈ s.out.map Prod.fst ↔ (s.thread t).said = true

theorem Pc.knows_of_outside {pc : Pc} (h : pc.mode = .outside) (v w : BitVec 32) :
    pc.Knows v w := by
  cases pc with
  | rdlock | wrlock | done => trivial
  | readLoad | readPrint _ | readUnlock | setVal | setLoad | setPrint _ | setUnlock => cases h

theorem Pc.writing_of_unsaid {pc : Pc} (h : pc.unsaid = true) : pc.mode = .writing := by
  cases pc with
  | setLoad | setPrint _ => rfl
  | rdlock | readLoad | readPrint _ | readUnlock | wrlock | setVal | setUnlock | done => cases h

section Moves

variable {R W : Nat} {ids : Thread R W → BitVec 32} {s : State R W} {t : Thread R W} {pc : Pc}

theorem mode_update (thread : Thread R W → Pc) (t : Thread R W) (pc : Pc) :
    (fun u => (Function.update thread t pc u).mode) =
      Function.update (fun u => (thread u).mode) t pc.mode :=
  funext (Function.apply_update (fun _ => Pc.mode) thread t pc)

/-- Nothing is unsaid while somebody reads. -/
theorem State.Sound.settled (h : s.Sound ids) (ht : (s.thread t).mode = .reading) :
    s.sharedVal = lastSet s.out := by
  apply h.shared
  intro u
  cases hu : (s.thread u).unsaid with
  | false => rfl
  | true => exact absurd ht (h.rwlock.no_reader (Pc.writing_of_unsaid hu))

theorem unsaid_of_update (ht : (s.thread t).unsaid = pc.unsaid)
    (h : ∀ u, (Function.update s.thread t pc u).unsaid = false) :
    ∀ u, (s.thread u).unsaid = false := by
  intro u
  by_cases hu : u = t
  · rw [hu, ht]
    simpa using h t
  · simpa [hu] using h u

theorem said_update {out : List (Line R W)} (ht : (s.thread t).said = pc.said)
    (h : ∀ u, u ∈ out.map Prod.fst ↔ (s.thread u).said = true) :
    ∀ u, u ∈ out.map Prod.fst ↔ (Function.update s.thread t pc u).said = true := by
  intro u
  by_cases hu : u = t
  · rw [hu, Function.update_self, ← ht]
    exact h t
  · rw [Function.update_of_ne hu]
    exact h u

/-- A thread that takes, gives back or keeps the lock, and neither stores nor prints. -/
theorem State.Sound.move (h : s.Sound ids) {l : RwLock (Thread R W)}
    (hl : l.Guards (Function.update (fun u => (s.thread u).mode) t pc.mode))
    (hbelongs : pc.Belongs t) (hknows : pc.Knows s.sharedVal (ids t * 100))
    (hunsaid : (s.thread t).unsaid = pc.unsaid) (hsaid : (s.thread t).said = pc.said) :
    State.Sound ids { s with rwlock := l, thread := Function.update s.thread t pc } := by
  refine ⟨?_, ?_, ?_, ?_, h.faithful, h.once, said_update hsaid h.said⟩
  · simp only [mode_update]
    exact hl
  · exact (Function.forall_update_iff s.thread fun u pc => pc.Belongs u).mpr
      ⟨hbelongs, fun u _ => h.belongs u⟩
  · exact (Function.forall_update_iff s.thread fun u pc => pc.Knows s.sharedVal (ids u * 100)).mpr
      ⟨hknows, fun u _ => h.knows u⟩
  · exact fun hall => h.shared (unsaid_of_update hunsaid hall)

/-- A step that keeps the lock as it is. -/
theorem State.Sound.stay (h : s.Sound ids) (hmode : (s.thread t).mode = pc.mode)
    (hbelongs : pc.Belongs t) (hknows : pc.Knows s.sharedVal (ids t * 100))
    (hunsaid : (s.thread t).unsaid = pc.unsaid) (hsaid : (s.thread t).said = pc.said) :
    State.Sound ids { s with thread := Function.update s.thread t pc } := by
  apply h.move _ hbelongs hknows hunsaid hsaid
  rw [← hmode, Function.update_eq_self t fun u => (s.thread u).mode]
  exact h.rwlock

/-- Whoever stores is alone, so no other thread has loaded the old value. -/
theorem State.Sound.store (h : s.Sound ids) (ht : s.thread t = .setVal)
    (hbelongs : Pc.setLoad.Belongs t) :
    State.Sound ids
      { s with sharedVal := ids t * 100, thread := Function.update s.thread t .setLoad } := by
  have hmode : (s.thread t).mode = .writing := by rw [ht]; rfl
  refine ⟨?_, ?_, ?_, ?_, h.faithful, h.once, said_update (by rw [ht]; rfl) h.said⟩
  · simp only [mode_update]
    rw [show Pc.setLoad.mode = (s.thread t).mode from hmode.symm,
      Function.update_eq_self t fun u => (s.thread u).mode]
    exact h.rwlock
  · exact (Function.forall_update_iff s.thread fun u pc => pc.Belongs u).mpr
      ⟨hbelongs, fun u _ => h.belongs u⟩
  · refine (Function.forall_update_iff s.thread
      fun u pc => pc.Knows (ids t * 100) (ids u * 100)).mpr ⟨rfl, fun u hu => ?_⟩
    apply Pc.knows_of_outside
    by_contra hout
    exact hu (h.rwlock.exclusive hmode hout)
  · intro hall
    have ht := hall t
    dsimp only at ht
    rw [Function.update_self] at ht
    cases ht

/-- A thread prints the line it owes; nothing is unsaid afterwards. -/
theorem State.Sound.print (h : s.Sound ids) {v : BitVec 32}
    (hmode : (s.thread t).mode = pc.mode) (hbelongs : pc.Belongs t)
    (hknows : pc.Knows s.sharedVal (ids t * 100)) (hsaid : (s.thread t).said = false)
    (hpc : pc.said = true) (hdue : v = due ids s.out t)
    (hlast : s.sharedVal = lastSet (s.out ++ [(t, v)])) :
    State.Sound ids
      { s with out := s.out ++ [(t, v)], thread := Function.update s.thread t pc } := by
  have hnew : t ∉ s.out.map Prod.fst := by
    rw [h.said t, hsaid]
    exact Bool.false_ne_true
  refine ⟨?_, ?_, ?_, fun _ => hlast, h.faithful.concat hdue, ?_, ?_⟩
  · simp only [mode_update, ← hmode]
    rw [Function.update_eq_self t fun u => (s.thread u).mode]
    exact h.rwlock
  · exact (Function.forall_update_iff s.thread fun u pc => pc.Belongs u).mpr
      ⟨hbelongs, fun u _ => h.belongs u⟩
  · exact (Function.forall_update_iff s.thread fun u pc => pc.Knows s.sharedVal (ids u * 100)).mpr
      ⟨hknows, fun u _ => h.knows u⟩
  · rw [List.map_append, List.map_singleton, List.nodup_append_comm]
    exact List.nodup_cons.mpr ⟨hnew, h.once⟩
  · intro u
    dsimp only
    rw [List.map_append, List.mem_append]
    by_cases hu : u = t
    · simp [hu, hpc]
    · rw [Function.update_of_ne hu, ← h.said u]
      simp [hu]

end Moves

/-! ## Runs -/

/-- The steps of the two functions, with the state each one needs. -/
inductive Move {R W : Nat} (ids : Thread R W → BitVec 32) (t : Thread R W) (s : State R W) :
    State R W → Prop
  | rdlock (l : RwLock (Thread R W)) : s.thread t = .rdlock → s.rwlock.rdlock = some l →
      Move ids t s { s with rwlock := l, thread := Function.update s.thread t .readLoad }
  | readLoad : s.thread t = .readLoad →
      Move ids t s { s with thread := Function.update s.thread t (.readPrint s.sharedVal) }
  | readPrint (v : BitVec 32) : s.thread t = .readPrint v →
      Move ids t s
        { s with out := s.out ++ [(t, v)], thread := Function.update s.thread t .readUnlock }
  | readUnlock : s.thread t = .readUnlock →
      Move ids t s
        { s with rwlock := s.rwlock.unlock t, thread := Function.update s.thread t .done }
  | wrlock (l : RwLock (Thread R W)) : s.thread t = .wrlock → s.rwlock.wrlock t = some l →
      Move ids t s { s with rwlock := l, thread := Function.update s.thread t .setVal }
  | setVal : s.thread t = .setVal →
      Move ids t s
        { s with sharedVal := ids t * 100, thread := Function.update s.thread t .setLoad }
  | setLoad : s.thread t = .setLoad →
      Move ids t s { s with thread := Function.update s.thread t (.setPrint s.sharedVal) }
  | setPrint (v : BitVec 32) : s.thread t = .setPrint v →
      Move ids t s
        { s with out := s.out ++ [(t, v)], thread := Function.update s.thread t .setUnlock }
  | setUnlock : s.thread t = .setUnlock →
      Move ids t s
        { s with rwlock := s.rwlock.unlock t, thread := Function.update s.thread t .done }

theorem step_inv {R W : Nat} {ids : Thread R W → BitVec 32} {t : Thread R W} {s s' : State R W}
    (hs : step ids t s = some s') : Move ids t s s' := by
  cases hpc : s.thread t with
  | rdlock =>
    simp only [step, hpc] at hs
    obtain ⟨l, hl, rfl⟩ := Option.map_eq_some_iff.mp hs
    exact .rdlock l hpc hl
  | wrlock =>
    simp only [step, hpc] at hs
    obtain ⟨l, hl, rfl⟩ := Option.map_eq_some_iff.mp hs
    exact .wrlock l hpc hl
  | readLoad =>
    simp only [step, hpc] at hs
    obtain rfl := Option.some.inj hs
    exact .readLoad hpc
  | readPrint v =>
    simp only [step, hpc] at hs
    obtain rfl := Option.some.inj hs
    exact .readPrint v hpc
  | readUnlock =>
    simp only [step, hpc] at hs
    obtain rfl := Option.some.inj hs
    exact .readUnlock hpc
  | setVal =>
    simp only [step, hpc] at hs
    obtain rfl := Option.some.inj hs
    exact .setVal hpc
  | setLoad =>
    simp only [step, hpc] at hs
    obtain rfl := Option.some.inj hs
    exact .setLoad hpc
  | setPrint v =>
    simp only [step, hpc] at hs
    obtain rfl := Option.some.inj hs
    exact .setPrint v hpc
  | setUnlock =>
    simp only [step, hpc] at hs
    obtain rfl := Option.some.inj hs
    exact .setUnlock hpc
  | done =>
    simp only [step, hpc] at hs
    cases hs

theorem Move.sound {R W : Nat} {ids : Thread R W → BitVec 32} {t : Thread R W} {s s' : State R W}
    (hm : Move ids t s s') (h : s.Sound ids) : s'.Sound ids := by
  have hbelongs := h.belongs t
  have hknows := h.knows t
  cases hm with
  | rdlock l hpc hl =>
    rw [hpc] at hbelongs
    exact h.move (h.rwlock.rdlock (by rw [hpc]; rfl) hl) hbelongs trivial
      (by rw [hpc]; rfl) (by rw [hpc]; rfl)
  | readLoad hpc =>
    rw [hpc] at hbelongs
    exact h.stay (by rw [hpc]; rfl) hbelongs rfl (by rw [hpc]; rfl) (by rw [hpc]; rfl)
  | readPrint v hpc =>
    rw [hpc] at hbelongs hknows
    obtain ⟨r, rfl⟩ := Sum.isLeft_iff.mp hbelongs
    have hsettled := h.settled (t := .inl r) (by rw [hpc]; rfl)
    refine h.print (by rw [hpc]; rfl) rfl trivial (by rw [hpc]; rfl) rfl ?_ ?_
    · exact hknows.trans hsettled
    · rw [lastSet_concat]
      exact hsettled
  | readUnlock hpc =>
    exact h.move (h.rwlock.unlock_reader (by rw [hpc]; rfl)) trivial trivial
      (by rw [hpc]; rfl) (by rw [hpc]; rfl)
  | wrlock l hpc hl =>
    rw [hpc] at hbelongs
    exact h.move (h.rwlock.wrlock (by rw [hpc]; rfl) hl) hbelongs trivial
      (by rw [hpc]; rfl) (by rw [hpc]; rfl)
  | setVal hpc =>
    rw [hpc] at hbelongs
    exact h.store hpc hbelongs
  | setLoad hpc =>
    rw [hpc] at hbelongs hknows
    exact h.stay (by rw [hpc]; rfl) hbelongs ⟨rfl, hknows⟩ (by rw [hpc]; rfl) (by rw [hpc]; rfl)
  | setPrint v hpc =>
    rw [hpc] at hbelongs hknows
    obtain ⟨w, rfl⟩ := Sum.isRight_iff.mp hbelongs
    refine h.print (by rw [hpc]; rfl) rfl trivial (by rw [hpc]; rfl) rfl ?_ ?_
    · exact hknows.1.trans hknows.2
    · rw [lastSet_concat]
      exact hknows.1.symm
  | setUnlock hpc =>
    exact h.move (h.rwlock.unlock_writer (by rw [hpc]; rfl)) trivial trivial
      (by rw [hpc]; rfl) (by rw [hpc]; rfl)

theorem initial_sound {R W : Nat} (ids : Thread R W → BitVec 32) :
    (State.initial R W).Sound ids where
  rwlock := guards_free fun t => by cases t <;> rfl
  belongs t := by cases t <;> rfl
  knows t := by cases t <;> trivial
  shared _ := rfl
  faithful := each_nil
  once := List.nodup_nil
  said t := by cases t <;> simp [State.initial, Pc.said]

/-- The steps a thread still has to take. -/
def Pc.left : Pc → Nat
  | .rdlock => 4
  | .readLoad => 3
  | .readPrint _ => 2
  | .readUnlock => 1
  | .wrlock => 5
  | .setVal => 4
  | .setLoad => 3
  | .setPrint _ => 2
  | .setUnlock => 1
  | .done => 0

/-- The steps all threads still have to take. -/
def State.left {R W : Nat} (s : State R W) : Nat := ∑ t, (s.thread t).left

theorem initial_left (R W : Nat) : (State.initial R W).left = 4 * R + 5 * W := by
  rw [State.left, Fintype.sum_sum_type]
  simp [State.initial, Pc.left, Nat.mul_comm]

theorem left_update {R W : Nat} {s : State R W} {t : Thread R W} {pc : Pc}
    (h : (s.thread t).left = pc.left + 1) :
    (∑ u, (Function.update s.thread t pc u).left) + 1 = s.left := by
  have hsum := sum_update Pc.left s.thread t pc
  unfold State.left
  omega

theorem Move.left {R W : Nat} {ids : Thread R W → BitVec 32} {t : Thread R W} {s s' : State R W}
    (hm : Move ids t s s') : s'.left + 1 = s.left := by
  cases hm with
  | rdlock l hpc | wrlock l hpc | readPrint v hpc | setPrint v hpc =>
    exact left_update (by rw [hpc]; rfl)
  | readLoad hpc | readUnlock hpc | setVal hpc | setLoad hpc | setUnlock hpc =>
    exact left_update (by rw [hpc]; rfl)

/-- Only the two locks can make a thread wait. -/
theorem step_isSome {R W : Nat} (ids : Thread R W → BitVec 32) {t : Thread R W} {s : State R W}
    (hd : s.thread t ≠ .done)
    (hwait : (s.thread t).mode ≠ .outside ∨ s.rwlock = .free) :
    ∃ s', step ids t s = some s' := by
  rw [← Option.isSome_iff_exists]
  cases hpc : s.thread t with
  | rdlock | wrlock =>
    rcases hwait with hin | hfree
    · rw [hpc] at hin
      exact absurd rfl hin
    · simp [step, hpc, hfree, RwLock.rdlock, RwLock.wrlock, RwLock.free]
  | readLoad | readPrint _ | readUnlock => simp [step, hpc]
  | setVal | setLoad | setPrint _ | setUnlock => simp [step, hpc]
  | done => exact absurd hpc hd

/-- Whoever is inside can move; while nobody is, the lock is free and everybody can. -/
theorem some_thread_moves {R W : Nat} {ids : Thread R W → BitVec 32} {s : State R W}
    (h : s.Sound ids) (hd : ∃ t, s.thread t ≠ .done) : ∃ t s', step ids t s = some s' := by
  by_cases hin : ∃ t, (s.thread t).mode ≠ .outside
  · obtain ⟨t, ht⟩ := hin
    refine ⟨t, step_isSome ids ?_ (.inl ht)⟩
    intro hdone
    rw [hdone] at ht
    exact ht rfl
  · obtain ⟨t, ht⟩ := hd
    have hout : ∀ u, (s.thread u).mode = .outside := fun u => not_not.mp fun hu => hin ⟨u, hu⟩
    exact ⟨t, step_isSome ids ht (.inr (h.rwlock.eq_free hout))⟩

theorem run_sound {R W : Nat} {ids : Thread R W → BitVec 32} (ts : List (Thread R W))
    {s s' : State R W} (h : s.Sound ids) (hr : runList (step ids) ts s = some s') :
    s'.Sound ids ∧ ts.length + s'.left = s.left := by
  induction ts generalizing s with
  | nil =>
    cases hr
    exact ⟨h, Nat.zero_add _⟩
  | cons t ts ih =>
    obtain ⟨u, hu, hr⟩ := Option.bind_eq_some_iff.mp hr
    have hm := step_inv hu
    obtain ⟨hsound, hlen⟩ := ih (hm.sound h) hr
    have hleft := hm.left
    refine ⟨hsound, ?_⟩
    rw [List.length_cons]
    omega

theorem Pc.left_eq_zero {pc : Pc} : pc.left = 0 ↔ pc = .done := by
  cases pc <;> simp [Pc.left]

theorem State.left_eq_zero {R W : Nat} {s : State R W} :
    s.left = 0 ↔ ∀ t, s.thread t = .done := by
  rw [State.left, Finset.sum_eq_zero_iff]
  constructor
  · intro h t
    exact Pc.left_eq_zero.mp (h t (Finset.mem_univ t))
  · intro h t _
    exact Pc.left_eq_zero.mpr (h t)

/-- **Readers print the last write**, for all numbers of readers and writers and every
interleaving `ts`. A writer shares its section with nobody; every `WRITER` line shows the
number its writer was given times 100, every `READER` line the value of the `WRITER` line last
printed before it, or 0; and whatever the order, a run ends after `4 * R + 5 * W` steps, with
one line for each thread and the last printed value in `g_shared_val`. -/
theorem readers_print_last_write {R W : Nat} (ids : Thread R W → BitVec 32)
    (ts : List (Thread R W)) (s : State R W)
    (hr : runList (step ids) ts (State.initial R W) = some s) :
    (∀ t u, (s.thread t).mode = .writing → (s.thread u).mode ≠ .outside → u = t) ∧
    Faithful ids s.out ∧
    ts.length ≤ 4 * R + 5 * W ∧
    (ts.length < 4 * R + 5 * W → ∃ t s', step ids t s = some s') ∧
    (ts.length = 4 * R + 5 * W →
      (∀ t, s.thread t = .done) ∧ s.rwlock = .free ∧ s.sharedVal = lastSet s.out ∧
      (s.out.map Prod.fst).Nodup ∧ ∀ t, t ∈ s.out.map Prod.fst) := by
  obtain ⟨h, hlen⟩ := run_sound ts (initial_sound ids) hr
  rw [initial_left] at hlen
  refine ⟨fun t u => h.rwlock.exclusive, h.faithful, by omega, fun hlt => ?_, fun heq => ?_⟩
  · apply some_thread_moves h
    by_contra hd
    have hzero := State.left_eq_zero.mpr fun t => not_not.mp fun ht => hd ⟨t, ht⟩
    omega
  · have hd : ∀ t, s.thread t = .done := State.left_eq_zero.mp (by omega)
    refine ⟨hd, ?_, ?_, h.once, fun t => ?_⟩
    · exact h.rwlock.eq_free fun t => by rw [hd t]; rfl
    · exact h.shared fun t => by rw [hd t]; rfl
    · rw [h.said t, hd t]
      rfl

/-- A writer between two readers: the first reader prints 0, the other one 9800. -/
theorem readers_print_last_write_two :
    ∃ s, runList (step fun _ => 98)
        [.inl 0, .inl 0, .inl 0, .inl 0, .inr 0, .inr 0, .inr 0, .inr 0, .inr 0,
          .inl 1, .inl 1, .inl 1, .inl 1] (State.initial 2 1) = some s ∧
      s.out = [(.inl 0, 0), (.inr 0, 9800), (.inl 1, 9800)] ∧ s.rwlock = .free := by
  refine ⟨_, rfl, by decide, ?_⟩
  exact ((readers_print_last_write (fun _ => 98) [.inl 0, .inl 0, .inl 0, .inl 0, .inr 0, .inr 0,
    .inr 0, .inr 0, .inr 0, .inl 1, .inl 1, .inl 1, .inl 1] _ rfl).2.2.2.2 rfl).2.1

end LearnLinux.RwLock
