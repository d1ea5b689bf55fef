import LearnLinux.Lib.Census
import LearnLinux.Lib.RecursiveMutex
import LearnLinux.Lib.Transition

/-!
# The shared counter of `02_threads/thread_demo.c`

`N` threads run `counter_increment`, which adds 1 to `g_counter` `K` times under a mutex;
`g_counter++` is a load and a store. `demo_mutex` gives `PTHREAD_PROCESS_SHARED` to
`pthread_mutexattr_settype`. That is the number of the recursive type, so the mutex is one
that knows its owner. `g_counter` is a 64-bit `long`.

`counter_loses_no_update`: the counter is the number of stores, and `N * K` at the end.
-/

namespace LearnLinux.Counter

open Census RecursiveMutex Transition

/-! ## The threads -/

/-- The next step of a thread in round `i`: the test of the loop, `pthread_mutex_lock`, the
load and the store of `g_counter`, and `pthread_mutex_unlock`. -/
inductive Pc where
  | test (i : Nat)
  | lock (i : Nat)
  | load (i : Nat)
  | store (i : Nat) (reg : BitVec 64)
  | unlock (i : Nat)
  | done
  deriving DecidableEq, Repr

/-- Between `pthread_mutex_lock` and `pthread_mutex_unlock`. -/
def Pc.inside : Pc → Bool
  | .load _ | .store _ _ | .unlock _ => true
  | .test _ | .lock _ | .done => false

/-- The mutex, the counter and the threads; `stores` counts the stores made so far. -/
structure State (N : Nat) where
  mutex : Mutex (Fin N)
  gCounter : BitVec 64
  thread : Fin N → Pc
  stores : Nat

/-- The loop of `counter_increment`, one step of thread `t`. -/
def step {N : Nat} (K : Nat) (t : Fin N) (s : State N) : Option (State N) :=
  match s.thread t with
  | .test i =>
    some { s with thread := Function.update s.thread t (if i < K then .lock i else .done) }
  | .lock i =>
    (s.mutex.lock t).map fun m =>
      { s with mutex := m, thread := Function.update s.thread t (.load i) }
  | .load i => some { s with thread := Function.update s.thread t (.store i s.gCounter) }
  | .store i reg =>
    some { s with
      gCounter := reg + 1
      thread := Function.update s.thread t (.unlock i)
      stores := s.stores + 1 }
  | .unlock i =>
    some { s with
      mutex := s.mutex.unlock t
      thread := Function.update s.thread t (.test (i + 1)) }
  | .done => none

/-- `demo_mutex` has set the counter to 0 and made the threads. -/
def State.initial (N : Nat) : State N := ⟨.unlocked, 0, fun _ => .test 0, 0⟩

def system (N K : Nat) : System (Fin N) (State N) :=
  .ofStep (fun s => s = State.initial N) (step K)

/-! ## What a step can do -/

/-- The stores a thread has made. -/
def Pc.stores (K : Nat) : Pc → Nat
  | .test i | .lock i | .load i | .store i _ => i
  | .unlock i => i + 1
  | .done => K

/-- Where the round of a thread can be. -/
def Pc.Within (K : Nat) : Pc → Prop
  | .test i => i ≤ K
  | .lock i | .load i | .store i _ | .unlock i => i < K
  | .done => True

theorem Pc.stores_le {K : Nat} {pc : Pc} (h : pc.Within K) : pc.stores K ≤ K := by
  cases pc with
  | test i => exact h
  | lock i => exact Nat.le_of_lt h
  | load i => exact Nat.le_of_lt h
  | store i reg => exact Nat.le_of_lt h
  | unlock i => exact h
  | done => exact Nat.le_refl _

/-- The loaded register of the owner ties the counter to the stores. -/
structure State.Sound {N : Nat} (K : Nat) (s : State N) : Prop where
  mutex : s.mutex.Guards fun t => (s.thread t).inside
  register : ∀ t i reg, s.thread t = .store i reg → reg = s.gCounter
  counter : s.gCounter = BitVec.ofNat 64 s.stores
  stores : s.stores = ∑ t, (s.thread t).stores K
  rounds : ∀ t, (s.thread t).Within K

section Moves

variable {N K : Nat} {s : State N} {t : Fin N} {pc : Pc}

theorem inside_update (thread : Fin N → Pc) (t : Fin N) (pc : Pc) :
    (fun u => (Function.update thread t pc u).inside) =
      Function.update (fun u => (thread u).inside) t pc.inside :=
  funext (Function.apply_update (fun _ => Pc.inside) thread t pc)

/-- Moving one thread moves the sum by what that thread adds. -/
theorem stores_update (h : s.stores = ∑ u, (s.thread u).stores K) {n : Nat}
    (hpc : pc.stores K = (s.thread t).stores K + n) :
    s.stores + n = ∑ u, (Function.update s.thread t pc u).stores K := by
  have hoff := sum_off (fun u => (s.thread u).stores K)
    (fun u => (Function.update s.thread t pc u).stores K) t
    fun u hu => by rw [Function.update_of_ne hu]
  simp only [Function.update_self] at hoff
  omega

theorem within_update (h : ∀ u, (s.thread u).Within K) (hpc : pc.Within K) :
    ∀ u, (Function.update s.thread t pc u).Within K :=
  (Function.forall_update_iff s.thread fun _ pc => pc.Within K).mpr ⟨hpc, fun u _ => h u⟩

theorem register_update {c : BitVec 64}
    (h : ∀ u, u ≠ t → ∀ i reg, s.thread u = .store i reg → reg = c)
    (hpc : ∀ i reg, pc = .store i reg → reg = c) :
    ∀ u i reg, Function.update s.thread t pc u = .store i reg → reg = c :=
  (Function.forall_update_iff s.thread fun _ pc => ∀ i reg, pc = .store i reg → reg = c).mpr
    ⟨hpc, h⟩

/-- A thread that moves on without touching the mutex or the counter. -/
theorem State.Sound.move (h : s.Sound K) (hin : pc.inside = (s.thread t).inside)
    (hstores : pc.stores K = (s.thread t).stores K) (hpc : pc.Within K)
    (hreg : ∀ i reg, pc = .store i reg → reg = s.gCounter) :
    State.Sound K { s with thread := Function.update s.thread t pc } := by
  refine ⟨?_, register_update (fun u _ => h.register u) hreg, h.counter, ?_,
    within_update h.rounds hpc⟩
  · simp only [inside_update, hin]
    rw [Function.update_eq_self t fun u => (s.thread u).inside]
    exact h.mutex
  · exact stores_update (n := 0) h.stores hstores

theorem State.Sound.enter (h : s.Sound K) {i : Nat} {m : Mutex (Fin N)}
    (hpc : s.thread t = .lock i) (hm : s.mutex.lock t = some m) :
    State.Sound K { s with mutex := m, thread := Function.update s.thread t (.load i) } := by
  refine ⟨?_, register_update (fun u _ => h.register u) nofun, h.counter, ?_,
    within_update h.rounds ?_⟩
  · simp only [inside_update]
    exact h.mutex.lock (by rw [hpc]; rfl) hm
  · exact stores_update (n := 0) h.stores (by rw [hpc]; rfl)
  · have hin := h.rounds t
    rw [hpc] at hin
    exact hin

/-- The owner stores the successor of what it loaded, which is still the counter. -/
theorem State.Sound.store (h : s.Sound K) {i : Nat} {reg : BitVec 64}
    (hpc : s.thread t = .store i reg) :
    State.Sound K
      { s with
        gCounter := reg + 1
        thread := Function.update s.thread t (.unlock i)
        stores := s.stores + 1 } := by
  have hin : (s.thread t).inside = true := by rw [hpc]; rfl
  refine ⟨?_, register_update ?_ nofun, ?_, ?_, within_update h.rounds ?_⟩
  · simp only [inside_update]
    rw [show (Pc.unlock i).inside = (s.thread t).inside from hin.symm,
      Function.update_eq_self t fun u => (s.thread u).inside]
    exact h.mutex
  · -- no other thread is between its load and its store
    intro u hu j reg' hu'
    exact absurd (h.mutex.exclusive (by rw [hu']; rfl) hin) hu
  · simp only [h.register t i reg hpc, h.counter]
    exact (BitVec.ofNat_add ..).symm
  · exact stores_update h.stores (by rw [hpc]; rfl)
  · have hround := h.rounds t
    rw [hpc] at hround
    exact hround

theorem State.Sound.leave (h : s.Sound K) {i : Nat} (hpc : s.thread t = .unlock i) :
    State.Sound K
      { s with
        mutex := s.mutex.unlock t
        thread := Function.update s.thread t (.test (i + 1)) } := by
  refine ⟨?_, register_update (fun u _ => h.register u) nofun, h.counter, ?_,
    within_update h.rounds ?_⟩
  · simp only [inside_update]
    exact h.mutex.unlock (by rw [hpc]; rfl)
  · exact stores_update (n := 0) h.stores (by rw [hpc]; rfl)
  · have hround := h.rounds t
    rw [hpc] at hround
    exact hround

end Moves

/-! ## Runs -/

theorem step_sound {N K : Nat} {t : Fin N} {s s' : State N} (hs : step K t s = some s')
    (h : s.Sound K) : s'.Sound K := by
  have hround := h.rounds t
  unfold step at hs
  split at hs
  next i hpc =>
    rw [hpc] at hround
    obtain rfl := Option.some.inj hs
    by_cases hi : i < K
    · rw [if_pos hi]
      exact h.move (by rw [hpc]; rfl) (by rw [hpc]; rfl) hi nofun
    · rw [if_neg hi]
      have hK : i = K := Nat.le_antisymm hround (Nat.le_of_not_lt hi)
      exact h.move (by rw [hpc]; rfl) (by rw [hpc, hK]; rfl) trivial nofun
  next i hpc =>
    obtain ⟨m, hm, rfl⟩ := Option.map_eq_some_iff.mp hs
    exact h.enter hpc hm
  next i hpc =>
    rw [hpc] at hround
    obtain rfl := Option.some.inj hs
    refine h.move (by rw [hpc]; rfl) (by rw [hpc]; rfl) hround ?_
    rintro j reg ⟨⟩
    rfl
  next i reg hpc =>
    obtain rfl := Option.some.inj hs
    exact h.store hpc
  next i hpc =>
    obtain rfl := Option.some.inj hs
    exact h.leave hpc
  next hpc => cases hs

theorem reachable_sound {N K : Nat} {s : State N} (hr : (system N K).Reachable s) : s.Sound K := by
  induction hr with
  | init hi =>
    cases hi
    refine ⟨Or.inl ⟨rfl, fun _ => rfl⟩, nofun, rfl, ?_, fun _ => Nat.zero_le K⟩
    exact (Finset.sum_eq_zero fun _ _ => rfl).symm
  | next _ hs ih => exact step_sound hs ih

/-- A thread inside can always move; while nobody is, everybody can. -/
theorem some_thread_moves {N K : Nat} {s : State N} (h : s.Sound K)
    (hd : ∃ t, s.thread t ≠ .done) : ∃ t s', step K t s = some s' := by
  by_cases hin : ∃ t, (s.thread t).inside = true
  · obtain ⟨t, ht⟩ := hin
    refine ⟨t, ?_⟩
    cases hpc : s.thread t with
    | load i => exact ⟨_, by simp only [step, hpc]; rfl⟩
    | store i reg => exact ⟨_, by simp only [step, hpc]; rfl⟩
    | unlock i => exact ⟨_, by simp only [step, hpc]; rfl⟩
    | test i | lock i | done =>
      rw [hpc] at ht
      cases ht
  · obtain ⟨t, ht⟩ := hd
    have hnone : ∀ u, (s.thread u).inside = false := fun u =>
      Bool.eq_false_iff.mpr fun hu => hin ⟨u, hu⟩
    refine ⟨t, ?_⟩
    cases hpc : s.thread t with
    | test i => exact ⟨_, by simp only [step, hpc]; rfl⟩
    | lock i =>
      obtain ⟨m, hm⟩ := h.mutex.lock_free hnone t
      exact ⟨_, by simp only [step, hpc, hm, Option.map_some]; rfl⟩
    | done => exact absurd hpc ht
    | load i | store i reg | unlock i =>
      have hout := hnone t
      rw [hpc] at hout
      cases hout

theorem stores_le {N K : Nat} {s : State N} (h : s.Sound K) : s.stores ≤ N * K := by
  have hle : ∑ t, (s.thread t).stores K ≤ ∑ _t : Fin N, K :=
    Finset.sum_le_sum fun t _ => Pc.stores_le (h.rounds t)
  rwa [← h.stores, Finset.sum_const_nat fun _ _ => rfl, Finset.card_univ, Fintype.card_fin] at hle

/-- **No update is lost**, for every number of threads and rounds that a `long` can count
and for every interleaving. -/
theorem counter_loses_no_update (N K : Nat) (hNK : N * K < 2 ^ 63) {s : State N}
    (hr : (system N K).Reachable s) :
    (∀ t u, (s.thread t).inside = true → (s.thread u).inside = true → t = u) ∧
    s.gCounter.toInt = s.stores ∧
    ((∃ t, s.thread t ≠ .done) → ∃ t s', step K t s = some s') ∧
    ((∀ t, s.thread t = .done) → s.gCounter.toInt = N * K ∧ s.mutex = .unlocked) := by
  have h := reachable_sound hr
  have hcounter : s.gCounter.toInt = s.stores := by
    have hle := stores_le h
    rw [h.counter, BitVec.toInt_ofNat']
    exact Int.bmod_eq_of_le (by omega) (by omega)
  refine ⟨fun t u => h.mutex.exclusive, hcounter, some_thread_moves h, fun hd => ⟨?_, ?_⟩⟩
  · have hall : ∀ t ∈ Finset.univ, (s.thread t).stores K = K := fun t _ => by rw [hd t]; rfl
    rw [hcounter, h.stores, Finset.sum_const_nat hall, Finset.card_univ, Fintype.card_fin,
      Int.natCast_mul]
  · exact h.mutex.eq_unlocked fun t => by rw [hd t]; rfl

/-- Two threads of one round each: the second one waits for the mutex meanwhile. -/
theorem two_threads_counted :
    ∃ s, (system 2 1).Reachable s ∧ (∀ t, s.thread t = .done) ∧ s.gCounter.toInt = 2 := by
  have h0 : (system 2 1).Reachable (State.initial 2) := .init rfl
  have hr := h0.run [0, 1, 0, 0, 0, 0, 1, 1, 0, 1, 1, 1] rfl
  refine ⟨_, hr, ?_, ((counter_loses_no_update 2 1 (by decide) hr).2.2.2 ?_).1⟩ <;> decide

end LearnLinux.Counter
