import LearnLinux.Lib.Transition
import Mathlib.Logic.Function.Basic
import Mathlib.Algebra.Order.Ring.Int

/-!
# The counting producer and consumer of `02_threads/thread_demo.c`

`producer2` and `consumer2` take the mutex once, before their loops, and give it up only
inside `pthread_cond_wait` and after the loops. One step of a thread is one statement of
its function; a parked thread is woken by the signal of the other one or spuriously, and
then waits for the mutex. Both loops run `n` times, 100 in the source.

`counting_pair_balanced`: the count is the number of increments minus the number of
decrements and stays between 0 and 11, some thread can go on until both have returned,
and the count is 0 then.
-/

namespace LearnLinux.CondCount

open Transition

/-! ## The threads -/

inductive Side where
  | producer
  | consumer
  deriving DecidableEq, Repr

def Side.other : Side → Side
  | .producer => .consumer
  | .consumer => .producer

/-- What the two functions do differently: the test of the `while` loop and the statement
behind it. Each waits on its own condition and signals that of the other. -/
structure Body where
  waits : Int → Bool
  update : Int → Int

def producer2 : Body := ⟨fun count => count > 10, fun count => count + 1⟩

def consumer2 : Body := ⟨fun count => count = 0, fun count => count - 1⟩

def body : Side → Body
  | .producer => producer2
  | .consumer => consumer2

/-- The next statement of a thread. `parked` and `woken` are inside `pthread_cond_wait`. -/
inductive Pc where
  | lock
  | loop
  | test
  | parked
  | woken
  | update
  | signal
  | unlock
  | done
  deriving DecidableEq, Repr

/-- The thread holds the mutex. -/
def Pc.holds : Pc → Bool
  | .loop | .test | .update | .signal | .unlock => true
  | .lock | .parked | .woken | .done => false

/-- The thread is in a round of its loop. -/
def Pc.inRound : Pc → Bool
  | .test | .parked | .woken | .update | .signal => true
  | .lock | .loop | .unlock | .done => false

/-- The thread has left its loop. -/
def Pc.over : Pc → Bool
  | .unlock | .done => true
  | _ => false

/-- The loop variable, and how many times the count was changed. -/
structure Thread where
  pc : Pc
  i : Nat
  updates : Nat
  deriving DecidableEq, Repr

/-- `MyConflictHandler`, with the holder of the mutex, and the threads. -/
structure State where
  count : Int
  mutex : Option Side
  thread : Side → Thread

def State.initial : State := ⟨0, none, fun _ => ⟨.lock, 0, 0⟩⟩

/-- The thread `t` is at `pc` next. -/
def State.goto (s : State) (t : Side) (pc : Pc) : Side → Thread :=
  Function.update s.thread t { s.thread t with pc := pc }

/-- `pthread_cond_signal` on the condition of `t`, who is the only one to wait on it. -/
def State.wake (s : State) (t : Side) : Side → Thread :=
  if (s.thread t).pc = .parked then s.goto t .woken else s.thread

inductive Act where
  | run (t : Side)
  | spurious (t : Side)

inductive Step (n : Nat) : Act → State → State → Prop
  | lock {s : State} {t : Side} : (s.thread t).pc = .lock → s.mutex = none →
      Step n (.run t) s { s with mutex := some t, thread := s.goto t .loop }
  | enter {s : State} {t : Side} : (s.thread t).pc = .loop → (s.thread t).i < n →
      Step n (.run t) s { s with thread := s.goto t .test }
  | leave {s : State} {t : Side} : (s.thread t).pc = .loop → ¬ (s.thread t).i < n →
      Step n (.run t) s { s with thread := s.goto t .unlock }
  | wait {s : State} {t : Side} : (s.thread t).pc = .test → (body t).waits s.count = true →
      Step n (.run t) s { s with mutex := none, thread := s.goto t .parked }
  | pass {s : State} {t : Side} : (s.thread t).pc = .test → (body t).waits s.count = false →
      Step n (.run t) s { s with thread := s.goto t .update }
  | resume {s : State} {t : Side} : (s.thread t).pc = .woken → s.mutex = none →
      Step n (.run t) s { s with mutex := some t, thread := s.goto t .test }
  | update {s : State} {t : Side} : (s.thread t).pc = .update →
      Step n (.run t) s
        { s with
          count := (body t).update s.count
          thread := Function.update s.thread t
            { s.thread t with pc := .signal, updates := (s.thread t).updates + 1 } }
  | signal {s : State} {t : Side} : (s.thread t).pc = .signal →
      Step n (.run t) s
        { s with
          thread := Function.update (s.wake t.other) t
            { s.thread t with pc := .loop, i := (s.thread t).i + 1 } }
  | unlock {s : State} {t : Side} : (s.thread t).pc = .unlock →
      Step n (.run t) s { s with mutex := none, thread := s.goto t .done }
  | spurious {s : State} {t : Side} : (s.thread t).pc = .parked →
      Step n (.spurious t) s { s with thread := s.goto t .woken }

/-- Both threads at their start, with the handler of `demo_cond_var2`. -/
def system (n : Nat) : System Act State where
  init s := s = State.initial
  step := Step n

/-! ## The mutex -/

theorem other_ne (t : Side) : t.other ≠ t := by cases t <;> decide

theorem eq_other_of_ne {t u : Side} (h : u ≠ t) : u = t.other := by
  cases t <;> cases u <;> first | rfl | exact absurd rfl h

theorem other_eq_of_ne {t u : Side} (h : u ≠ t) : u.other = t :=
  (eq_other_of_ne h.symm).symm

theorem goto_self (s : State) (t : Side) (pc : Pc) :
    s.goto t pc t = { s.thread t with pc := pc } :=
  Function.update_self _ _ _

theorem goto_other (s : State) {t u : Side} (pc : Pc) (h : u ≠ t) : s.goto t pc u = s.thread u :=
  Function.update_of_ne h _ _

/-- What holds of every thread once `t` has moved. -/
theorem goto_forall {s : State} {t : Side} {pc : Pc} {P : Side → Thread → Prop}
    (ht : P t { s.thread t with pc := pc }) (h : ∀ u, u ≠ t → P u (s.thread u)) (u : Side) :
    P u (s.goto t pc u) :=
  (Function.forall_update_iff s.thread P).mpr ⟨ht, h⟩ u

/-- A thread at `pc` is not the one that has just moved somewhere else. -/
theorem at_of_update {thread : Side → Thread} {t u : Side} {th : Thread} {pc : Pc}
    (hu : (Function.update thread t th u).pc = pc) (hth : th.pc ≠ pc) :
    u ≠ t ∧ (thread u).pc = pc := by
  have hut : u ≠ t := by
    rintro rfl
    rw [Function.update_self] at hu
    exact hth hu
  rw [Function.update_of_ne hut] at hu
  exact ⟨hut, hu⟩

/-- A signal changes where the other thread is, and only if it is parked. -/
theorem wake_cases (s : State) (t : Side) :
    s.wake t t = s.thread t ∧ (s.thread t).pc ≠ .parked ∨
      s.wake t t = { s.thread t with pc := .woken } ∧ (s.thread t).pc = .parked := by
  unfold State.wake
  split
  · next h => exact Or.inr ⟨goto_self s t _, h⟩
  · next h => exact Or.inl ⟨rfl, h⟩

/-- The mutex is held by the thread that is between taking it and giving it up. -/
def State.Exclusive (s : State) : Prop := ∀ t, s.mutex = some t ↔ (s.thread t).pc.holds = true

section Exclusive

variable {s : State} {t : Side}

theorem exclusive_take (h : s.Exclusive) (hm : s.mutex = none) {pc : Pc} (hpc : pc.holds = true) :
    State.Exclusive { s with mutex := some t, thread := s.goto t pc } := by
  intro u
  by_cases hu : u = t
  · subst hu
    simp only [goto_self, hpc]
  · have hfree := h u
    rw [hm] at hfree
    simp only [goto_other s pc hu, ← hfree]
    constructor
    · intro he
      exact absurd (Option.some.inj he).symm hu
    · intro he
      cases he

theorem exclusive_give (h : s.Exclusive) (ht : (s.thread t).pc.holds = true) {pc : Pc}
    (hpc : pc.holds = false) :
    State.Exclusive { s with mutex := none, thread := s.goto t pc } := by
  intro u
  by_cases hu : u = t
  · subst hu
    simp only [goto_self, hpc, reduceCtorEq, Bool.false_eq_true]
  · have hheld := h u
    rw [(h t).mpr ht] at hheld
    simp only [goto_other s pc hu, ← hheld, reduceCtorEq, false_iff]
    intro he
    exact hu (Option.some.inj he).symm

/-- Nobody takes the mutex or gives it up. -/
theorem exclusive_stay (h : s.Exclusive) {count : Int} {thread : Side → Thread}
    (hsame : ∀ u, (thread u).pc.holds = (s.thread u).pc.holds) :
    State.Exclusive ⟨count, s.mutex, thread⟩ := by
  intro u
  rw [hsame u]
  exact h u

theorem goto_holds {pc : Pc} (hpc : pc.holds = (s.thread t).pc.holds) (u : Side) :
    (s.goto t pc u).pc.holds = (s.thread u).pc.holds :=
  goto_forall (P := fun u th => th.pc.holds = (s.thread u).pc.holds) hpc (fun _ _ => rfl) u

theorem wake_holds (u : Side) : (s.wake t u).pc.holds = (s.thread u).pc.holds := by
  unfold State.wake
  split
  · next h => exact goto_holds (by rw [h]; rfl) u
  · rfl

theorem step_exclusive {n : Nat} {a : Act} {s' : State} (hs : Step n a s s') (h : s.Exclusive) :
    s'.Exclusive := by
  cases hs with
  | lock _ hm => exact exclusive_take h hm rfl
  | enter hpc _ => exact exclusive_stay h (goto_holds (by rw [hpc]; rfl))
  | leave hpc _ => exact exclusive_stay h (goto_holds (by rw [hpc]; rfl))
  | wait hpc _ => exact exclusive_give h (by rw [hpc]; rfl) rfl
  | pass hpc _ => exact exclusive_stay h (goto_holds (by rw [hpc]; rfl))
  | resume _ hm => exact exclusive_take h hm rfl
  | update hpc =>
    refine exclusive_stay h ((Function.forall_update_iff s.thread
      fun u th => th.pc.holds = (s.thread u).pc.holds).mpr ⟨?_, fun _ _ => rfl⟩)
    rw [hpc]
    rfl
  | signal hpc =>
    refine exclusive_stay h ((Function.forall_update_iff (s.wake _)
      fun u th => th.pc.holds = (s.thread u).pc.holds).mpr ⟨?_, fun u _ => wake_holds u⟩)
    rw [hpc]
    rfl
  | unlock hpc => exact exclusive_give h (by rw [hpc]; rfl) rfl
  | spurious hpc => exact exclusive_stay h (goto_holds (by rw [hpc]; rfl))

/-- While one thread holds the mutex the other one does not. -/
theorem State.Exclusive.other (h : s.Exclusive) (ht : (s.thread t).pc.holds = true) :
    (s.thread t.other).pc.holds = false := by
  cases hu : (s.thread t.other).pc.holds with
  | false => rfl
  | true =>
    have hm := (h t.other).mpr hu
    rw [(h t).mpr ht] at hm
    exact absurd (Option.some.inj hm).symm (other_ne t)

end Exclusive

/-! ## Rounds and count -/

/-- How far the loop is, by the next statement. -/
structure Thread.Rounds (n : Nat) (th : Thread) : Prop where
  updates : th.updates = th.i + (if th.pc = .signal then 1 else 0)
  bound : th.i ≤ n
  inside : th.pc.inRound = true → th.i < n
  after : th.pc.over = true → th.i = n

/-- A thread that moves on in its round. -/
theorem Thread.Rounds.move {n : Nat} {th : Thread} (h : th.Rounds n) {pc : Pc} (hsig : th.pc ≠ .signal)
    (hpc : pc ≠ .signal) (hin : pc.inRound = true → th.i < n) (hafter : pc.over = true → th.i = n) :
    ({ th with pc := pc } : Thread).Rounds n := by
  have hu := h.updates
  rw [if_neg hsig] at hu
  refine ⟨?_, h.bound, hin, hafter⟩
  simp only [if_neg hpc]
  exact hu

theorem goto_rounds {n : Nat} {s : State} (h : ∀ u, (s.thread u).Rounds n) {t : Side} {pc : Pc}
    (ht : ({ s.thread t with pc := pc } : Thread).Rounds n) : ∀ u, (s.goto t pc u).Rounds n :=
  goto_forall (P := fun _ th => th.Rounds n) ht fun u _ => h u

/-- Moves between the statements of one round. -/
theorem goto_round {n : Nat} {s : State} (h : ∀ u, (s.thread u).Rounds n) {t : Side} {p q : Pc}
    (hpc : (s.thread t).pc = p) (hp : p.inRound = true ∧ p ≠ .signal)
    (hq : q.over = false ∧ q ≠ .signal) : ∀ u, (s.goto t q u).Rounds n := by
  have hin : (s.thread t).i < n := (h t).inside (by rw [hpc]; exact hp.1)
  refine goto_rounds h ((h t).move (by rw [hpc]; exact hp.2) hq.2 (fun _ => hin) ?_)
  intro hover
  rw [hq.1] at hover
  cases hover

theorem wake_rounds {n : Nat} {s : State} (h : ∀ u, (s.thread u).Rounds n) (t : Side) :
    ∀ u, (s.wake t u).Rounds n := by
  unfold State.wake
  split
  · next hp => exact goto_round h hp (by decide) (by decide)
  · exact h

theorem step_rounds {n : Nat} {a : Act} {s s' : State} (hs : Step n a s s')
    (h : ∀ u, (s.thread u).Rounds n) : ∀ u, (s'.thread u).Rounds n := by
  cases hs with
  | @lock _ t hpc _ =>
    exact goto_rounds h ((h t).move (by rw [hpc]; decide) (by decide) nofun nofun)
  | @enter _ t hpc hi =>
    exact goto_rounds h ((h t).move (by rw [hpc]; decide) (by decide) (fun _ => hi) nofun)
  | @leave _ t hpc hi =>
    have hn : (s.thread t).i = n := Nat.le_antisymm (h t).bound (Nat.le_of_not_lt hi)
    exact goto_rounds h ((h t).move (by rw [hpc]; decide) (by decide) nofun (fun _ => hn))
  | wait hpc _ => exact goto_round h hpc (by decide) (by decide)
  | pass hpc _ => exact goto_round h hpc (by decide) (by decide)
  | resume hpc _ => exact goto_round h hpc (by decide) (by decide)
  | @update _ t hpc =>
    have hin : (s.thread t).i < n := (h t).inside (by rw [hpc]; rfl)
    have hup := (h t).updates
    rw [hpc] at hup
    refine (Function.forall_update_iff s.thread fun _ th => th.Rounds n).mpr
      ⟨⟨?_, (h t).bound, fun _ => hin, nofun⟩, fun u _ => h u⟩
    simp only [if_true, hup]
    rfl
  | @signal _ t hpc =>
    have hin : (s.thread t).i < n := (h t).inside (by rw [hpc]; rfl)
    have hup := (h t).updates
    rw [hpc] at hup
    refine (Function.forall_update_iff (s.wake t.other) fun _ th => th.Rounds n).mpr
      ⟨⟨?_, hin, nofun, nofun⟩, fun u _ => wake_rounds h _ u⟩
    simp only [hup]
    rfl
  | @unlock _ t hpc =>
    have hn : (s.thread t).i = n := (h t).after (by rw [hpc]; rfl)
    exact goto_rounds h ((h t).move (by rw [hpc]; decide) (by decide) nofun (fun _ => hn))
  | spurious hpc => exact goto_round h hpc (by decide) (by decide)

theorem goto_updates (s : State) (t : Side) (pc : Pc) (u : Side) :
    (s.goto t pc u).updates = (s.thread u).updates := by
  refine goto_forall (P := fun u th => th.updates = (s.thread u).updates) ?_ (fun _ _ => rfl) u
  rfl

theorem wake_updates (s : State) (t u : Side) : (s.wake t u).updates = (s.thread u).updates := by
  unfold State.wake
  split
  · exact goto_updates s t _ u
  · rfl

/-- The count is what was added to it less what was taken off. -/
def State.Account (s : State) : Prop :=
  s.count = (s.thread .producer).updates - (s.thread .consumer).updates

theorem account_stay {s : State} (h : s.Account) {mutex : Option Side} {thread : Side → Thread}
    (hsame : ∀ u, (thread u).updates = (s.thread u).updates) :
    State.Account ⟨s.count, mutex, thread⟩ := by
  unfold State.Account at *
  rw [hsame, hsame]
  exact h

theorem step_account {n : Nat} {a : Act} {s s' : State} (hs : Step n a s s') (h : s.Account) :
    s'.Account := by
  cases hs with
  | @update _ t hpc =>
    unfold State.Account at *
    have hne : Side.consumer ≠ .producer := by decide
    cases t with
    | producer =>
      simp only [body, producer2, Function.update_self, Function.update_of_ne hne, Nat.cast_add, h]
      omega
    | consumer =>
      simp only [body, consumer2, Function.update_self, Function.update_of_ne hne.symm,
        Nat.cast_add, h]
      omega
  | signal =>
    exact account_stay h ((Function.forall_update_iff (s.wake _)
      fun u th => th.updates = (s.thread u).updates).mpr ⟨rfl, fun u _ => wake_updates s _ u⟩)
  | lock | enter | leave | wait | pass | resume | unlock | spurious =>
    exact account_stay h (goto_updates s _ _)

/-! ## Tests and wakeups -/

/-- The mutex, the rounds and the count; a thread behind its test can rely on it, and a
parked thread has a reason to be, or the other one is about to signal. -/
structure State.Balanced (n : Nat) (s : State) : Prop where
  exclusive : s.Exclusive
  rounds : ∀ t, (s.thread t).Rounds n
  account : s.Account
  bounds : 0 ≤ s.count ∧ s.count ≤ 11
  tested : ∀ t, (s.thread t).pc = .update → (body t).waits s.count = false
  attended : ∀ t, (s.thread t).pc = .parked →
    (body t).waits s.count = true ∨ (s.thread t.other).pc = .signal

section Balanced

variable {n : Nat} {s : State} {t : Side}

/-- One update from inside the range stays in the range. -/
theorem update_bounds (h : 0 ≤ s.count ∧ s.count ≤ 11) (ht : (body t).waits s.count = false) :
    0 ≤ (body t).update s.count ∧ (body t).update s.count ≤ 11 := by
  cases t with
  | producer =>
    simp only [body, producer2, decide_eq_false_iff_not] at ht ⊢
    omega
  | consumer =>
    simp only [body, consumer2, decide_eq_false_iff_not] at ht ⊢
    omega

theorem step_bounds {a : Act} {s' : State} (hs : Step n a s s') (h : s.Balanced n) :
    0 ≤ s'.count ∧ s'.count ≤ 11 := by
  cases hs with
  | @update _ t hpc => exact update_bounds h.bounds (h.tested t hpc)
  | lock | enter | leave | wait | pass | resume | signal | unlock | spurious => exact h.bounds

theorem goto_tested {pc : Pc} (h : ∀ u, (s.thread u).pc = .update → (body u).waits s.count = false)
    (ht : pc = .update → (body t).waits s.count = false) :
    ∀ u, (s.goto t pc u).pc = .update → (body u).waits s.count = false :=
  goto_forall (P := fun u th => th.pc = .update → (body u).waits s.count = false) ht fun u _ => h u

theorem step_tested {a : Act} {s' : State} (hs : Step n a s s') (h : s.Balanced n) :
    ∀ u, (s'.thread u).pc = .update → (body u).waits s'.count = false := by
  cases hs with
  | pass _ hw => exact goto_tested h.tested fun _ => hw
  | @update _ t hpc =>
    intro u hu
    obtain ⟨hut, hu⟩ := at_of_update hu nofun
    -- the count changes only while the other thread is outside
    have hother := h.exclusive.other (t := t) (by rw [hpc]; rfl)
    rw [← eq_other_of_ne hut, hu] at hother
    cases hother
  | @signal _ t hpc =>
    intro u hu
    obtain ⟨-, hu⟩ := at_of_update hu nofun
    unfold State.wake at hu
    split at hu
    · refine goto_tested h.tested ?_ u hu
      exact nofun
    · exact h.tested u hu
  | lock | enter | leave | wait | resume | unlock | spurious => exact goto_tested h.tested nofun

/-- A move of a thread that was not about to signal, and parks only for a reason. -/
theorem goto_attended {pc : Pc}
    (h : ∀ u, (s.thread u).pc = .parked →
      (body u).waits s.count = true ∨ (s.thread u.other).pc = .signal)
    (hsig : (s.thread t).pc ≠ .signal) (ht : pc = .parked → (body t).waits s.count = true) :
    ∀ u, (s.goto t pc u).pc = .parked →
      (body u).waits s.count = true ∨ (s.goto t pc u.other).pc = .signal := by
  intro u hpc
  by_cases hu : u = t
  · subst hu
    rw [goto_self] at hpc
    exact Or.inl (ht hpc)
  · rw [goto_other s pc hu] at hpc
    rcases h u hpc with hw | hs
    · exact Or.inl hw
    · rw [other_eq_of_ne hu] at hs
      exact absurd hs hsig

theorem step_attended {a : Act} {s' : State} (hs : Step n a s s') (h : s.Balanced n) :
    ∀ u, (s'.thread u).pc = .parked →
      (body u).waits s'.count = true ∨ (s'.thread u.other).pc = .signal := by
  cases hs with
  | wait hpc hw => exact goto_attended h.attended (by rw [hpc]; decide) fun _ => hw
  | @update _ t hpc =>
    intro u hu
    obtain ⟨hut, -⟩ := at_of_update hu nofun
    rw [other_eq_of_ne hut]
    exact Or.inr (by simp only [Function.update_self])
  | @signal _ t hpc =>
    intro u hu
    obtain ⟨hut, hu⟩ := at_of_update hu nofun
    -- the signal has woken the thread
    rw [eq_other_of_ne hut] at hu
    rcases wake_cases s t.other with ⟨hw, hne⟩ | ⟨hw, -⟩
    · rw [hw] at hu
      exact absurd hu hne
    · rw [hw] at hu
      cases hu
  | lock hpc _ | enter hpc _ | leave hpc _ | pass hpc _ | resume hpc _ | unlock hpc | spurious hpc =>
    exact goto_attended h.attended (by rw [hpc]; decide) nofun

theorem step_balanced {a : Act} {s' : State} (hs : Step n a s s') (h : s.Balanced n) :
    s'.Balanced n :=
  ⟨step_exclusive hs h.exclusive, step_rounds hs h.rounds, step_account hs h.account,
    step_bounds hs h, step_tested hs h, step_attended hs h⟩

theorem reachable_balanced (hr : (system n).Reachable s) : s.Balanced n := by
  induction hr with
  | init hi =>
    cases hi
    refine ⟨?_, fun _ => ⟨rfl, Nat.zero_le _, nofun, nofun⟩, rfl, by decide, nofun, nofun⟩
    intro t
    simp [State.initial, Pc.holds]
  | next _ hs ih => exact step_balanced hs ih

/-! ## No deadlock -/

/-- The holder of the mutex can go on. -/
theorem holder_runs (n : Nat) (h : (s.thread t).pc.holds = true) :
    ∃ s', Step n (.run t) s s' := by
  cases hpc : (s.thread t).pc with
  | loop =>
    by_cases hi : (s.thread t).i < n
    · exact ⟨_, .enter hpc hi⟩
    · exact ⟨_, .leave hpc hi⟩
  | test =>
    cases hw : (body t).waits s.count with
    | true => exact ⟨_, .wait hpc hw⟩
    | false => exact ⟨_, .pass hpc hw⟩
  | update => exact ⟨_, .update hpc⟩
  | signal => exact ⟨_, .signal hpc⟩
  | unlock => exact ⟨_, .unlock hpc⟩
  | lock | parked | woken | done =>
    rw [hpc] at h
    cases h

/-- With the mutex free, a thread that cannot go on is parked or has returned. -/
theorem free_runs (n : Nat) (hm : s.mutex = none)
    (hp : (s.thread t).pc ≠ .parked) (hd : (s.thread t).pc ≠ .done) :
    ∃ s', Step n (.run t) s s' := by
  cases hpc : (s.thread t).pc with
  | lock => exact ⟨_, .lock hpc hm⟩
  | woken => exact ⟨_, .resume hpc hm⟩
  | parked => exact absurd hpc hp
  | done => exact absurd hpc hd
  | loop | test | update | signal | unlock => exact holder_runs n (by rw [hpc]; rfl)

/-- A parked thread has a partner that can still change the count. -/
theorem parked_partner (h : s.Balanced n) (hp : (s.thread t).pc = .parked) :
    (s.thread t.other).pc ≠ .parked ∧ (s.thread t.other).pc ≠ .done := by
  have hin : (s.thread t).i < n := (h.rounds t).inside (by rw [hp]; rfl)
  have hup := (h.rounds t).updates
  rw [hp, if_neg (by decide)] at hup
  have hacc : s.count = _ := h.account
  constructor
  · -- the two tests exclude each other
    intro hp'
    have hw : (body t).waits s.count = true :=
      (h.attended t hp).resolve_right (by rw [hp']; decide)
    have hw' : (body t.other).waits s.count = true := by
      refine (h.attended t.other hp').resolve_right ?_
      rw [other_eq_of_ne (other_ne t), hp]
      decide
    cases t <;> simp only [body, Side.other, producer2, consumer2, decide_eq_true_eq] at hw hw' <;>
      omega
  · -- the partner has made all its changes, the thread has not
    intro hd
    have hw : (body t).waits s.count = true :=
      (h.attended t hp).resolve_right (by rw [hd]; decide)
    have hup' := (h.rounds t.other).updates
    rw [hd, if_neg (by decide), (h.rounds t.other).after (by rw [hd]; rfl)] at hup'
    cases t <;> simp only [body, Side.other, producer2, consumer2, decide_eq_true_eq] at hw hup' <;>
      omega

theorem some_thread_runs (h : s.Balanced n) (hd : ∃ t, (s.thread t).pc ≠ .done) :
    ∃ t s', Step n (.run t) s s' := by
  cases hm : s.mutex with
  | some t =>
    obtain ⟨s', hs⟩ := holder_runs n ((h.exclusive t).mp hm)
    exact ⟨t, s', hs⟩
  | none =>
    obtain ⟨t, ht⟩ := hd
    by_cases hp : (s.thread t).pc = .parked
    · obtain ⟨hp', hd'⟩ := parked_partner h hp
      obtain ⟨s', hs⟩ := free_runs n hm hp' hd'
      exact ⟨t.other, s', hs⟩
    · obtain ⟨s', hs⟩ := free_runs n hm hp ht
      exact ⟨t, s', hs⟩

end Balanced

/-- The thread is parked without a pending wakeup, or waits for a mutex that is held by
a parked or finished thread. -/
def State.Blocked (s : State) (t : Side) : Prop :=
  (s.thread t).pc = .parked ∨
    ((s.thread t).pc = .lock ∨ (s.thread t).pc = .woken) ∧
      ∃ u, s.mutex = some u ∧ ((s.thread u).pc = .parked ∨ (s.thread u).pc = .done)

theorem not_blocked_of_step {n : Nat} {s s' : State} {t : Side} (hs : Step n (.run t) s s') :
    (s.thread t).pc ≠ .done ∧ ¬ s.Blocked t := by
  unfold State.Blocked
  cases hs with
  | lock hpc hm | resume hpc hm =>
    rw [hpc, hm]
    exact ⟨by decide, by simp⟩
  | enter hpc _ | leave hpc _ | wait hpc _ | pass hpc _ | update hpc | signal hpc | unlock hpc =>
    rw [hpc]
    exact ⟨by decide, by simp⟩

/-- **The counting pair stays bounded and finishes balanced**, for every number of rounds
and every interleaving with spurious wakeups. -/
theorem counting_pair_balanced (n : Nat) {s : State} (hr : (system n).Reachable s) :
    s.count = (s.thread .producer).updates - (s.thread .consumer).updates ∧
    (0 ≤ s.count ∧ s.count ≤ 11) ∧
    ((∃ t, (s.thread t).pc ≠ .done) →
      (∃ t, (s.thread t).pc ≠ .done ∧ ¬ s.Blocked t) ∧ ∃ t s', Step n (.run t) s s') ∧
    ((∀ t, (s.thread t).pc = .done) → s.count = 0) := by
  have h := reachable_balanced hr
  refine ⟨h.account, h.bounds, ?_, ?_⟩
  · intro hd
    obtain ⟨t, s', hs⟩ := some_thread_runs h hd
    exact ⟨⟨t, not_blocked_of_step hs⟩, t, s', hs⟩
  · intro hd
    have hn : ∀ t, (s.thread t).updates = n := by
      intro t
      rw [(h.rounds t).updates, hd t, if_neg (by decide), (h.rounds t).after (by rw [hd t]; rfl),
        Nat.add_zero]
    rw [h.account, hn, hn, Int.sub_self]

/-- The consumer comes first and parks, the producer wakes it, and both return. -/
theorem consumer_first :
    ∃ s, (system 1).Reachable s ∧ (∀ t, (s.thread t).pc = .done) ∧ s.count = 0 := by
  have h0 : (system 1).Reachable State.initial := .init rfl
  have h1 := h0.next (@Step.lock 1 _ .consumer rfl rfl)
  have h2 := h1.next (@Step.enter 1 _ .consumer rfl (by decide))
  have h3 := h2.next (@Step.wait 1 _ .consumer rfl rfl)
  have h4 := h3.next (@Step.lock 1 _ .producer rfl rfl)
  have h5 := h4.next (@Step.enter 1 _ .producer rfl (by decide))
  have h6 := h5.next (@Step.pass 1 _ .producer rfl rfl)
  have h7 := h6.next (@Step.update 1 _ .producer rfl)
  have h8 := h7.next (@Step.signal 1 _ .producer rfl)
  have h9 := h8.next (@Step.leave 1 _ .producer rfl (by decide))
  have h10 := h9.next (@Step.unlock 1 _ .producer rfl)
  have h11 := h10.next (@Step.resume 1 _ .consumer rfl rfl)
  have h12 := h11.next (@Step.pass 1 _ .consumer rfl rfl)
  have h13 := h12.next (@Step.update 1 _ .consumer rfl)
  have h14 := h13.next (@Step.signal 1 _ .consumer rfl)
  have h15 := h14.next (@Step.leave 1 _ .consumer rfl (by decide))
  have h16 := h15.next (@Step.unlock 1 _ .consumer rfl)
  refine ⟨_, h16, ?_, (counting_pair_balanced 1 h16).2.2.2 ?_⟩ <;> intro t <;> cases t <;> rfl

end LearnLinux.CondCount
