import LearnLinux.Lib.Census
import LearnLinux.Lib.Fifo
import LearnLinux.Lib.RingBuffer
import LearnLinux.Lib.Transition

/-!
# The mutex and condition-variable queue of `02_threads/thread_demo.c`

`queuePush` and `queuePop` are the critical sections of `queue_push` and
`queue_pop`, from taking `q->lock` to giving it up: `none` means that the `while`
test holds and the lock is given up inside `pthread_cond_wait`. A thread that
comes back from the wait runs the same section again, which is the `while` loop.

The threads are any family of programs over the queue. A parked thread leaves the
wait queue by a signal or spuriously; it is then woken and takes the lock at any
later time, after any number of other threads. `pthread_cond_signal` wakes at least
one thread if any is parked.

* `queue_linearizable`: the ring invariant, and the values popped so far followed
  by the contents are the values pushed so far, both in lock order.
* `no_lost_wakeup`: with one signal per operation, a parked consumer is matched by
  woken consumers for every item, and a parked producer by woken producers for
  every free slot.
-/

namespace LearnLinux.CondQueue

open Census Fifo RingBuffer Transition

/-! ## The queue -/

/-- `QUEUE_SIZE`. -/
def queueSize : Nat := 8

/-- `Queue`. The mutex and the two conditions are in the thread states below. The
source stores `int`; nothing here depends on the element type. -/
structure Queue (α : Type*) where
  data : Nat → α
  head : Nat
  tail : Nat
  count : Int

/-- One critical section of `queue_push`. -/
def queuePush {α : Type*} (q : Queue α) (val : α) : Option (Queue α) :=
  if q.count = queueSize then none
  else some
    { data := Function.update q.data q.tail val
      head := q.head
      tail := (q.tail + 1) % queueSize
      count := q.count + 1 }

/-- One critical section of `queue_pop`. -/
def queuePop {α : Type*} (q : Queue α) : Option (α × Queue α) :=
  if q.count = 0 then none
  else some (q.data q.head,
    { data := q.data
      head := (q.head + 1) % queueSize
      tail := q.tail
      count := q.count - 1 })

/-! ## Threads -/

/-- What a thread does next: one of the two operations, a line of output, or return. -/
inductive Op (α β σ : Type*) where
  | push (val : α) (next : σ)
  | pop (next : α → σ)
  | print (line : β) (next : σ)
  | ret

/-- The two condition variables. -/
inductive Cond where
  | notFull
  | notEmpty
  deriving DecidableEq, Repr

/-- The condition an operation waits on. -/
def Op.cond {α β σ : Type*} : Op α β σ → Option Cond
  | .push _ _ => some .notFull
  | .pop _ => some .notEmpty
  | .print _ _ => none
  | .ret => none

/-- A thread at program location `l`: outside the queue code or asking for the lock,
in `pthread_cond_wait`, or back from it without the lock. -/
inductive Phase (σ : Type*) where
  | ready (l : σ)
  | parked (l : σ)
  | woken (l : σ)

section Threads

variable {ι α β σ : Type*} [DecidableEq ι] (op : σ → Op α β σ)

def Phase.isParked (c : Cond) : Phase σ → Bool
  | .parked l => (op l).cond == some c
  | _ => false

/-- Woken by a signal or spuriously, and not yet back in the critical section. -/
def Phase.isWoken (c : Cond) : Phase σ → Bool
  | .woken l => (op l).cond == some c
  | _ => false

/-- The thread has returned. -/
def Phase.Finished : Phase σ → Prop
  | .ready l => op l = .ret
  | _ => False

/-- The queue, the threads, and in lock order what was pushed and popped and by
whom; `out` is the standard output. -/
structure State (ι α β σ : Type*) where
  q : Queue α
  thread : ι → Phase σ
  pushed : List (ι × α)
  popped : List (ι × α)
  out : List (ι × β)

/-- A statically initialised queue with arbitrary slots, every thread at its start. -/
def State.initial (data : Nat → α) (entry : ι → σ) : State ι α β σ where
  q := { data := data, head := 0, tail := 0, count := 0 }
  thread t := .ready (entry t)
  pushed := []
  popped := []
  out := []

/-- `pthread_cond_signal` on `c` may wake exactly the threads in `W`. -/
def Signals (c : Cond) (thread : ι → Phase σ) (W : Finset ι) : Prop :=
  (∀ t ∈ W, (thread t).isParked op c = true) ∧
    ((∃ t, (thread t).isParked op c = true) → W.Nonempty)

def Phase.wake : Phase σ → Phase σ
  | .parked l => .woken l
  | ph => ph

def wakeAll (W : Finset ι) (thread : ι → Phase σ) : ι → Phase σ :=
  fun t => if t ∈ W then (thread t).wake else thread t

/-- The thread `t` takes the lock for the operation at `l`. -/
def State.Enters (s : State ι α β σ) (t : ι) (l : σ) : Prop :=
  s.thread t = .ready l ∨ s.thread t = .woken l

inductive Act (ι : Type*) where
  | run (t : ι)
  | spurious (t : ι)

inductive Step : Act ι → State ι α β σ → State ι α β σ → Prop
  | pushWait {s : State ι α β σ} {t : ι} {l next : σ} {val : α} :
      s.Enters t l → op l = .push val next → queuePush s.q val = none →
      Step (.run t) s { s with thread := Function.update s.thread t (.parked l) }
  | push {s : State ι α β σ} {t : ι} {l next : σ} {val : α} {q : Queue α} (W : Finset ι) :
      s.Enters t l → op l = .push val next → queuePush s.q val = some q →
      Signals op .notEmpty s.thread W →
      Step (.run t) s
        { s with
          q := q
          thread := Function.update (wakeAll W s.thread) t (.ready next)
          pushed := s.pushed ++ [(t, val)] }
  | popWait {s : State ι α β σ} {t : ι} {l : σ} {next : α → σ} :
      s.Enters t l → op l = .pop next → queuePop s.q = none →
      Step (.run t) s { s with thread := Function.update s.thread t (.parked l) }
  | pop {s : State ι α β σ} {t : ι} {l : σ} {next : α → σ} {val : α} {q : Queue α}
      (W : Finset ι) :
      s.Enters t l → op l = .pop next → queuePop s.q = some (val, q) →
      Signals op .notFull s.thread W →
      Step (.run t) s
        { s with
          q := q
          thread := Function.update (wakeAll W s.thread) t (.ready (next val))
          popped := s.popped ++ [(t, val)] }
  | print {s : State ι α β σ} {t : ι} {l next : σ} {line : β} :
      s.thread t = .ready l → op l = .print line next →
      Step (.run t) s
        { s with
          thread := Function.update s.thread t (.ready next)
          out := s.out ++ [(t, line)] }
  | spurious {s : State ι α β σ} {t : ι} {l : σ} :
      s.thread t = .parked l →
      Step (.spurious t) s { s with thread := Function.update s.thread t (.woken l) }

/-- Threads that start at `entry` and share a queue whose slots start as `data`. -/
def system (data : Nat → α) (entry : ι → σ) : System (Act ι) (State ι α β σ) where
  init s := s = State.initial data entry
  step := Step op

end Threads

/-! ## The ring invariant -/

/-- `head`, `tail` and `count` describe one window of the ring. -/
structure Queue.Wf {α : Type*} (q : Queue α) : Prop where
  nonneg : 0 ≤ q.count
  fits : q.count ≤ queueSize
  head : q.head < queueSize
  tail : q.tail = (q.head + q.count.toNat) % queueSize

/-- `data[head], data[head + 1 mod QUEUE_SIZE], …`, `count` entries. -/
def Queue.contents {α : Type*} (q : Queue α) : List α :=
  window queueSize q.data q.head q.count.toNat

/-- The bounded FIFO that a well-formed queue implements. -/
def Queue.fifo {α : Type*} (q : Queue α) (h : q.Wf) : Bounded α queueSize :=
  ⟨q.contents, by have := h.nonneg; have := h.fits; simp only [Queue.contents, length_window]; omega⟩

theorem queuePush_eq_none {α : Type*} {q : Queue α} {val : α} (h : queuePush q val = none) :
    q.count = queueSize := by
  unfold queuePush at h
  split at h
  · assumption
  · cases h

theorem queuePop_eq_none {α : Type*} {q : Queue α} (h : queuePop q = none) : q.count = 0 := by
  unfold queuePop at h
  split at h
  · assumption
  · cases h

/-- A push finds a free slot, keeps the ring, and is a `put` of the FIFO. -/
theorem queuePush_spec {α : Type*} {q q' : Queue α} {val : α} (h : q.Wf)
    (hp : queuePush q val = some q') :
    q.count < queueSize ∧ q'.count = q.count + 1 ∧
      ∃ h' : q'.Wf, Fifo.Step (q.fifo h) (.put [val]) (q'.fifo h') := by
  obtain ⟨hnonneg, hfits, hhead, htail⟩ := h
  unfold queuePush at hp
  split at hp
  · cases hp
  · rename_i hne
    cases hp
    have hlt : q.count < queueSize := by omega
    have hsucc : (q.count + 1).toNat = q.count.toNat + 1 := by omega
    refine ⟨hlt, rfl, ⟨by simp only; omega, by simp only; omega, hhead, ?_⟩, Step.put _ ?_⟩
    · simp only [hsucc, htail]
      rw [Nat.mod_add_mod, Nat.add_assoc]
    · simp only [Queue.fifo, Queue.contents, hsucc, htail]
      exact window_push q.data q.head q.count.toNat val (by omega)

/-- A pop returns the oldest entry, keeps the ring, and is a `get` of the FIFO. -/
theorem queuePop_spec {α : Type*} {q q' : Queue α} {val : α} (h : q.Wf)
    (hp : queuePop q = some (val, q')) :
    0 < q.count ∧ q'.count = q.count - 1 ∧
      ∃ h' : q'.Wf, Fifo.Step (q.fifo h) (.get [val]) (q'.fifo h') := by
  obtain ⟨hnonneg, hfits, hhead, htail⟩ := h
  unfold queuePop at hp
  split at hp
  · cases hp
  · rename_i hne
    cases hp
    obtain ⟨n, hn⟩ : ∃ n : Nat, q.count = n + 1 := ⟨(q.count - 1).toNat, by omega⟩
    have h1 : (q.count - 1).toNat = n := by omega
    have h2 : q.count.toNat = n + 1 := by omega
    refine ⟨by omega, rfl, ⟨by simp only; omega, by simp only; omega, ?_, ?_⟩, Step.get _ ?_⟩
    · exact Nat.mod_lt _ (by decide)
    · simp only [h1, htail, h2]
      rw [Nat.mod_add_mod, Nat.add_assoc, Nat.add_comm 1 n]
    · simp only [Queue.fifo, Queue.contents, h1, h2]
      exact window_pop q.data q.head n hhead

section Linearizable

variable {ι α β σ : Type*} {op : σ → Op α β σ}

/-- What was popped and pushed so far, in lock order. -/
def State.history (s : State ι α β σ) : History α :=
  ⟨s.popped.map Prod.snd, s.pushed.map Prod.snd⟩

/-- The ring is well formed and holds what the history leaves in it. -/
structure State.Linear (s : State ι α β σ) : Prop where
  wf : s.q.Wf
  law : s.history.Explains s.q.contents

theorem initial_linear (data : Nat → α) (entry : ι → σ) :
    (State.initial data entry : State ι α β σ).Linear :=
  ⟨⟨Int.le_refl _, Int.natCast_nonneg queueSize, Nat.zero_lt_succ 7, rfl⟩, rfl⟩

variable [DecidableEq ι]

theorem step_linear {a : Act ι} {s t : State ι α β σ} (hs : Step op a s t) (h : s.Linear) :
    t.Linear := by
  cases hs with
  | pushWait => exact ⟨h.wf, h.law⟩
  | push W _ _ hq _ =>
    obtain ⟨-, -, hwf, hstep⟩ := queuePush_spec h.wf hq
    have hlaw := step_explains hstep s.history h.law
    refine ⟨hwf, ?_⟩
    simpa [State.history, History.record, Queue.fifo] using hlaw
  | popWait => exact ⟨h.wf, h.law⟩
  | pop W _ _ hq _ =>
    obtain ⟨-, -, hwf, hstep⟩ := queuePop_spec h.wf hq
    have hlaw := step_explains hstep s.history h.law
    refine ⟨hwf, ?_⟩
    simpa [State.history, History.record, Queue.fifo] using hlaw
  | print => exact ⟨h.wf, h.law⟩
  | spurious => exact ⟨h.wf, h.law⟩

theorem reachable_linear {data : Nat → α} {entry : ι → σ} {s : State ι α β σ}
    (hr : (system op data entry).Reachable s) : s.Linear := by
  refine hr.invariant ?_ ?_
  · rintro s rfl
    exact initial_linear data entry
  · intro a s t h hs
    exact step_linear hs h

/-- A push stores to a slot that holds no unread value. -/
theorem queuePush_keeps_unread {q q' : Queue α} {val : α} (h : q.Wf)
    (hp : queuePush q val = some q') (i : Nat) (hi : i < q.count) :
    q'.data ((q.head + i) % queueSize) = q.data ((q.head + i) % queueSize) := by
  have hlt := (queuePush_spec h hp).1
  have hne := @tail_not_in_window queueSize q.head q.count.toNat i (by omega) (by omega)
  unfold queuePush at hp
  split at hp
  · cases hp
  · cases hp
    simp only [h.tail]
    exact Function.update_of_ne hne _ _

/-- Two consumers that park, and a producer that pushes 5. -/
def handoff : Nat → Op Int Unit Nat
  | 0 => .pop fun _ => 2
  | 1 => .push 5 2
  | _ => .ret

/-- Both consumers park, then the push wakes the first of them. -/
theorem handoff_reachable :
    ∃ s, (system handoff (fun _ => 0) fun t : Fin 3 => if t = 2 then 1 else 0).Reachable s ∧
      (s.thread 0).isWoken handoff .notEmpty = true ∧
      (s.thread 1).isParked handoff .notEmpty = true ∧ s.q.count = 1 := by
  have h0 : (system handoff (fun _ => 0) fun t : Fin 3 => if t = 2 then 1 else 0).Reachable
      (State.initial _ _) := .init rfl
  have h1 := h0.next (Step.popWait (t := 0) (Or.inl rfl) rfl rfl)
  have h2 := h1.next (Step.popWait (t := 1) (Or.inl rfl) rfl rfl)
  have h3 := h2.next (Step.push (t := 2) {0} (Or.inl rfl) rfl rfl ⟨by simp; rfl, fun _ => ⟨0, by simp⟩⟩)
  exact ⟨_, h3, rfl, rfl, rfl⟩

/-- **The queue is a linearizable bounded FIFO**, for every family of threads and
every interleaving of their critical sections. -/
theorem queue_linearizable (data : Nat → α) (entry : ι → σ) {s : State ι α β σ}
    (hr : (system op data entry).Reachable s) :
    (0 ≤ s.q.count ∧ s.q.count ≤ queueSize) ∧
    s.q.head < queueSize ∧ s.q.tail < queueSize ∧
    (s.q.tail : Int) = (s.q.head + s.q.count) % queueSize ∧
    s.popped.map Prod.snd ++ s.q.contents = s.pushed.map Prod.snd ∧
    (∀ val q', queuePush s.q val = some q' → ∀ i : Nat, i < s.q.count →
      q'.data ((s.q.head + i) % queueSize) = s.q.data ((s.q.head + i) % queueSize)) := by
  obtain ⟨hwf, hlaw⟩ := reachable_linear hr
  have hnonneg := hwf.nonneg
  have htail := hwf.tail
  refine ⟨⟨hnonneg, hwf.fits⟩, hwf.head, ?_, ?_, hlaw, ?_⟩
  · rw [htail]
    exact Nat.mod_lt _ (by decide)
  · have hcast : (s.q.head : Int) + s.q.count = ((s.q.head + s.q.count.toNat : Nat) : Int) := by
      omega
    rw [htail, hcast]
    rfl
  · intro val q' hp
    exact queuePush_keeps_unread hwf hp

theorem handoff_linearizable :
    ∃ s, (system handoff (fun _ => 0) fun t : Fin 3 => if t = 2 then 1 else 0).Reachable s ∧
      s.q.count = 1 ∧ s.popped.map Prod.snd ++ s.q.contents = s.pushed.map Prod.snd := by
  obtain ⟨s, hs, -, -, hc⟩ := handoff_reachable
  exact ⟨s, hs, hc, (queue_linearizable (fun _ => 0) _ hs).2.2.2.2.1⟩

end Linearizable

/-! ## Wakeups -/

section Wakeups

variable {ι α β σ : Type*} {op : σ → Op α β σ}

theorem Phase.isParked_iff {c : Cond} {ph : Phase σ} :
    ph.isParked op c = true ↔ ∃ l, ph = .parked l ∧ (op l).cond = some c := by
  cases ph with
  | ready l => simp [Phase.isParked]
  | parked l => simp [Phase.isParked]
  | woken l => simp [Phase.isParked]

theorem Phase.isParked_of_enters {s : State ι α β σ} {t : ι} {l : σ} (h : s.Enters t l)
    (c : Cond) : (s.thread t).isParked op c = false := by
  rcases h with h | h <;> rw [h] <;> rfl

theorem Phase.isWoken_of_enters {s : State ι α β σ} {t : ι} {l : σ} (h : s.Enters t l)
    {c d : Cond} (hl : (op l).cond = some c) (hcd : c ≠ d) :
    (s.thread t).isWoken op d = false := by
  rcases h with h | h <;> rw [h]
  · rfl
  · simp [Phase.isWoken, hl, hcd]

variable [DecidableEq ι]

/-- Waking a thread parked on `c` does not change who is parked on or woken from
another condition. -/
theorem wakeAll_other {c d : Cond} (hcd : c ≠ d) {thread : ι → Phase σ} {W : Finset ι}
    (hW : ∀ t ∈ W, (thread t).isParked op c = true) (u : ι) :
    (wakeAll W thread u).isParked op d = (thread u).isParked op d ∧
      (wakeAll W thread u).isWoken op d = (thread u).isWoken op d := by
  unfold wakeAll
  by_cases hu : u ∈ W
  · obtain ⟨l, hph, hl⟩ := Phase.isParked_iff.mp (hW u hu)
    rw [if_pos hu, hph]
    simp [Phase.wake, Phase.isParked, Phase.isWoken, hl, hcd]
  · rw [if_neg hu]
    exact ⟨rfl, rfl⟩

theorem wakeAll_of_not_mem {thread : ι → Phase σ} {W : Finset ι} {u : ι} (hu : u ∉ W) :
    wakeAll W thread u = thread u := if_neg hu

/-- A thread in `W` that was parked on `c` is woken from it. -/
theorem wakeAll_woken {c : Cond} {thread : ι → Phase σ} {W : Finset ι} {u : ι} (hu : u ∈ W)
    (hp : (thread u).isParked op c = true) :
    (wakeAll W thread u).isParked op c = false ∧ (wakeAll W thread u).isWoken op c = true := by
  obtain ⟨l, hph, -⟩ := Phase.isParked_iff.mp hp
  unfold wakeAll
  rw [if_pos hu]
  rw [hph] at hp ⊢
  exact ⟨rfl, hp⟩

variable [Fintype ι]

/-- If a thread is parked on `c`, at least `n` threads are woken from `c` and on
their way back to the lock. -/
def Matched (op : σ → Op α β σ) (c : Cond) (n : Int) (thread : ι → Phase σ) : Prop :=
  (∃ t, (thread t).isParked op c = true) → n ≤ census (Phase.isWoken op c) thread

/-- A step that keeps the parked threads and lets at most `t` leave the woken ones. -/
theorem Matched.off {c : Cond} {n : Int} {thread : ι → Phase σ} (h : Matched op c n thread)
    (thread' : ι → Phase σ) (t : ι) (hp : (thread' t).isParked op c = false)
    (hoff : ∀ u, u ≠ t → (thread' u).isParked op c = (thread u).isParked op c ∧
      (thread' u).isWoken op c = (thread u).isWoken op c) :
    Matched op c (n - ((thread t).isWoken op c).toNat) thread' := by
  rintro ⟨u, hu⟩
  have hut : u ≠ t := by
    rintro rfl
    rw [hp] at hu
    cases hu
  have hn := h ⟨u, (hoff u hut).1 ▸ hu⟩
  have hc := census_off (Phase.isWoken op c) thread thread' t fun v hv => (hoff v hv).2
  omega

/-- The thread `t` passes through the critical section of an operation that waits
on `c` and signals `d`: one woken thread fewer is needed on `c`. -/
theorem Matched.pass {c d : Cond} (hcd : d ≠ c) {n : Int} {s : State ι α β σ} {t : ι}
    (h : Matched op c n s.thread) {W : Finset ι}
    (hW : ∀ u ∈ W, (s.thread u).isParked op d = true) (next : σ) :
    Matched op c (n - 1) (Function.update (wakeAll W s.thread) t (.ready next)) := by
  have hoff := h.off (Function.update (wakeAll W s.thread) t (.ready next)) t
    (by rw [Function.update_self]; rfl) (by
      intro u hu
      rw [Function.update_of_ne hu]
      exact wakeAll_other hcd hW u)
  intro hpark
  have hle := hoff hpark
  have hb := Bool.toNat_le ((s.thread t).isWoken op c)
  omega

/-- The signal on `d` makes up for one more item: if a thread is still parked on
`d`, another one has just been woken. -/
theorem Matched.signal {c d : Cond} (hcd : c ≠ d) {n : Int} {s : State ι α β σ} {t : ι} {l : σ}
    (h : Matched op d n s.thread) (he : s.Enters t l) (hl : (op l).cond = some c)
    {W : Finset ι} (hW : Signals op d s.thread W) (next : σ) :
    Matched op d (n + 1) (Function.update (wakeAll W s.thread) t (.ready next)) := by
  rintro ⟨u, hu⟩
  have hut : u ≠ t := by
    rintro rfl
    rw [Function.update_self] at hu
    cases hu
  rw [Function.update_of_ne hut] at hu
  -- `u` is still parked, so it was parked before and the signal found someone to wake
  have hold : (s.thread u).isParked op d = true := by
    by_cases hm : u ∈ W
    · rw [(wakeAll_woken hm (hW.1 u hm)).1] at hu
      cases hu
    · rwa [wakeAll_of_not_mem hm] at hu
  obtain ⟨w, hw⟩ := hW.2 ⟨u, hold⟩
  have hwp := hW.1 w hw
  have hwt : w ≠ t := by
    rintro rfl
    rw [Phase.isParked_of_enters he] at hwp
    cases hwp
  have hlt : census (Phase.isWoken op d) s.thread <
      census (Phase.isWoken op d) (Function.update (wakeAll W s.thread) t (.ready next)) := by
    apply census_lt _ _ _ ?_ w ?_ ?_
    · intro v hv
      have hvt : v ≠ t := by
        rintro rfl
        rw [Phase.isWoken_of_enters he hl hcd] at hv
        cases hv
      rw [Function.update_of_ne hvt]
      by_cases hm : v ∈ W
      · exact (wakeAll_woken hm (hW.1 v hm)).2
      · rwa [wakeAll_of_not_mem hm]
    · cases hph : s.thread w with
      | ready l => rfl
      | woken l => rw [hph] at hwp; cases hwp
      | parked l => rfl
    · rw [Function.update_of_ne hwt]
      exact (wakeAll_woken hw hwp).2
  have hn := h ⟨u, hold⟩
  omega

/-- The thread `t` moves without touching the phases of condition `c`. -/
theorem Matched.frame {c : Cond} {n : Int} {thread : ι → Phase σ} (h : Matched op c n thread)
    (t : ι) (ph : Phase σ) (hw : (thread t).isWoken op c = false)
    (hp : ph.isParked op c = false) : Matched op c n (Function.update thread t ph) := by
  have hoff := h.off (Function.update thread t ph) t
    (by rw [Function.update_self]; exact hp) (by
      intro u hu
      rw [Function.update_of_ne hu]
      exact ⟨rfl, rfl⟩)
  rw [hw] at hoff
  simpa using hoff

/-- The counting invariant of the two conditions. -/
structure State.Attended (op : σ → Op α β σ) (s : State ι α β σ) : Prop where
  notEmpty : Matched op .notEmpty s.q.count s.thread
  notFull : Matched op .notFull (queueSize - s.q.count) s.thread

theorem step_attended {a : Act ι} {s t : State ι α β σ} (hs : Step op a s t) (hwf : s.q.Wf)
    (h : s.Attended op) : t.Attended op := by
  cases hs with
  | @pushWait _ u l next val he hop hq =>
    have hl : (op l).cond = some .notFull := by rw [hop]; rfl
    have hfull := queuePush_eq_none hq
    constructor
    · exact h.notEmpty.frame u _ (Phase.isWoken_of_enters he hl (by decide))
        (by simp [Phase.isParked, hl])
    · intro _
      simp only [hfull]
      omega
  | @push _ u l next val q W he hop hq hW =>
    have hl : (op l).cond = some .notFull := by rw [hop]; rfl
    have hcount := (queuePush_spec hwf hq).2.1
    constructor
    · have hsig := h.notEmpty.signal (by decide) he hl hW next
      rwa [← hcount] at hsig
    · have hpass := h.notFull.pass (by decide) (t := u) hW.1 next
      rwa [show (queueSize : Int) - s.q.count - 1 = queueSize - q.count by omega] at hpass
  | @popWait _ u l next he hop hq =>
    have hl : (op l).cond = some .notEmpty := by rw [hop]; rfl
    have hempty := queuePop_eq_none hq
    constructor
    · intro _
      simp only [hempty]
      omega
    · exact h.notFull.frame u _ (Phase.isWoken_of_enters he hl (by decide))
        (by simp [Phase.isParked, hl])
  | @pop _ u l next val q W he hop hq hW =>
    have hl : (op l).cond = some .notEmpty := by rw [hop]; rfl
    have hcount := (queuePop_spec hwf hq).2.1
    constructor
    · have hpass := h.notEmpty.pass (by decide) (t := u) hW.1 (next val)
      rwa [← hcount] at hpass
    · have hsig := h.notFull.signal (by decide) he hl hW (next val)
      rwa [show (queueSize : Int) - s.q.count + 1 = queueSize - q.count by omega] at hsig
  | @print _ u l next line ht hop =>
    exact ⟨h.notEmpty.frame u _ (by rw [ht]; rfl) rfl, h.notFull.frame u _ (by rw [ht]; rfl) rfl⟩
  | @spurious _ u l ht =>
    exact ⟨h.notEmpty.frame u _ (by rw [ht]; rfl) rfl, h.notFull.frame u _ (by rw [ht]; rfl) rfl⟩

theorem reachable_attended {data : Nat → α} {entry : ι → σ} {s : State ι α β σ}
    (hr : (system op data entry).Reachable s) : s.Attended op := by
  have hboth : s.Linear ∧ s.Attended op := by
    refine hr.invariant (P := fun s => s.Linear ∧ s.Attended op) ?_ ?_
    · rintro s rfl
      refine ⟨initial_linear data entry, ?_, ?_⟩ <;>
      · rintro ⟨t, ht⟩
        cases ht
    · rintro a s t ⟨hlin, h⟩ hs
      exact ⟨step_linear hs hlin, step_attended hs hlin.wf h⟩
  exact hboth.2

/-- When every unfinished thread is parked, no consumer waits for an item that is
there and no producer for a slot that is free. -/
theorem idle_attended {data : Nat → α} {entry : ι → σ} {s : State ι α β σ}
    (hr : (system op data entry).Reachable s)
    (hall : ∀ t, (s.thread t).Finished op ∨ ∃ c, (s.thread t).isParked op c = true) :
    ¬ ((∃ t, (s.thread t).isParked op .notEmpty = true) ∧ 0 < s.q.count) ∧
      ¬ ((∃ t, (s.thread t).isParked op .notFull = true) ∧ s.q.count < queueSize) := by
  obtain ⟨hempty, hfull⟩ := reachable_attended hr
  have hnone : ∀ c, census (Phase.isWoken op c) s.thread = 0 := by
    intro c
    rw [census_eq_zero_iff]
    intro t
    cases hph : s.thread t with
    | ready l => rfl
    | parked l => rfl
    | woken l =>
      rcases hall t with hf | ⟨d, hd⟩
      · rw [hph] at hf
        exact False.elim hf
      · rw [hph] at hd
        cases hd
  constructor
  · rintro ⟨hp, hc⟩
    have := hempty hp
    have := hnone .notEmpty
    omega
  · rintro ⟨hp, hc⟩
    have := hfull hp
    have := hnone .notFull
    omega

/-- **No wakeup is lost.** A parked consumer means that every item is matched by a
woken consumer, and a parked producer that every free slot is matched by a woken
producer. -/
theorem no_lost_wakeup (data : Nat → α) (entry : ι → σ) {s : State ι α β σ}
    (hr : (system op data entry).Reachable s) :
    ((∃ t, (s.thread t).isParked op .notEmpty = true) →
      s.q.count ≤ census (Phase.isWoken op .notEmpty) s.thread) ∧
    ((∃ t, (s.thread t).isParked op .notFull = true) →
      queueSize - s.q.count ≤ census (Phase.isWoken op .notFull) s.thread) ∧
    ((∀ t, (s.thread t).Finished op ∨ ∃ c, (s.thread t).isParked op c = true) →
      ¬ ((∃ t, (s.thread t).isParked op .notEmpty = true) ∧ 0 < s.q.count) ∧
      ¬ ((∃ t, (s.thread t).isParked op .notFull = true) ∧ s.q.count < queueSize)) :=
  ⟨(reachable_attended hr).notEmpty, (reachable_attended hr).notFull, idle_attended hr⟩

theorem handoff_attended :
    ∃ s, (system handoff (fun _ => 0) fun t : Fin 3 => if t = 2 then 1 else 0).Reachable s ∧
      s.q.count = 1 ∧ 1 ≤ census (Phase.isWoken handoff .notEmpty) s.thread := by
  obtain ⟨s, hs, -, hp, hc⟩ := handoff_reachable
  have h := (no_lost_wakeup (fun _ => 0) _ hs).1 ⟨1, hp⟩
  exact ⟨s, hs, hc, by omega⟩

end Wakeups

end LearnLinux.CondQueue
