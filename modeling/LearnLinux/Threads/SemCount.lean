import LearnLinux.Threads.SemQueue

/-!
# The count of the semaphore queue

`raw_queue_push` and `raw_queue_pop` of `02_threads/thread_demo.c` update `q->count` without a
lock, as a load and a store. The semaphores keep the threads out of each other's slots but let
a push and a pop run side by side, so one update can be lost in the other.

`count_accurate`: the count is the number of pushes minus the number of pops as long as no
thread loads it while the other one is between its load and its store; and each time this
happens the two threads can go on to a state in which the count is wrong.
-/

namespace LearnLinux.SemQueue

open CondQueue (queueSize)
open CondQueue.Sentinel (sentinel)
open Transition

/-! ## Where the threads are in their updates -/

/-- The count that the producer has loaded and not stored yet. -/
def Producer.register : Producer → Option Int
  | .pushing _ (.countStore reg) => some reg
  | _ => none

def Consumer.register : Consumer → Option Int
  | .popping (.countStore _ reg) => some reg
  | _ => none

def Producer.loadsCount : Producer → Bool
  | .pushing _ .countLoad => true
  | _ => false

def Consumer.loadsCount : Consumer → Bool
  | .popping (.countLoad _) => true
  | _ => false

/-- The pushes that are in the count. -/
def Producer.counted (n : Nat) : Producer → Nat
  | .pushing i .post => i + 1
  | p => p.index n

/-- The pops that are in the count, if `pops` are completed. -/
def Consumer.counted (pops : Nat) : Consumer → Nat
  | .popping (.post _) => pops + 1
  | _ => pops

/-- No thread is inside `raw_queue_push` or `raw_queue_pop`, past its `sem_wait`. -/
def Quiet (s : State) : Prop := s.prod.holds = false ∧ s.cons.holds = false

/-- The count is the number of completed pushes minus that of completed pops. -/
def Accurate (n : Nat) (s : State) : Prop :=
  s.q.count = (s.prod.index n : Int) - s.popped.length

/-- A thread loads the count only while the other one has none in its register. -/
def Separate : Act → State → Prop
  | .producer, s => s.prod.loadsCount = true → s.cons.register = none
  | .consumer, s => s.cons.loadsCount = true → s.prod.register = none

instance (a : Act) (s : State) : Decidable (Separate a s) :=
  match a with
  | .producer => inferInstanceAs (Decidable (s.prod.loadsCount = true → s.cons.register = none))
  | .consumer => inferInstanceAs (Decidable (s.cons.loadsCount = true → s.prod.register = none))

/-- The queue with a count that starts at 0. -/
def zeroed (n : Nat) : System Act State :=
  .ofStep (fun s => ∃ data h, h < queueSize ∧ s = State.initial n data h 0) (step n)

theorem zeroed_reachable {n : Nat} {s : State} (hr : (zeroed n).Reachable s) :
    (system n).Reachable s := by
  induction hr with
  | init hi =>
    obtain ⟨data, h, hh, rfl⟩ := hi
    exact .init ⟨data, h, 0, hh, rfl⟩
  | next _ hs ih => exact ih.next hs

/-! ## Two threads that update one count -/

/-- The count is what was added less what was taken off, a loaded value is still the count,
and only one thread has loaded it. -/
structure Tally (count : Int) (adds takes : Nat) (addReg takeReg : Option Int) : Prop where
  sum : count = (adds : Int) - takes
  adding : ∀ r, addReg = some r → r = count
  taking : ∀ r, takeReg = some r → r = count
  apart : addReg = none ∨ takeReg = none

/-- How a thread that changes the count by `d` can move: it leaves the count alone, loads
it, or stores what it loaded. -/
inductive Moves (d count count' : Int) (loads : Bool) (reg reg' : Option Int)
    (done done' : Nat) : Prop
  | other : count' = count → reg' = none → done' = done →
      Moves d count count' loads reg reg' done done'
  | load : loads = true → count' = count → reg' = some count → done' = done →
      Moves d count count' loads reg reg' done done'
  | store (r : Int) : reg = some r → count' = r + d → reg' = none → done' = done + 1 →
      Moves d count count' loads reg reg' done done'

section Tally

variable {count count' : Int} {adds adds' takes takes' : Nat}
  {addReg addReg' takeReg takeReg' : Option Int} {loads : Bool}

theorem Tally.add (h : Tally count adds takes addReg takeReg)
    (hm : Moves 1 count count' loads addReg addReg' adds adds')
    (hs : loads = true → takeReg = none) : Tally count' adds' takes addReg' takeReg := by
  cases hm with
  | other hc hr hd =>
    subst hc hr hd
    exact ⟨h.sum, nofun, h.taking, Or.inl rfl⟩
  | load hl hc hr hd =>
    subst hc hr hd
    refine ⟨h.sum, ?_, h.taking, Or.inr (hs hl)⟩
    rintro r ⟨⟩
    rfl
  | store r hr hc hr' hd =>
    have htake : takeReg = none := h.apart.resolve_left (by rw [hr]; exact nofun)
    have hreg := h.adding r hr
    have hsum := h.sum
    subst hr' hd htake
    exact ⟨by omega, nofun, nofun, Or.inl rfl⟩

theorem Tally.take (h : Tally count adds takes addReg takeReg)
    (hm : Moves (-1) count count' loads takeReg takeReg' takes takes')
    (hs : loads = true → addReg = none) : Tally count' adds takes' addReg takeReg' := by
  cases hm with
  | other hc hr hd =>
    subst hc hr hd
    exact ⟨h.sum, h.adding, nofun, Or.inr rfl⟩
  | load hl hc hr hd =>
    subst hc hr hd
    refine ⟨h.sum, h.adding, ?_, Or.inl (hs hl)⟩
    rintro r ⟨⟩
    rfl
  | store r hr hc hr' hd =>
    have hadd : addReg = none := h.apart.resolve_right (by rw [hr]; exact nofun)
    have hreg := h.taking r hr
    have hsum := h.sum
    subst hr' hd hadd
    exact ⟨by omega, nofun, nofun, Or.inr rfl⟩

end Tally

/-! ## The count of the queue -/

def State.Tallies (n : Nat) (s : State) : Prop :=
  Tally s.q.count (s.prod.counted n) (s.cons.counted s.popped.length) s.prod.register
    s.cons.register

theorem producerTest_counted (n i : Nat) :
    (producerTest n i).counted n = i ∧ (producerTest n i).register = none := by
  unfold producerTest
  split <;> exact ⟨rfl, rfl⟩

theorem afterPush_counted {n i : Nat} (hi : i ≤ n) :
    (afterPush n i).counted n = i + 1 ∧ (afterPush n i).register = none := by
  unfold afterPush
  split
  · exact producerTest_counted n (i + 1)
  · have hin : i = n := by omega
    exact ⟨by rw [hin]; rfl, rfl⟩

theorem producerStep_moves {n : Nat} {s t : State} (hs : producerStep n s = some t)
    (h : s.prod.Wrote n s.stored) :
    Moves 1 s.q.count t.q.count s.prod.loadsCount s.prod.register t.prod.register
      (s.prod.counted n) (t.prod.counted n) := by
  cases producerStep_inv hs with
  | countLoad hp => exact .load (by rw [hp]; rfl) rfl rfl (by rw [hp]; rfl)
  | countStore hp => exact .store _ (by rw [hp]; rfl) rfl rfl (by rw [hp]; rfl)
  | post hp =>
    rw [hp] at h
    obtain ⟨hcount, hreg⟩ := afterPush_counted h.2
    exact .other rfl hreg (by rw [hp]; exact hcount)
  | print hp | wait hp _ | store hp | tail hp => exact .other rfl rfl (by rw [hp]; rfl)

theorem consumerStep_moves {s t : State} (hs : consumerStep s = some t) :
    Moves (-1) s.q.count t.q.count s.cons.loadsCount s.cons.register t.cons.register
      (s.cons.counted s.popped.length) (t.cons.counted t.popped.length) := by
  cases consumerStep_inv hs with
  | countLoad hc => exact .load (by rw [hc]; rfl) rfl rfl (by rw [hc]; rfl)
  | countStore hc => exact .store _ (by rw [hc]; rfl) rfl rfl (by rw [hc]; rfl)
  | post hc =>
    refine .other rfl rfl ?_
    rw [hc]
    exact List.length_append
  | wait hc _ | load hc | head hc | print hc _ | last hc _ =>
    exact .other rfl rfl (by rw [hc]; rfl)

theorem reachable_tallies {n : Nat} {s : State}
    (hr : ((zeroed n).guarded Separate).Reachable s) : s.Tallies n := by
  induction hr with
  | init hi =>
    obtain ⟨data, h, -, rfl⟩ := hi
    obtain ⟨hcount, hreg⟩ := producerTest_counted n 0
    refine ⟨?_, ?_, ?_, Or.inr rfl⟩
    · simp only [State.initial, hcount]
      rfl
    · intro r hr
      rw [State.initial, hreg] at hr
      cases hr
    · intro r hr
      cases hr
  | @next a s t hr hs ih =>
    have hthreads := reachable_threads (zeroed_reachable (System.reachable_of_guarded hr))
    obtain ⟨hg, hs⟩ := hs
    cases a with
    | producer =>
      obtain ⟨-, hcons, hpop⟩ := producerStep_wrote hs hthreads.1
      unfold State.Tallies
      rw [hcons, hpop]
      exact Tally.add ih (producerStep_moves hs hthreads.1) hg
    | consumer =>
      obtain ⟨-, hprod, -⟩ := consumerStep_received hs hthreads.2
      unfold State.Tallies
      rw [hprod]
      exact Tally.take ih (consumerStep_moves hs) hg

theorem Producer.counted_of_quiet {p : Producer} (n : Nat) (h : p.holds = false) :
    p.counted n = p.index n := by
  cases p with
  | printing i => rfl
  | done => rfl
  | pushing i pc =>
    cases pc with
    | wait => rfl
    | store | tail | countLoad | countStore | post => cases h

theorem Consumer.counted_of_quiet {c : Consumer} (pops : Nat) (h : c.holds = false) :
    c.counted pops = pops := by
  cases c with
  | printing val => rfl
  | done => rfl
  | popping pc =>
    cases pc with
    | wait => rfl
    | load | head | countLoad | countStore | post => cases h

theorem State.Tallies.accurate {n : Nat} {s : State} (h : s.Tallies n) (hq : Quiet s) :
    Accurate n s := by
  have hsum := h.sum
  rw [Producer.counted_of_quiet n hq.1, Consumer.counted_of_quiet _ hq.2] at hsum
  exact hsum

/-! ## An update that is lost -/

/-- Both threads have loaded the same count; the one that stores last undoes the other. -/
theorem overlap_wrong {n i : Nat} {val c : Int} {t : State} (hi : i ≤ n)
    (hp : t.prod = .pushing i (.countStore c)) (hc : t.cons = .popping (.countStore val c))
    (hsum : c = (i : Int) - t.popped.length) :
    ∃ as u, runList (step n) as t = some u ∧ Quiet u ∧ ¬ Accurate n u := by
  obtain ⟨q, prod, cons, out, unread, stored, popped⟩ := t
  cases hp
  cases hc
  refine ⟨[.producer, .producer, .consumer, .consumer], _, rfl, ⟨(afterPush_counts hi).2, rfl⟩, ?_⟩
  intro hacc
  simp only [Accurate, (afterPush_counts hi).1, List.length_append, List.length_singleton] at hacc hsum
  omega

theorem Producer.loadsCount_inv {p : Producer} (h : p.loadsCount = true) :
    ∃ i, p = .pushing i .countLoad := by
  unfold Producer.loadsCount at h
  split at h
  · exact ⟨_, rfl⟩
  · cases h

theorem Consumer.loadsCount_inv {c : Consumer} (h : c.loadsCount = true) :
    ∃ val, c = .popping (.countLoad val) := by
  unfold Consumer.loadsCount at h
  split at h
  · exact ⟨_, rfl⟩
  · cases h

theorem Producer.register_inv {p : Producer} (h : p.register ≠ none) :
    ∃ i reg, p = .pushing i (.countStore reg) := by
  unfold Producer.register at h
  split at h
  · exact ⟨_, _, rfl⟩
  · exact absurd rfl h

theorem Consumer.register_inv {c : Consumer} (h : c.register ≠ none) :
    ∃ val reg, c = .popping (.countStore val reg) := by
  unfold Consumer.register at h
  split at h
  · exact ⟨_, _, rfl⟩
  · exact absurd rfl h

/-- A load that overlaps the update of the other thread can be the end of the count. -/
theorem unseparated_wrong {n : Nat} {a : Act} {s t : State} (h : s.Tallies n)
    (hw : s.prod.Wrote n s.stored) (hs : step n a s = some t) (hg : ¬ Separate a s) :
    ∃ as u, runList (step n) as t = some u ∧ Quiet u ∧ ¬ Accurate n u := by
  obtain ⟨hsum, hadd, htake, -⟩ := h
  cases a with
  | producer =>
    obtain ⟨hload, hreg⟩ := Classical.not_imp.mp hg
    obtain ⟨i, hp⟩ := Producer.loadsCount_inv hload
    obtain ⟨val, reg, hc⟩ := Consumer.register_inv hreg
    rw [hp] at hw hsum
    rw [hc] at hsum htake
    have hr := htake reg rfl
    subst hr
    simp only [step, producerStep, hp] at hs
    obtain rfl := Option.some.inj hs
    exact overlap_wrong hw.2 rfl hc hsum
  | consumer =>
    obtain ⟨hload, hreg⟩ := Classical.not_imp.mp hg
    obtain ⟨val, hc⟩ := Consumer.loadsCount_inv hload
    obtain ⟨i, reg, hp⟩ := Producer.register_inv hreg
    rw [hp] at hw hsum hadd
    rw [hc] at hsum
    have hr := hadd reg rfl
    subst hr
    simp only [step, consumerStep, hc] at hs
    obtain rfl := Option.some.inj hs
    exact overlap_wrong hw.2 hp rfl hsum

/-- **When the count is accurate**: in every run in which no thread loads it while the other
one is between its load and its store, it is the number of pushes minus the number of pops
whenever no thread is inside, and 0 at the end. A step that does not meet the condition can be
continued to a state in which the count is wrong. -/
theorem count_accurate (n : Nat) {s : State} (hr : ((zeroed n).guarded Separate).Reachable s) :
    (Quiet s → Accurate n s) ∧ (Done s → s.q.count = 0) ∧
    ∀ a t, step n a s = some t → ¬ Separate a s →
      ∃ as u, runList (step n) as t = some u ∧ Quiet u ∧ ¬ Accurate n u := by
  have h := reachable_tallies hr
  have hr' := zeroed_reachable (System.reachable_of_guarded hr)
  refine ⟨h.accurate, ?_, fun a t => unseparated_wrong h (reachable_threads hr').1⟩
  intro hd
  have hacc : Accurate n s := h.accurate ⟨by rw [hd.1]; rfl, by rw [hd.2]; rfl⟩
  have hlen := congrArg List.length ((popped_length hr').2 hd.2)
  simp only [script, List.length_append, List.length_map, List.length_range,
    List.length_singleton] at hlen
  rw [hacc, hd.1, hlen]
  exact Int.sub_self _

/-- One value and the sentinel; the pop of the value runs beside the second push, but their
updates of the count do not overlap. -/
theorem separate_updates :
    ∃ s, ((zeroed 1).guarded Separate).Reachable s ∧ Done s ∧ s.q.count = 0 := by
  have h0 : ((zeroed 1).guarded Separate).Reachable (State.initial 1 (fun _ => 0) 0 0) :=
    .init ⟨_, 0, by decide, rfl⟩
  have hr := h0.runGuarded (List.replicate 10 .producer ++ List.replicate 5 .consumer ++
    List.replicate 3 .producer ++ List.replicate 9 .consumer) rfl
  exact ⟨_, hr, ⟨rfl, rfl⟩, (count_accurate 1 hr).2.1 ⟨rfl, rfl⟩⟩

/-- The producer has loaded the count for its second push when the consumer takes the first
value; its store undoes the decrement, and both threads return with the count at 1. -/
theorem lost_decrement :
    ∃ s, (zeroed 1).Reachable s ∧ Done s ∧ s.popped = [0, sentinel] ∧ s.q.count = 1 ∧
      ¬ Accurate 1 s := by
  have h0 : (zeroed 1).Reachable (State.initial 1 (fun _ => 0) 0 0) := .init ⟨_, 0, by decide, rfl⟩
  have hr := h0.run (List.replicate 11 .producer ++ List.replicate 7 .consumer ++
    List.replicate 2 .producer ++ List.replicate 7 .consumer) rfl
  refine ⟨_, hr, ⟨rfl, rfl⟩, rfl, rfl, ?_⟩
  intro hacc
  cases hacc

end LearnLinux.SemQueue
