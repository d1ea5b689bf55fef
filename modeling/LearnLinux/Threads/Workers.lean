import LearnLinux.Lib.Census
import LearnLinux.Lib.History
import LearnLinux.Lib.Transition

/-!
# Creating and joining the threads of `02_threads/thread_demo.c`

`demo_basic_threads` and `demo_tls` create `N` threads one after the other and join them in the
same order. `basic_worker` gets its number as the value of its argument, prints two lines and
returns ten times the number; `tls_worker` reads its number from the array `ids` when it comes to
run, counts to 5 in a variable of its own and prints it. A `pthread_create` that fails ends the
process, with whatever threads it has.

`workers_joined`: every thread prints its own lines in order, every thread is joined with its own
result and only after its last line, and no run gets stuck.
-/

namespace LearnLinux.Workers

open Census History Transition

/-! ## The threads -/

inductive Demo where
  | basicThreads
  | tls
  deriving DecidableEq, Repr

/-- A line of the output. -/
inductive Line where
  | running (id : Int)
  | done (id : Int)
  | tlsCounter (id count : Int)
  | returned (i : Nat) (retval : Int)
  | createError (i : Nat)
  deriving DecidableEq, Repr

/-- The thread that calls the demo: the next thread it creates or joins, and how it ends. -/
inductive Main where
  | create (i : Nat)
  | join (i : Nat)
  | returned
  | exited (i : Nat)
  deriving DecidableEq, Repr

/-- A worker: not there yet, at its entry, between the lines of `basic_worker`, in round `i` of the
loop of `tls_worker`, or at its end. -/
inductive Worker where
  | absent
  | entered
  | ran (id : Int)
  | looping (id : Int) (i : Nat) (tlsCounter : Int)
  | finished (retval : Int)
  deriving DecidableEq, Repr

/-- `ids` is the array of `demo_tls`. -/
structure State (N : Nat) where
  main : Main
  ids : Fin N → Int
  worker : Fin N → Worker
  out : List Line

inductive Act (N : Nat) where
  | main
  | fails
  | worker (t : Fin N)
  deriving DecidableEq, Repr

/-- `ids[i] = i + 1` in front of `pthread_create`. -/
def Demo.fill {N : Nat} (ids : Fin N → Int) (t : Fin N) : Demo → Fin N → Int
  | .basicThreads => ids
  | .tls => Function.update ids t (t + 1)

def Demo.createError (i : Nat) : Demo → List Line
  | .basicThreads => [.createError i]
  | .tls => []

def Demo.joinLine (i : Nat) (retval : Int) : Demo → List Line
  | .basicThreads => [.returned i retval]
  | .tls => []

def mainStep {N : Nat} (demo : Demo) (s : State N) : Option (State N) :=
  match s.main with
  | .create i =>
    if h : i < N then
      some { s with
        ids := demo.fill s.ids ⟨i, h⟩
        worker := Function.update s.worker ⟨i, h⟩ .entered
        main := .create (i + 1) }
    else some { s with main := .join 0 }
  | .join i =>
    if h : i < N then
      match s.worker ⟨i, h⟩ with
      | .finished retval =>
        some { s with out := s.out ++ demo.joinLine i retval, main := .join (i + 1) }
      | _ => none
    else some { s with main := .returned }
  | .returned | .exited _ => none

/-- A `pthread_create` that fails. -/
def failStep {N : Nat} (demo : Demo) (s : State N) : Option (State N) :=
  match s.main with
  | .create i =>
    if i < N then some { s with out := s.out ++ demo.createError i, main := .exited i } else none
  | _ => none

def workerStep {N : Nat} (demo : Demo) (t : Fin N) (s : State N) : Option (State N) :=
  match demo, s.worker t with
  | .basicThreads, .entered =>
    some { s with
      out := s.out ++ [.running t]
      worker := Function.update s.worker t (.ran t) }
  | .basicThreads, .ran id =>
    some { s with
      out := s.out ++ [.done id]
      worker := Function.update s.worker t (.finished (id * 10)) }
  | .tls, .entered =>
    some { s with worker := Function.update s.worker t (.looping (s.ids t) 0 0) }
  | .tls, .looping id i tlsCounter =>
    if i < 5 then
      some { s with worker := Function.update s.worker t (.looping id (i + 1) (tlsCounter + 1)) }
    else
      some { s with
        out := s.out ++ [.tlsCounter id tlsCounter]
        worker := Function.update s.worker t (.finished 0) }
  | _, _ => none

def Main.exits : Main → Bool
  | .exited _ => true
  | _ => false

/-- Nothing runs once the process has ended. -/
def step {N : Nat} (demo : Demo) : Act N → State N → Option (State N)
  | .main, s => mainStep demo s
  | .fails, s => failStep demo s
  | .worker t, s => if s.main.exits = false then workerStep demo t s else none

def State.initial (N : Nat) : State N := ⟨.create 0, fun _ => 0, fun _ => .absent, []⟩

/-! ## What a step can do -/

section Moves

variable {N : Nat}

/-- The steps of the two demos, with the state each one needs. -/
inductive Move (demo : Demo) (s : State N) : State N → Prop
  | create (t : Fin N) : s.main = .create t →
      Move demo s { s with
        ids := demo.fill s.ids t
        worker := Function.update s.worker t .entered
        main := .create (t + 1) }
  | created (i : Nat) : s.main = .create i → N ≤ i → Move demo s { s with main := .join 0 }
  | join (t : Fin N) (retval : Int) : s.main = .join t → s.worker t = .finished retval →
      Move demo s { s with out := s.out ++ demo.joinLine t retval, main := .join (t + 1) }
  | joined (i : Nat) : s.main = .join i → N ≤ i → Move demo s { s with main := .returned }
  | fails (t : Fin N) : s.main = .create t →
      Move demo s { s with out := s.out ++ demo.createError t, main := .exited t }
  | running (t : Fin N) : demo = .basicThreads → s.main.exits = false → s.worker t = .entered →
      Move demo s { s with
        out := s.out ++ [.running t]
        worker := Function.update s.worker t (.ran t) }
  | done (t : Fin N) (id : Int) : demo = .basicThreads → s.main.exits = false →
      s.worker t = .ran id →
      Move demo s { s with
        out := s.out ++ [.done id]
        worker := Function.update s.worker t (.finished (id * 10)) }
  | load (t : Fin N) : demo = .tls → s.main.exits = false → s.worker t = .entered →
      Move demo s { s with worker := Function.update s.worker t (.looping (s.ids t) 0 0) }
  | increment (t : Fin N) (id : Int) (i : Nat) (count : Int) : demo = .tls →
      s.main.exits = false → s.worker t = .looping id i count → i < 5 →
      Move demo s
        { s with worker := Function.update s.worker t (.looping id (i + 1) (count + 1)) }
  | print (t : Fin N) (id : Int) (i : Nat) (count : Int) : demo = .tls →
      s.main.exits = false → s.worker t = .looping id i count → ¬ i < 5 →
      Move demo s { s with
        out := s.out ++ [.tlsCounter id count]
        worker := Function.update s.worker t (.finished 0) }

theorem mainStep_inv {demo : Demo} {s s' : State N} (hs : mainStep demo s = some s') :
    Move demo s s' := by
  unfold mainStep at hs
  split at hs
  next i hm =>
    split at hs
    next hi =>
      obtain rfl := Option.some.inj hs
      exact .create ⟨i, hi⟩ hm
    next hi =>
      obtain rfl := Option.some.inj hs
      exact .created i hm (Nat.le_of_not_lt hi)
  next i hm =>
    split at hs
    next hi =>
      split at hs
      next retval hw =>
        obtain rfl := Option.some.inj hs
        exact .join ⟨i, hi⟩ retval hm hw
      next => cases hs
    next hi =>
      obtain rfl := Option.some.inj hs
      exact .joined i hm (Nat.le_of_not_lt hi)
  next => cases hs
  next => cases hs

theorem workerStep_inv {demo : Demo} {t : Fin N} {s s' : State N} (hm : s.main.exits = false)
    (hs : workerStep demo t s = some s') : Move demo s s' := by
  unfold workerStep at hs
  split at hs
  next hw =>
    obtain rfl := Option.some.inj hs
    exact .running t rfl hm hw
  next id hw =>
    obtain rfl := Option.some.inj hs
    exact .done t id rfl hm hw
  next hw =>
    obtain rfl := Option.some.inj hs
    exact .load t rfl hm hw
  next id i count hw =>
    split at hs
    next hi =>
      obtain rfl := Option.some.inj hs
      exact .increment t id i count rfl hm hw hi
    next hi =>
      obtain rfl := Option.some.inj hs
      exact .print t id i count rfl hm hw hi
  next => cases hs

theorem step_inv {demo : Demo} {a : Act N} {s s' : State N} (hs : step demo a s = some s') :
    Move demo s s' := by
  cases a with
  | main => exact mainStep_inv hs
  | fails =>
    simp only [step, failStep] at hs
    split at hs
    next i hm =>
      obtain ⟨hi, hs⟩ := Option.ite_none_right_eq_some.mp hs
      obtain rfl := Option.some.inj hs
      exact .fails ⟨i, hi⟩ hm
    next => cases hs
  | worker t =>
    obtain ⟨hm, hs⟩ := Option.ite_none_right_eq_some.mp hs
    exact workerStep_inv hm hs

end Moves

/-! ## The invariant -/

/-- Whose line it is. -/
def Line.of (t : Nat) : Line → Bool
  | .running id | .done id => id = t
  | .tlsCounter id _ => id = t + 1
  | .returned _ _ | .createError _ => false

def Line.isReturned : Line → Bool
  | .returned _ _ => true
  | _ => false

/-- All lines of thread `t`. -/
def Demo.lines (t : Nat) : Demo → List Line
  | .basicThreads => [.running t, .done t]
  | .tls => [.tlsCounter (t + 1) 5]

/-- What thread `t` returns. -/
def Demo.retval (t : Nat) : Demo → Int
  | .basicThreads => t * 10
  | .tls => 0

/-- The lines for the first `n` threads that were joined. -/
def Demo.returnedLines (demo : Demo) (n : Nat) : List Line :=
  (List.range n).flatMap fun i => demo.joinLine i (demo.retval i)

/-- A thread that was joined has printed all it prints. -/
def After (demo : Demo) (before : List Line) : Line → Prop
  | .returned i retval => retval = demo.retval i ∧ before.filter (Line.of i) = demo.lines i
  | _ => True

/-- The lines that a worker has printed. -/
def Worker.lines (demo : Demo) (t : Nat) : Worker → List Line
  | .absent | .entered | .looping _ _ _ => []
  | .ran _ => [.running t]
  | .finished _ => demo.lines t

/-- A worker that exists and has not returned. -/
def Worker.active : Worker → Bool
  | .entered | .ran _ | .looping _ _ _ => true
  | .absent | .finished _ => false

/-- Where thread `t` can be. -/
def Worker.Good (demo : Demo) (t : Nat) : Worker → Prop
  | .absent | .entered => True
  | .ran id => demo = .basicThreads ∧ id = t
  | .looping id i count => demo = .tls ∧ id = t + 1 ∧ i ≤ 5 ∧ count = i
  | .finished retval => retval = demo.retval t

/-- The number of threads that exist. -/
def Main.created (N : Nat) : Main → Nat
  | .create i | .exited i => i
  | .join _ | .returned => N

/-- The number of threads that were joined. -/
def Main.joined (N : Nat) : Main → Nat
  | .create _ | .exited _ => 0
  | .join i => i
  | .returned => N

section Invariant

variable {N : Nat} {demo : Demo}

/-- What the threads are at. -/
structure Crew (demo : Demo) (main : Main) (ids : Fin N → Int) (worker : Fin N → Worker) :
    Prop where
  good : ∀ t, (worker t).Good demo t
  absent : ∀ t, worker t = .absent ↔ main.created N ≤ t
  ids : demo = .tls → ∀ t, worker t ≠ .absent → ids t = t + 1
  joined : ∀ t : Fin N, t < main.joined N → ∃ retval, worker t = .finished retval
  bound : main.joined N ≤ N

structure State.Sound (demo : Demo) (s : State N) : Prop where
  crew : Crew demo s.main s.ids s.worker
  lines : ∀ t : Fin N, s.out.filter (Line.of t) = (s.worker t).lines demo t
  returned : s.out.filter Line.isReturned = demo.returnedLines (s.main.joined N)
  order : Each (After demo) s.out

theorem initial_sound (demo : Demo) : (State.initial N).Sound demo where
  crew := ⟨fun _ => trivial, fun _ => ⟨fun _ => Nat.zero_le _, fun _ => rfl⟩,
    fun _ _ h => absurd rfl h, fun _ h => absurd h (Nat.not_lt_zero _), Nat.zero_le _⟩
  lines _ := rfl
  returned := rfl
  order := each_nil

variable {s : State N} {t : Fin N}

/-- A worker that goes on. -/
theorem Crew.work (h : Crew demo s.main s.ids s.worker) {w : Worker}
    (hactive : (s.worker t).active = true) (hw : w ≠ .absent) (hgood : w.Good demo t) :
    Crew demo s.main s.ids (Function.update s.worker t w) := by
  have hfrom : s.worker t ≠ .absent := by
    intro habsent
    rw [habsent] at hactive
    cases hactive
  refine ⟨?_, fun u => ?_, fun htls u => ?_, fun u hu => ?_, h.bound⟩
  · exact (Function.forall_update_iff s.worker fun u w => w.Good demo u).mpr
      ⟨hgood, fun u _ => h.good u⟩
  · by_cases hu : u = t
    · subst hu
      rw [Function.update_self, ← h.absent u]
      exact ⟨fun h => absurd h hw, fun h => absurd h hfrom⟩
    · rw [Function.update_of_ne hu]
      exact h.absent u
  · by_cases hu : u = t
    · subst hu
      exact fun _ => h.ids htls u hfrom
    · rw [Function.update_of_ne hu]
      exact h.ids htls u
  · obtain ⟨retval, hret⟩ := h.joined u hu
    have hne : u ≠ t := by
      rintro rfl
      rw [hret] at hactive
      cases hactive
    exact ⟨retval, by rw [Function.update_of_ne hne, hret]⟩

theorem filter_concat_of_neg {p : Line → Bool} {out : List Line} {line : Line}
    (h : p line = false) : (out ++ [line]).filter p = out.filter p := by
  simp [h]

theorem filter_concat_of_pos {p : Line → Bool} {out : List Line} {line : Line}
    (h : p line = true) : (out ++ [line]).filter p = out.filter p ++ [line] := by
  simp [h]

/-- A worker that goes on and prints nothing. -/
theorem State.Sound.work (h : s.Sound demo) {w : Worker}
    (hactive : (s.worker t).active = true) (hw : w ≠ .absent) (hgood : w.Good demo t)
    (hlines : w.lines demo t = (s.worker t).lines demo t) :
    State.Sound demo { s with worker := Function.update s.worker t w } := by
  refine ⟨h.crew.work hactive hw hgood, fun u => ?_, h.returned, h.order⟩
  by_cases hu : u = t
  · subst hu
    simp only [Function.update_self]
    rw [hlines]
    exact h.lines u
  · simp only [Function.update_of_ne hu]
    exact h.lines u

/-- A worker that prints a line of its own. -/
theorem State.Sound.say (h : s.Sound demo) {w : Worker} {line : Line}
    (hactive : (s.worker t).active = true) (hw : w ≠ .absent) (hgood : w.Good demo t)
    (hlines : w.lines demo t = (s.worker t).lines demo t ++ [line])
    (hline : ∀ u : Nat, line.of u = decide (u = t)) (hret : line.isReturned = false)
    (hafter : After demo s.out line) :
    State.Sound demo
      { s with out := s.out ++ [line], worker := Function.update s.worker t w } := by
  refine ⟨h.crew.work hactive hw hgood, fun u => ?_, ?_, h.order.concat hafter⟩
  · by_cases hu : u = t
    · subst hu
      simp only [Function.update_self]
      rw [filter_concat_of_pos ((hline u).trans (decide_eq_true rfl)), hlines, h.lines u]
    · have hne : (u : Nat) ≠ t := fun heq => hu (Fin.ext heq)
      simp only [Function.update_of_ne hu]
      rw [filter_concat_of_neg ((hline u).trans (decide_eq_false hne)), h.lines u]
  · exact (filter_concat_of_neg hret).trans h.returned

theorem State.Sound.create (h : s.Sound demo) (hm : s.main = .create t) :
    State.Sound demo { s with
      ids := demo.fill s.ids t
      worker := Function.update s.worker t .entered
      main := .create (t + 1) } := by
  have habsent : s.worker t = .absent := (h.crew.absent t).mpr (by rw [hm]; exact Nat.le_refl _)
  refine ⟨⟨?_, fun u => ?_, fun htls u => ?_, fun u hu => absurd hu (Nat.not_lt_zero _),
    Nat.zero_le _⟩, fun u => ?_, ?_, h.order⟩
  · exact (Function.forall_update_iff s.worker fun u w => w.Good demo u).mpr
      ⟨trivial, fun u _ => h.crew.good u⟩
  · have hu := h.crew.absent u
    rw [hm] at hu
    simp only [Main.created] at hu ⊢
    by_cases hut : u = t
    · subst hut
      rw [Function.update_self]
      constructor
      · intro h
        cases h
      · intro h
        omega
    · have hne : (u : Nat) ≠ t := fun heq => hut (Fin.ext heq)
      rw [Function.update_of_ne hut, hu]
      omega
  · simp only [htls, Demo.fill]
    by_cases hut : u = t
    · subst hut
      intro _
      rw [Function.update_self]
    · rw [Function.update_of_ne hut, Function.update_of_ne hut]
      exact h.crew.ids htls u
  · have hu := h.lines u
    by_cases hut : u = t
    · subst hut
      rw [habsent] at hu
      simp only [Function.update_self]
      exact hu
    · simp only [Function.update_of_ne hut]
      exact hu
  · have hret := h.returned
    rw [hm] at hret
    exact hret

theorem State.Sound.created {i : Nat} (h : s.Sound demo) (hm : s.main = .create i) (hi : N ≤ i) :
    State.Sound demo { s with main := .join 0 } := by
  have hcrew := h.crew
  have hret := h.returned
  rw [hm] at hcrew hret
  refine ⟨⟨hcrew.good, fun u => ?_, hcrew.ids, fun u hu => absurd hu (Nat.not_lt_zero _),
    Nat.zero_le _⟩, h.lines, hret, h.order⟩
  rw [hcrew.absent u]
  have hu := u.isLt
  simp only [Main.created]
  omega

theorem returnedLines_succ (demo : Demo) (n : Nat) :
    demo.returnedLines (n + 1) = demo.returnedLines n ++ demo.joinLine n (demo.retval n) := by
  rw [Demo.returnedLines, List.range_succ, List.flatMap_append, List.flatMap_singleton]
  rfl

/-- The line of a join belongs to no worker. -/
theorem filter_of_joinLine (u i : Nat) (retval : Int) (demo : Demo) :
    (demo.joinLine i retval).filter (Line.of u) = [] := by
  cases demo <;> rfl

theorem filter_isReturned_joinLine (i : Nat) (retval : Int) (demo : Demo) :
    (demo.joinLine i retval).filter Line.isReturned = demo.joinLine i retval := by
  cases demo <;> rfl

theorem State.Sound.join {retval : Int} (h : s.Sound demo) (hm : s.main = .join t)
    (hw : s.worker t = .finished retval) :
    State.Sound demo
      { s with out := s.out ++ demo.joinLine t retval, main := .join (t + 1) } := by
  have hcrew := h.crew
  have hret := h.returned
  have hlines := h.lines t
  have hgood := h.crew.good t
  rw [hm] at hcrew hret
  rw [hw] at hlines hgood
  obtain rfl : retval = demo.retval t := hgood
  refine ⟨⟨hcrew.good, hcrew.absent, hcrew.ids, fun u hu => ?_, t.isLt⟩, fun u => ?_, ?_, ?_⟩
  · rcases Nat.lt_or_eq_of_le (Nat.le_of_lt_succ hu) with hlt | heq
    · exact hcrew.joined u hlt
    · rw [Fin.ext heq]
      exact ⟨_, hw⟩
  · simp only [List.filter_append, filter_of_joinLine, List.append_nil]
    exact h.lines u
  · simp only [List.filter_append, filter_isReturned_joinLine, Main.joined]
    rw [returnedLines_succ, hret]
    rfl
  · cases demo with
    | basicThreads => exact h.order.concat ⟨rfl, hlines⟩
    | tls =>
      simp only [Demo.joinLine, List.append_nil]
      exact h.order

theorem State.Sound.joined {i : Nat} (h : s.Sound demo) (hm : s.main = .join i) (hi : N ≤ i) :
    State.Sound demo { s with main := .returned } := by
  have hcrew := h.crew
  have hret := h.returned
  rw [hm] at hcrew hret
  obtain rfl : i = N := Nat.le_antisymm hcrew.bound hi
  exact ⟨⟨hcrew.good, hcrew.absent, hcrew.ids, hcrew.joined, Nat.le_refl _⟩, h.lines, hret, h.order⟩

theorem State.Sound.fails (h : s.Sound demo) (hm : s.main = .create t) :
    State.Sound demo { s with out := s.out ++ demo.createError t, main := .exited t } := by
  have hcrew := h.crew
  have hret := h.returned
  rw [hm] at hcrew hret
  have hcrew' : Crew demo (.exited t) s.ids s.worker :=
    ⟨hcrew.good, hcrew.absent, hcrew.ids, hcrew.joined, hcrew.bound⟩
  cases demo with
  | basicThreads =>
    refine ⟨hcrew', fun u => ?_, ?_, h.order.concat trivial⟩
    · exact (filter_concat_of_neg rfl).trans (h.lines u)
    · exact (filter_concat_of_neg rfl).trans hret
  | tls =>
    simp only [Demo.createError, List.append_nil]
    exact ⟨hcrew', h.lines, hret, h.order⟩

theorem Move.sound {s' : State N} (hmove : Move demo s s') (h : s.Sound demo) : s'.Sound demo := by
  cases hmove with
  | create t hm => exact h.create hm
  | created i hm hi => exact h.created hm hi
  | join t retval hm hw => exact h.join hm hw
  | joined i hm hi => exact h.joined hm hi
  | fails t hm => exact h.fails hm
  | running t hdemo hm hw =>
    subst hdemo
    refine h.say (by rw [hw]; rfl) (fun h => (by cases h)) ⟨rfl, rfl⟩ (by rw [hw]; rfl)
      (fun u => ?_) rfl trivial
    rw [Line.of, decide_eq_decide]
    omega
  | done t id hdemo hm hw =>
    subst hdemo
    have hgood := h.crew.good t
    rw [hw] at hgood
    obtain ⟨-, rfl⟩ := hgood
    refine h.say (by rw [hw]; rfl) (fun h => (by cases h)) rfl (by rw [hw]; rfl)
      (fun u => ?_) rfl trivial
    rw [Line.of, decide_eq_decide]
    omega
  | load t hdemo hm hw =>
    subst hdemo
    have hid := h.crew.ids rfl t (by rw [hw]; decide)
    exact h.work (by rw [hw]; rfl) (fun h => (by cases h)) ⟨rfl, hid, Nat.zero_le _, rfl⟩
      (by rw [hw]; rfl)
  | increment t id i count hdemo hm hw hi =>
    subst hdemo
    have hgood := h.crew.good t
    rw [hw] at hgood
    obtain ⟨-, hid, -, hcount⟩ := hgood
    exact h.work (by rw [hw]; rfl) (fun h => (by cases h)) ⟨rfl, hid, hi, by rw [hcount]; rfl⟩
      (by rw [hw]; rfl)
  | print t id i count hdemo hm hw hi =>
    subst hdemo
    have hgood := h.crew.good t
    rw [hw] at hgood
    obtain ⟨-, rfl, hle, rfl⟩ := hgood
    obtain rfl : i = 5 := by omega
    refine h.say (by rw [hw]; rfl) (fun h => (by cases h)) rfl (by rw [hw]; rfl)
      (fun u => ?_) rfl trivial
    rw [Line.of, decide_eq_decide]
    omega

end Invariant

/-! ## Runs -/

/-- The steps of a whole worker. -/
def Demo.cost : Demo → Nat
  | .basicThreads => 2
  | .tls => 7

/-- The steps a worker still has to take. -/
def Worker.left (demo : Demo) : Worker → Nat
  | .absent | .entered => demo.cost
  | .ran _ => 1
  | .looping _ i _ => 6 - i
  | .finished _ => 0

/-- The steps the calling thread still has to take. -/
def Main.left (N : Nat) : Main → Nat
  | .create i => (N - i) + (N + 2)
  | .join i => (N - i) + 1
  | .returned | .exited _ => 0

/-- The steps everybody still has to take. -/
def State.left {N : Nat} (demo : Demo) (s : State N) : Nat :=
  if s.main.exits then 0 else s.main.left N + ∑ t, (s.worker t).left demo

section Runs

variable {N : Nat} {demo : Demo} {s s' : State N}

theorem initial_left (demo : Demo) (N : Nat) :
    (State.initial N).left demo = (demo.cost + 2) * N + 2 := by
  have hsum : ∑ _t : Fin N, demo.cost = N * demo.cost := by simp
  have hleft : (State.initial N).left demo = (N - 0) + (N + 2) + ∑ _t : Fin N, demo.cost := rfl
  rw [hleft, hsum, Nat.add_mul, Nat.mul_comm demo.cost N]
  omega

theorem left_lt_of_running (hs : s.main.exits = false) (hs' : s'.main.exits = false)
    (h : s'.main.left N + ∑ t, (s'.worker t).left demo + 1 ≤
      s.main.left N + ∑ t, (s.worker t).left demo) : s'.left demo + 1 ≤ s.left demo := by
  rw [State.left, State.left, hs, hs']
  exact h

/-- A step of a worker. -/
theorem left_work {t : Fin N} {w : Worker} {out : List Line} (hm : s.main.exits = false)
    (h : (s.worker t).left demo = w.left demo + 1) :
    State.left demo { s with out := out, worker := Function.update s.worker t w } + 1 ≤
      s.left demo := by
  have hsum := sum_update (Worker.left demo) s.worker t w
  refine left_lt_of_running hm hm ?_
  simp only
  omega

theorem Move.left (hmove : Move demo s s') (h : s.Sound demo) :
    s'.left demo + 1 ≤ s.left demo := by
  cases hmove with
  | create t hm =>
    have hsum := sum_update (Worker.left demo) s.worker t .entered
    have habsent : s.worker t = .absent :=
      (h.crew.absent t).mpr (by rw [hm]; exact Nat.le_refl _)
    rw [habsent] at hsum
    have ht := t.isLt
    refine left_lt_of_running (by rw [hm]; rfl) rfl ?_
    rw [hm]
    simp only [Main.left, Worker.left] at hsum ⊢
    omega
  | created i hm hi | joined i hm hi =>
    refine left_lt_of_running (by rw [hm]; rfl) rfl ?_
    rw [hm]
    simp only [Main.left]
    omega
  | join t retval hm hw =>
    have ht := t.isLt
    refine left_lt_of_running (by rw [hm]; rfl) rfl ?_
    rw [hm]
    simp only [Main.left]
    omega
  | fails t hm =>
    have hzero : State.left demo { s with out := s.out ++ demo.createError t, main := .exited t } =
      0 := rfl
    have hexits : s.main.exits = false := by rw [hm]; rfl
    rw [hzero, State.left, hexits, hm]
    simp only [Main.left, Bool.false_eq_true, if_false]
    omega
  | running t hdemo hm hw =>
    subst hdemo
    exact left_work hm (by rw [hw]; rfl)
  | done t id hdemo hm hw => exact left_work hm (by rw [hw]; rfl)
  | load t hdemo hm hw =>
    subst hdemo
    exact left_work hm (by rw [hw]; rfl)
  | increment t id i count hdemo hm hw hi =>
    refine left_work hm ?_
    rw [hw]
    simp only [Worker.left]
    omega
  | print t id i count hdemo hm hw hi =>
    have hgood := h.crew.good t
    rw [hw] at hgood
    obtain ⟨-, -, hle, -⟩ := hgood
    refine left_work hm ?_
    rw [hw]
    simp only [Worker.left]
    omega

/-- A worker that has something to do can do it. -/
theorem worker_moves {t : Fin N} (h : s.Sound demo) (hm : s.main.exits = false)
    (hactive : (s.worker t).active = true) : ∃ s', step demo (.worker t) s = some s' := by
  have hgood := h.crew.good t
  cases hw : s.worker t with
  | absent | finished retval =>
    rw [hw] at hactive
    cases hactive
  | entered => cases demo <;> exact ⟨_, by simp only [step, if_pos hm, workerStep, hw]; rfl⟩
  | ran id =>
    rw [hw] at hgood
    obtain ⟨rfl, -⟩ := hgood
    exact ⟨_, by simp only [step, if_pos hm, workerStep, hw]; rfl⟩
  | looping id i count =>
    rw [hw] at hgood
    obtain ⟨rfl, -⟩ := hgood
    by_cases hi : i < 5
    · exact ⟨_, by simp only [step, if_pos hm, workerStep, hw, if_pos hi]; rfl⟩
    · exact ⟨_, by simp only [step, if_pos hm, workerStep, hw, if_neg hi]; rfl⟩

/-- Until the demo has returned, somebody can move: a join waits for a worker that can. -/
theorem somebody_moves (h : s.Sound demo) (hm : s.main.exits = false) (hret : s.main ≠ .returned) :
    ∃ a s', a ≠ .fails ∧ step demo a s = some s' := by
  cases hmain : s.main with
  | returned => exact absurd hmain hret
  | exited i =>
    rw [hmain] at hm
    cases hm
  | create i =>
    by_cases hi : i < N
    · exact ⟨.main, _, nofun, by simp only [step, mainStep, hmain, dif_pos hi]; rfl⟩
    · exact ⟨.main, _, nofun, by simp only [step, mainStep, hmain, dif_neg hi]; rfl⟩
  | join i =>
    by_cases hi : i < N
    · cases hw : s.worker ⟨i, hi⟩ with
      | finished retval =>
        exact ⟨.main, _, nofun, by simp only [step, mainStep, hmain, dif_pos hi, hw]; rfl⟩
      | absent =>
        have hle := (h.crew.absent ⟨i, hi⟩).mp hw
        rw [hmain] at hle
        exact absurd hle (Nat.not_le_of_lt hi)
      | entered | ran id | looping id j count =>
        obtain ⟨s', hs'⟩ := worker_moves h hm (t := ⟨i, hi⟩) (by rw [hw]; rfl)
        exact ⟨.worker ⟨i, hi⟩, s', nofun, hs'⟩
    · exact ⟨.main, _, nofun, by simp only [step, mainStep, hmain, dif_neg hi]; rfl⟩

theorem lines_beginning (h : s.Sound demo) (t : Fin N) :
    s.out.filter (Line.of t) <+: demo.lines t := by
  have hgood := h.crew.good t
  rw [h.lines t]
  cases hw : s.worker t with
  | absent | entered | looping id i count => exact List.nil_prefix
  | ran id =>
    rw [hw] at hgood
    obtain ⟨rfl, -⟩ := hgood
    exact ⟨[.done t], rfl⟩
  | finished retval => exact List.prefix_rfl

end Runs

/-- **Every thread is joined after its last line and with its own result**, for any number of
threads and every interleaving. Each thread prints a beginning of its lines, in order; a `MAIN`
line shows what that thread returns and comes behind all its lines; the `MAIN` lines are in the
order of creation. A run has at most `(cost + 2) * N + 2` steps, and until the demo returns
somebody can move. When it has returned, every line is printed; when a `pthread_create` failed
for thread `i`, no thread was joined and those from `i` on have printed nothing. -/
theorem workers_joined {N : Nat} (demo : Demo) (acts : List (Act N)) (s : State N)
    (hr : runList (step demo) acts (State.initial N) = some s) :
    (∀ t : Fin N, s.out.filter (Line.of t) <+: demo.lines t) ∧
    Each (After demo) s.out ∧
    s.out.filter Line.isReturned = demo.returnedLines (s.main.joined N) ∧
    acts.length ≤ (demo.cost + 2) * N + 2 ∧
    (s.main.exits = false → s.main ≠ .returned → ∃ a s', a ≠ .fails ∧ step demo a s = some s') ∧
    (s.main = .returned →
      (∀ t : Fin N, s.out.filter (Line.of t) = demo.lines t ∧
        s.worker t = .finished (demo.retval t)) ∧
      s.out.filter Line.isReturned = demo.returnedLines N) ∧
    (∀ i, s.main = .exited i →
      s.out.filter Line.isReturned = [] ∧
      ∀ t : Fin N, i ≤ t → s.out.filter (Line.of t) = []) := by
  obtain ⟨h, hlen⟩ := run_rank_le (P := State.Sound demo)
    (fun _ _ _ h hs => ⟨(step_inv hs).sound h, (step_inv hs).left h⟩) acts (initial_sound demo) hr
  rw [initial_left] at hlen
  refine ⟨lines_beginning h, h.order, h.returned, Nat.le_trans (Nat.le_add_right _ _) hlen,
    somebody_moves h, fun hm => ⟨fun t => ?_, ?_⟩, fun i hm => ⟨?_, fun t ht => ?_⟩⟩
  · obtain ⟨retval, hw⟩ := h.crew.joined t (by rw [hm]; exact t.isLt)
    have hlines := h.lines t
    have hgood := h.crew.good t
    rw [hw] at hlines hgood
    rw [hw]
    exact ⟨hlines, congrArg Worker.finished hgood⟩
  · rw [h.returned, hm]
    rfl
  · rw [h.returned, hm]
    rfl
  · have habsent := (h.crew.absent t).mpr (by rw [hm]; exact ht)
    rw [h.lines t, habsent]
    rfl

/-- Two threads of `demo_basic_threads`; the second one runs first. -/
theorem workers_joined_two :
    ∃ s, runList (step .basicThreads)
        [.main, .main, .worker 1, .main, .worker 1, .worker 0, .worker 0, .main, .main, .main]
        (State.initial 2) = some s ∧
      s.out = [.running 1, .done 1, .running 0, .done 0, .returned 0 0, .returned 1 10] ∧
      s.worker 1 = .finished 10 := by
  refine ⟨_, rfl, by decide, ?_⟩
  exact ((workers_joined .basicThreads [.main, .main, .worker 1, .main, .worker 1, .worker 0,
    .worker 0, .main, .main, .main] _ rfl).2.2.2.2.2.1 rfl).1 1 |>.2

end LearnLinux.Workers
