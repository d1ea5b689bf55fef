import LearnLinux.Lib.Transition

/-!
# The timers of `08_timers/timer_demo.c` that send signals

`demo_setitimer` and `demo_posix_timer` are one program over two kinds of timer: install a
handler, arm a periodic timer, `pause` until the handler has counted to 5, disarm the timer, and
clean up. The signal of either timer is sent once and is pending until it is delivered. What
expires meanwhile is forgotten by the interval timer and counted as overrun by the POSIX timer,
whose handler adds it. The timer has been created, and the counter is a number without bound: an
`int` holds the count as long as the timer has expired less than 2^31 times.

`timer_demo_counts`: in every interleaving of the program, its handler and the timer the process
is never killed by the signal, no expiration of the POSIX timer is lost while the program waits,
and the program can always come to its end.
-/

namespace LearnLinux.SignalTimers

open Transition

/-! ## The program -/

inductive Kind where
  | itimer
  | posix
  deriving DecidableEq, Repr

/-- What a handler adds for a signal that stands for `n` expirations: `sigalrm_handler` adds 1,
`posix_timer_handler` adds 1 and the overrun. -/
def Kind.credit : Kind → Nat → Nat
  | .itimer, _ => 1
  | .posix, n => 1 + (n - 1)

/-- The next step of the demo. Between the test of the loop and `pause` it is `calling`; it has
`settled` when the call that disarms the timer has to return. -/
inductive Main where
  | install
  | arm
  | test
  | calling
  | pausing
  | disarm
  | settled
  | ended
  deriving DecidableEq, Repr

/-- `merged` is the number of expirations that the pending signal stands for, 0 when none is
pending, and `running` that of the signal whose handler runs. `expirations` counts those of the
timer so far, and `forgotten` those that no handler will count. -/
structure State where
  main : Main
  handled : Bool
  armed : Bool
  merged : Nat
  running : Option Nat
  count : Nat
  killed : Bool
  expirations : Nat
  forgotten : Nat
  deriving DecidableEq, Repr

inductive Act where
  | main
  | expire
  | deliver
  | handler
  deriving DecidableEq, Repr

/-- The timer expires. -/
def expire (s : State) : Option State :=
  if s.armed then
    some { s with merged := s.merged + 1, expirations := s.expirations + 1 }
  else none

/-- The pending signal is delivered: to the handler, or to the default action, which kills. It
is blocked while its handler runs. -/
def deliver (s : State) : Option State :=
  if 0 < s.merged ∧ s.running = none then
    if s.handled then some { s with merged := 0, running := some s.merged }
    else some { s with merged := 0, killed := true }
  else none

/-- The handler counts and returns; a `pause` that it has interrupted returns too. -/
def handlerStep (kind : Kind) (s : State) : Option State :=
  match s.running with
  | none => none
  | some n =>
    some { s with
      running := none
      count := s.count + kind.credit n
      forgotten := s.forgotten + (n - kind.credit n)
      main := if s.main = .pausing then .test else s.main }

/-- One step of the demo, which counts to `goal`. To disarm a POSIX timer resets its overrun. A
system call delivers what is pending before it returns. -/
def mainStep (kind : Kind) (goal : Nat) (s : State) : Option State :=
  if s.running = none then
    match s.main with
    | .install => some { s with handled := true, main := .arm }
    | .arm => some { s with armed := true, main := .test }
    | .test => some { s with main := if s.count < goal then .calling else .disarm }
    | .calling => some { s with main := .pausing }
    | .pausing => none
    | .disarm =>
      match kind with
      | .itimer => some { s with armed := false, main := .settled }
      | .posix =>
        some { s with
          armed := false
          merged := min s.merged 1
          forgotten := s.forgotten + (s.merged - min s.merged 1)
          main := .settled }
    | .settled =>
      if s.merged = 0 then some { s with handled := kind = .posix, main := .ended } else none
    | .ended => none
  else none

/-- A killed process does nothing more. -/
def step (kind : Kind) (goal : Nat) (a : Act) (s : State) : Option State :=
  if s.killed then none
  else match a with
    | .main => mainStep kind goal s
    | .expire => expire s
    | .deliver => deliver s
    | .handler => handlerStep kind s

def State.initial : State := ⟨.install, false, false, 0, none, 0, false, 0, 0⟩

/-! ## The invariant -/

/-- The timer is disarmed for good. -/
def Main.over : Main → Bool
  | .settled | .ended => true
  | .install | .arm | .test | .calling | .pausing | .disarm => false

/-- What is true of the timer and the handler at each step of the demo. -/
def State.At (goal : Nat) (s : State) : Prop :=
  match s.main with
  | .install => s.armed = false ∧ s.merged = 0 ∧ s.running = none
  | .arm => s.handled = true ∧ s.armed = false ∧ s.merged = 0 ∧ s.running = none
  | .test | .calling | .pausing => s.handled = true ∧ s.armed = true
  | .disarm => s.handled = true ∧ s.armed = true ∧ goal ≤ s.count
  | .settled => s.handled = true ∧ s.armed = false ∧ goal ≤ s.count
  | .ended => s.armed = false ∧ s.merged = 0 ∧ s.running = none ∧ goal ≤ s.count

/-- The expirations whose handler runs. -/
def State.inHand (s : State) : Nat := s.running.getD 0

structure State.Sound (kind : Kind) (goal : Nat) (s : State) : Prop where
  alive : s.killed = false
  stage : s.At goal
  account : s.count + s.inHand + s.merged + s.forgotten = s.expirations
  carries : ∀ n, s.running = some n → 0 < n
  lossless : kind = .posix → s.main.over = false → s.forgotten = 0

section Steps

variable {kind : Kind} {goal : Nat} {s s' : State}

theorem initial_sound : State.initial.Sound kind goal :=
  ⟨rfl, ⟨rfl, rfl, rfl⟩, rfl, fun _ h => (by cases h), fun _ _ => rfl⟩

/-- The timer is armed, or its signal pending, only under the handler. -/
theorem State.At.handled (h : s.At goal) (hs : s.armed = true ∨ 0 < s.merged) :
    s.handled = true := by
  unfold State.At at h
  split at h
  next =>
    rcases hs with ha | hm
    · rw [h.1] at ha
      cases ha
    · omega
  next => exact h.1
  next => exact h.1
  next => exact h.1
  next => exact h.1
  next => exact h.1
  next => exact h.1
  next =>
    rcases hs with ha | hm
    · rw [h.1] at ha
      cases ha
    · omega

theorem expire_sound (h : s.Sound kind goal) (hs : expire s = some s') : s'.Sound kind goal := by
  obtain ⟨ha, hs⟩ := Option.ite_none_right_eq_some.mp hs
  obtain rfl := Option.some.inj hs
  have hstage := h.stage
  have haccount := h.account
  refine ⟨h.alive, ?_, ?_, h.carries, h.lossless⟩
  · -- an armed timer is met from the test of the loop until it is disarmed
    unfold State.At at hstage ⊢
    cases hm : s.main with
    | test | calling | pausing | disarm =>
      simp only [hm] at hstage ⊢
      exact hstage
    | install =>
      simp only [hm] at hstage
      rw [hstage.1] at ha
      cases ha
    | arm | settled =>
      simp only [hm] at hstage
      rw [hstage.2.1] at ha
      cases ha
    | ended =>
      simp only [hm] at hstage
      rw [hstage.1] at ha
      cases ha
  · simp only [State.inHand] at haccount ⊢
    omega

theorem deliver_sound (h : s.Sound kind goal) (hs : deliver s = some s') : s'.Sound kind goal := by
  unfold deliver at hs
  obtain ⟨⟨hpos, hidle⟩, hs⟩ := Option.ite_none_right_eq_some.mp hs
  rw [if_pos (h.stage.handled (.inr hpos))] at hs
  obtain rfl := Option.some.inj hs
  have hstage := h.stage
  have haccount := h.account
  refine ⟨h.alive, ?_, ?_, ?_, h.lossless⟩
  · unfold State.At at hstage ⊢
    cases hm : s.main with
    | test | calling | pausing | disarm | settled =>
      simp only [hm] at hstage ⊢
      exact hstage
    | install =>
      simp only [hm] at hstage
      omega
    | arm =>
      simp only [hm] at hstage
      omega
    | ended =>
      simp only [hm] at hstage
      omega
  · simp only [State.inHand, hidle, Option.getD_none, Option.getD_some] at haccount ⊢
    omega
  · rintro n ⟨⟩
    exact hpos

theorem Kind.credit_pos (kind : Kind) (n : Nat) : 0 < kind.credit n := by
  cases kind with
  | itimer => exact Nat.one_pos
  | posix => exact Nat.lt_add_right _ Nat.one_pos

theorem Kind.credit_le (kind : Kind) {n : Nat} (hn : 0 < n) : kind.credit n ≤ n := by
  cases kind with
  | itimer => exact hn
  | posix =>
    simp only [Kind.credit]
    omega

theorem handlerStep_sound (h : s.Sound kind goal) (hs : handlerStep kind s = some s') :
    s'.Sound kind goal := by
  unfold handlerStep at hs
  split at hs
  next => cases hs
  next n hn =>
    obtain rfl := Option.some.inj hs
    have hpos := h.carries n hn
    have hle := kind.credit_le hpos
    have hstage := h.stage
    have haccount := h.account
    refine ⟨h.alive, ?_, ?_, fun _ hnone => (by cases hnone), ?_⟩
    · unfold State.At at hstage ⊢
      cases hm : s.main with
      | test | calling | pausing =>
        simp only [hm] at hstage
        exact hstage
      | disarm | settled =>
        simp only [hm] at hstage
        exact ⟨hstage.1, hstage.2.1, Nat.le_add_right_of_le hstage.2.2⟩
      | install | arm | ended =>
        simp only [hm, hn, reduceCtorEq, and_false, false_and] at hstage
    · simp only [State.inHand, hn, Option.getD_none, Option.getD_some] at haccount ⊢
      omega
    · intro hk hw
      subst hk
      have hnot : s.main.over = false := by
        dsimp only at hw
        split at hw
        next hp =>
          rw [hp]
          rfl
        next => exact hw
      simp only [h.lossless rfl hnot, Kind.credit]
      omega

theorem mainStep_sound (h : s.Sound kind goal) (hs : mainStep kind goal s = some s') :
    s'.Sound kind goal := by
  unfold mainStep at hs
  obtain ⟨hidle, hs⟩ := Option.ite_none_right_eq_some.mp hs
  have hstage := h.stage
  have haccount := h.account
  unfold State.At at hstage
  cases hm : s.main with
  | install =>
    simp only [hm] at hs hstage
    obtain rfl := Option.some.inj hs
    exact ⟨h.alive, ⟨rfl, hstage⟩, haccount, h.carries, fun hk _ => h.lossless hk (by rw [hm]; rfl)⟩
  | arm =>
    simp only [hm] at hs hstage
    obtain rfl := Option.some.inj hs
    exact ⟨h.alive, ⟨hstage.1, rfl⟩, haccount, h.carries,
      fun hk _ => h.lossless hk (by rw [hm]; rfl)⟩
  | test =>
    simp only [hm] at hs hstage
    obtain rfl := Option.some.inj hs
    refine ⟨h.alive, ?_, haccount, h.carries, fun hk _ => h.lossless hk (by rw [hm]; rfl)⟩
    by_cases hc : s.count < goal
    · simp only [State.At, if_pos hc]
      exact hstage
    · simp only [State.At, if_neg hc]
      exact ⟨hstage.1, hstage.2, Nat.le_of_not_lt hc⟩
  | calling =>
    simp only [hm] at hs hstage
    obtain rfl := Option.some.inj hs
    exact ⟨h.alive, hstage, haccount, h.carries, fun hk _ => h.lossless hk (by rw [hm]; rfl)⟩
  | pausing =>
    simp only [hm] at hs
    cases hs
  | disarm =>
    cases kind with
    | itimer =>
      simp only [hm] at hs hstage
      obtain rfl := Option.some.inj hs
      exact ⟨h.alive, ⟨hstage.1, rfl, hstage.2.2⟩, haccount, h.carries, fun hk _ => by cases hk⟩
    | posix =>
      simp only [hm] at hs hstage
      obtain rfl := Option.some.inj hs
      refine ⟨h.alive, ⟨hstage.1, rfl, hstage.2.2⟩, ?_, h.carries, fun _ hw => by cases hw⟩
      simp only [State.inHand] at haccount ⊢
      omega
  | settled =>
    simp only [hm] at hs hstage
    obtain ⟨hzero, hs⟩ := Option.ite_none_right_eq_some.mp hs
    obtain rfl := Option.some.inj hs
    exact ⟨h.alive, ⟨hstage.2.1, hzero, hidle, hstage.2.2⟩, haccount, h.carries,
      fun _ hw => by cases hw⟩
  | ended =>
    simp only [hm] at hs
    cases hs

theorem step_sound {a : Act} (h : s.Sound kind goal) (hs : step kind goal a s = some s') :
    s'.Sound kind goal := by
  simp only [step, h.alive, Bool.false_eq_true, if_false] at hs
  cases a with
  | main => exact mainStep_sound h hs
  | expire => exact expire_sound h hs
  | deliver => exact deliver_sound h hs
  | handler => exact handlerStep_sound h hs

/-! ## The end of the demo -/

/-- How far the demo is from its end, apart from what it still has to count. -/
def State.distance (s : State) : Nat :=
  match s.main with
  | .install => 8
  | .arm => 7
  | .calling => 6
  | .pausing => 5
  | .test => 4
  | .disarm => 3
  | .settled => if s.merged = 0 then 1 else 2
  | .ended => 0

def State.rank (goal : Nat) (s : State) : Nat :=
  9 * (goal - s.count) + s.distance + if s.running = none then 0 else 1

/-- A signal that is pending under the handler can be delivered and handled. -/
theorem handle_pending (kind : Kind) (goal : Nat) (halive : s.killed = false) (hpos : 0 < s.merged)
    (hidle : s.running = none) (hhandled : s.handled = true) :
    ∃ t, runList (step kind goal) [.deliver, .handler] s = some t ∧ s.count < t.count ∧
      t.merged = 0 ∧ t.running = none ∧ t.main = if s.main = .pausing then .test else s.main := by
  refine ⟨_, by simp [runList, step, deliver, handlerStep, halive, hpos, hidle, hhandled]; rfl,
    ?_, rfl, rfl, rfl⟩
  exact Nat.lt_add_of_pos_right (kind.credit_pos _)

/-- While the timer is armed, a `pause` can be brought to its end. -/
theorem tick (kind : Kind) (goal : Nat) (halive : s.killed = false) (harmed : s.armed = true)
    (hidle : s.running = none)
    (hhandled : s.handled = true) (hmain : s.main = .pausing) :
    ∃ as t, runList (step kind goal) as s = some t ∧ s.count < t.count ∧ t.running = none ∧
      t.main = .test := by
  have hexpire : runList (step kind goal) [.expire] s =
      some { s with merged := s.merged + 1, expirations := s.expirations + 1 } := by
    simp [runList, step, expire, halive, harmed]
  obtain ⟨t, hrun, hcount, -, hrunning, htest⟩ := handle_pending kind goal
    (s := { s with merged := s.merged + 1, expirations := s.expirations + 1 }) halive
    (Nat.succ_pos _) hidle hhandled
  refine ⟨_, t, runList_append _ _ hexpire hrun, hcount, hrunning, ?_⟩
  rw [htest, if_pos hmain]

/-- Some steps bring the demo nearer to its end. -/
theorem State.Sound.advance (h : s.Sound kind goal) (hend : s.main ≠ .ended) :
    ∃ as t, runList (step kind goal) as s = some t ∧ t.rank goal < s.rank goal := by
  have hstage := h.stage
  have halive := h.alive
  unfold State.At at hstage
  cases hidle : s.running with
  | some n =>
    -- the handler has to return first
    have hpos := kind.credit_pos n
    refine ⟨[.handler], _, by simp [runList, step, handlerStep, halive, hidle]; rfl, ?_⟩
    simp only [State.rank, State.distance, hidle]
    cases hm : s.main <;> simp <;> omega
  | none =>
    cases hm : s.main with
    | install =>
      refine ⟨[.main], _, by simp [runList, step, mainStep, halive, hidle, hm]; rfl, ?_⟩
      simp [State.rank, State.distance, hidle, hm]
    | arm =>
      refine ⟨[.main], _, by simp [runList, step, mainStep, halive, hidle, hm]; rfl, ?_⟩
      simp [State.rank, State.distance, hidle, hm]
    | test =>
      simp only [hm] at hstage
      by_cases hc : s.count < goal
      · have hcall : runList (step kind goal) [.main, .main] s =
            some { s with main := .pausing } := by
          simp [runList, step, mainStep, halive, hidle, hm, hc]
        obtain ⟨as, t, hrun, hcount, hrunning, htest⟩ := tick kind goal
          (s := { s with main := .pausing }) halive hstage.2 hidle hstage.1 rfl
        refine ⟨_, t, runList_append _ _ hcall hrun, ?_⟩
        dsimp only at hcount
        simp only [State.rank, State.distance, hidle, hm, hrunning, htest]
        omega
      · refine ⟨[.main], _, by simp [runList, step, mainStep, halive, hidle, hm, hc]; rfl, ?_⟩
        simp [State.rank, State.distance, hidle, hm]
    | calling =>
      refine ⟨[.main], _, by simp [runList, step, mainStep, halive, hidle, hm]; rfl, ?_⟩
      simp [State.rank, State.distance, hidle, hm]
    | pausing =>
      simp only [hm] at hstage
      obtain ⟨as, t, hrun, hcount, hrunning, htest⟩ :=
        tick kind goal halive hstage.2 hidle hstage.1 hm
      refine ⟨as, t, hrun, ?_⟩
      simp only [State.rank, State.distance, hidle, hm, hrunning, htest]
      omega
    | disarm =>
      cases kind with
      | itimer =>
        refine ⟨[.main], _, by simp [runList, step, mainStep, halive, hidle, hm]; rfl, ?_⟩
        simp only [State.rank, State.distance, hidle, hm]
        split <;> omega
      | posix =>
        refine ⟨[.main], _, by simp [runList, step, mainStep, halive, hidle, hm]; rfl, ?_⟩
        simp only [State.rank, State.distance, hidle, hm]
        split <;> omega
    | settled =>
      simp only [hm] at hstage
      by_cases hzero : s.merged = 0
      · refine ⟨[.main], _, by simp [runList, step, mainStep, halive, hidle, hm, hzero]; rfl, ?_⟩
        simp [State.rank, State.distance, hidle, hm, hzero]
      · obtain ⟨t, hrun, hcount, hmerged, hrunning, hmain⟩ := handle_pending kind goal halive
          (Nat.pos_of_ne_zero hzero) hidle hstage.1
        refine ⟨_, t, hrun, ?_⟩
        rw [hm, if_neg (by decide)] at hmain
        simp only [State.rank, State.distance, hidle, hm, hzero, hrunning, hmain, hmerged]
        simp only [if_true, if_false]
        omega
    | ended => exact absurd hm hend

end Steps

/-- **The timer demos**, for either timer, every number to count to and every interleaving. The
signal never meets its default action, in particular not when `demo_setitimer` gives it back; the
count never runs ahead of the timer; the POSIX timer's count is exact, apart from what is pending
or in the handler, until the timer is disarmed; the demo ends with at least the number it waits
for, the timer off and nothing pending; and from every state it can be brought to that end. -/
theorem timer_demo_counts (kind : Kind) (goal : Nat) (acts : List Act) (s : State)
    (hr : runList (step kind goal) acts State.initial = some s) :
    s.killed = false ∧
    s.count ≤ s.expirations ∧
    (kind = .posix → s.main.over = false → s.count + s.inHand + s.merged = s.expirations) ∧
    (s.main = .ended → goal ≤ s.count ∧ s.armed = false ∧ s.merged = 0 ∧ s.running = none) ∧
    ∃ more t, runList (step kind goal) more s = some t ∧ t.main = .ended := by
  have hkeep : ∀ a u v, State.Sound kind goal u → step kind goal a u = some v →
      State.Sound kind goal v := fun _ _ _ => step_sound
  have h := runList_invariant hkeep acts initial_sound hr
  have haccount := h.account
  refine ⟨h.alive, by omega, fun hk ho => ?_, fun he => ?_, ?_⟩
  · have hzero := h.lossless hk ho
    omega
  · have hstage := h.stage
    simp only [State.At, he] at hstage
    exact ⟨hstage.2.2.2, hstage.1, hstage.2.1, hstage.2.2.1⟩
  · exact exists_run_of_rank hkeep (fun u hu hne => hu.advance hne) h

/-- Three expirations come in one signal, the fourth one between the test of the loop and `pause`,
and the fifth one ends the `pause`. -/
theorem timer_demo_counts_overrun :
    ∃ s, runList (step .posix 5)
        [.main, .main, .expire, .expire, .expire, .deliver, .handler, .main, .expire, .deliver,
          .handler, .main, .expire, .deliver, .handler, .main, .main, .main] State.initial =
          some s ∧
      s.main = .ended ∧ 5 ≤ s.count ∧ s.expirations = 5 := by
  refine ⟨_, rfl, rfl, ?_, rfl⟩
  exact ((timer_demo_counts .posix 5 [.main, .main, .expire, .expire, .expire, .deliver, .handler,
    .main, .expire, .deliver, .handler, .main, .expire, .deliver, .handler, .main, .main, .main] _
    rfl).2.2.2.1 rfl).1

end LearnLinux.SignalTimers
