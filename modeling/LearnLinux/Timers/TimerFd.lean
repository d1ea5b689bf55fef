import LearnLinux.Lib.Epoll
import LearnLinux.Lib.Transition
import Mathlib.Algebra.Order.Ring.Nat

/-!
# The timer descriptor of `08_timers/timer_demo.c`

`demo_timerfd` arms a periodic timer, registers its descriptor with `EPOLLET`, and adds up what it
reads from it until it has seen 5 expirations. The timer runs before it is registered, and goes on
running between `epoll_wait` and `read`. Each of the four calls that set it up may fail.

`timerfd_loses_nothing`: no expiration is lost or counted twice, the program never waits while
some are unread, and every way out closes both descriptors.
-/

namespace LearnLinux.TimerFd

open Epoll Transition

/-! ## The program -/

/-- The next call of the demo. -/
inductive Main where
  | timerfdCreate
  | timerfdSettime
  | epollCreate
  | epollCtl
  | test
  | epollWait
  | read
  | closeEpfd
  | closeTfd
  | returned
  deriving DecidableEq, Repr

/-- `tfd` and `epfd` say which descriptors are open, and `printed` holds `exp` and `total` of each
line. `unread` are the expirations since the last `read`, `expirations` all of them. -/
structure State where
  main : Main
  tfd : Bool
  epfd : Bool
  armed : Bool
  item : Option Item
  fireCount : BitVec 32
  printed : List (Nat × BitVec 32)
  unread : Nat
  expirations : Nat
  deriving DecidableEq, Repr

/-- `fails` is the call that the demo makes next; `nothing` an `epoll_wait` that returns 0 or -1.
An expiration wakes the descriptor when it is the first one since the last `read`, and may do so
at any other time. -/
inductive Act where
  | main
  | fails
  | nothing
  | expire (wakes : Bool)
  deriving DecidableEq, Repr

def State.readable (s : State) : Bool := 0 < s.unread

/-- A call of the demo that does what it is for. -/
def mainStep (s : State) : Option State :=
  match s.main with
  | .timerfdCreate => some { s with tfd := true, main := .timerfdSettime }
  | .timerfdSettime => some { s with armed := true, main := .epollCreate }
  | .epollCreate => some { s with epfd := true, main := .epollCtl }
  | .epollCtl => some { s with item := some (.add true s.readable), main := .test }
  | .test => some { s with main := if s.fireCount.toInt < 5 then .epollWait else .closeEpfd }
  | .epollWait =>
    match s.item with
    | none => none
    | some i =>
      if i.reported s.readable then some { s with item := some (i.taken s.readable), main := .read }
      else none
  | .read =>
    if 0 < s.unread then
      let total := s.fireCount + (BitVec.ofNat 64 s.unread).setWidth 32
      some { s with
        fireCount := total
        printed := s.printed ++ [(s.unread, total)]
        unread := 0
        main := .test }
    else some { s with main := .test }
  | .closeEpfd => some { s with epfd := false, main := .closeTfd }
  | .closeTfd => some { s with tfd := false, armed := false, main := .returned }
  | .returned => none

/-- Where the demo goes on after a call that has failed. -/
def failStep (s : State) : Option State :=
  match s.main with
  | .timerfdCreate => some { s with main := .returned }
  | .timerfdSettime | .epollCreate => some { s with main := .closeTfd }
  | .epollCtl => some { s with main := .closeEpfd }
  | _ => none

def step : Act → State → Option State
  | .main, s => mainStep s
  | .fails, s => failStep s
  | .nothing, s =>
    if s.main = .epollWait ∧ (s.item.any fun i => i.reported s.readable) = false then
      some { s with main := .test }
    else none
  | .expire wakes, s =>
    if s.armed then
      some { s with
        unread := s.unread + 1
        expirations := s.expirations + 1
        item := s.item.map fun i => if wakes || s.unread = 0 then i.wake else i }
    else none

def State.initial : State := ⟨.timerfdCreate, false, false, false, none, 0, [], 0, 0⟩

/-! ## The invariant -/

/-- What is open, registered and counted at each call. -/
def State.At (s : State) : Prop :=
  match s.main with
  | .timerfdCreate => s.tfd = false ∧ s.epfd = false ∧ s.item = none ∧ s.armed = false
  | .timerfdSettime => s.tfd = true ∧ s.epfd = false ∧ s.item = none
  | .epollCreate => s.tfd = true ∧ s.epfd = false ∧ s.item = none
  | .epollCtl => s.tfd = true ∧ s.epfd = true ∧ s.item = none
  | .test | .epollWait =>
    s.tfd = true ∧ s.epfd = true ∧ ∃ i, s.item = some i ∧ i.edge = true ∧ i.Attends s.readable
  | .read => s.tfd = true ∧ s.epfd = true ∧ ∃ i, s.item = some i ∧ i.edge = true
  | .closeEpfd => s.tfd = true ∧ s.epfd = true ∧ (s.item ≠ none → 5 ≤ s.fireCount.toInt)
  | .closeTfd => s.tfd = true ∧ s.epfd = false ∧ (s.item ≠ none → 5 ≤ s.fireCount.toInt)
  | .returned => s.tfd = false ∧ s.epfd = false ∧ (s.item ≠ none → 5 ≤ s.fireCount.toInt)

/-- The sum of the expirations that the lines show. -/
def State.shown (s : State) : Nat := (s.printed.map Prod.fst).sum

structure State.Sound (s : State) : Prop where
  stage : s.At
  account : s.shown + s.unread = s.expirations
  fireCount : s.fireCount = BitVec.ofNat 32 s.shown

section Steps

variable {s s' : State}

theorem initial_sound : State.initial.Sound := ⟨⟨rfl, rfl, rfl, rfl⟩, rfl, rfl⟩

/-- The first expiration since the last `read` wakes the descriptor. -/
theorem attends_expire {i : Item} {unread : Nat} (wakes : Bool) (h : i.Attends (0 < unread)) :
    (if wakes || decide (unread = 0) then i.wake else i).Attends (decide (0 < unread + 1)) := by
  cases hw : wakes || decide (unread = 0) with
  | true => exact attends_wake i _
  | false =>
    have hpos : 0 < unread := by
      have := (Bool.or_eq_false_iff.mp hw).2
      simp only [decide_eq_false_iff_not] at this
      omega
    intro _
    exact h (decide_eq_true hpos)

theorem edge_expire {i : Item} (wakes : Bool) (unread : Nat) :
    (if wakes || decide (unread = 0) then i.wake else i).edge = i.edge := by
  split <;> rfl

theorem expire_sound {wakes : Bool} (h : s.Sound) (hs : step (.expire wakes) s = some s') :
    s'.Sound := by
  obtain ⟨harmed, hs⟩ := Option.ite_none_right_eq_some.mp hs
  obtain rfl := Option.some.inj hs
  have hstage := h.stage
  have haccount := h.account
  refine ⟨?_, ?_, h.fireCount⟩
  · unfold State.At at hstage ⊢
    cases hm : s.main with
    | timerfdCreate =>
      simp only [hm] at hstage
      rw [hstage.2.2.2] at harmed
      cases harmed
    | timerfdSettime | epollCreate | epollCtl =>
      simp only [hm, Option.map_eq_none_iff] at hstage ⊢
      exact hstage
    | test | epollWait =>
      simp only [hm] at hstage ⊢
      obtain ⟨ht, he, i, hi, hedge, hattends⟩ := hstage
      refine ⟨ht, he, _, by rw [hi]; rfl, ?_, attends_expire wakes hattends⟩
      rw [edge_expire, hedge]
    | read =>
      simp only [hm] at hstage ⊢
      obtain ⟨ht, he, i, hi, hedge⟩ := hstage
      refine ⟨ht, he, _, by rw [hi]; rfl, ?_⟩
      rw [edge_expire, hedge]
    | closeEpfd | closeTfd | returned =>
      simp only [hm, ne_eq, Option.map_eq_none_iff] at hstage ⊢
      exact hstage
  · simp only [State.shown] at haccount ⊢
    omega

theorem failStep_sound (h : s.Sound) (hs : failStep s = some s') : s'.Sound := by
  have hstage := h.stage
  unfold State.At at hstage
  unfold failStep at hs
  split at hs
  next hm =>
    simp only [hm] at hstage
    obtain rfl := Option.some.inj hs
    exact ⟨⟨hstage.1, hstage.2.1, fun hi => absurd hstage.2.2.1 hi⟩, h.account, h.fireCount⟩
  next hm =>
    simp only [hm] at hstage
    obtain rfl := Option.some.inj hs
    exact ⟨⟨hstage.1, hstage.2.1, fun hi => absurd hstage.2.2 hi⟩, h.account, h.fireCount⟩
  next hm =>
    simp only [hm] at hstage
    obtain rfl := Option.some.inj hs
    exact ⟨⟨hstage.1, hstage.2.1, fun hi => absurd hstage.2.2 hi⟩, h.account, h.fireCount⟩
  next hm =>
    simp only [hm] at hstage
    obtain rfl := Option.some.inj hs
    exact ⟨⟨hstage.1, hstage.2.1, fun hi => absurd hstage.2.2 hi⟩, h.account, h.fireCount⟩
  next => cases hs

/-- `fire_count += (int)exp` adds what was unread, modulo the width of an `int`. -/
theorem add_exp (n unread : Nat) :
    BitVec.ofNat 32 n + (BitVec.ofNat 64 unread).setWidth 32 = BitVec.ofNat 32 (n + unread) := by
  apply BitVec.eq_of_toNat_eq
  simp only [BitVec.toNat_add, BitVec.toNat_ofNat, BitVec.toNat_setWidth]
  omega

theorem shown_concat (printed : List (Nat × BitVec 32)) (exp : Nat) (total : BitVec 32) :
    ((printed ++ [(exp, total)]).map Prod.fst).sum = (printed.map Prod.fst).sum + exp := by
  simp

theorem mainStep_sound (h : s.Sound) (hs : mainStep s = some s') : s'.Sound := by
  have hstage := h.stage
  have haccount := h.account
  unfold State.At at hstage
  cases hm : s.main with
  | timerfdCreate =>
    simp only [mainStep, hm] at hs hstage
    obtain rfl := Option.some.inj hs
    exact ⟨⟨rfl, hstage.2.1, hstage.2.2.1⟩, haccount, h.fireCount⟩
  | timerfdSettime =>
    simp only [mainStep, hm] at hs hstage
    obtain rfl := Option.some.inj hs
    exact ⟨hstage, haccount, h.fireCount⟩
  | epollCreate =>
    simp only [mainStep, hm] at hs hstage
    obtain rfl := Option.some.inj hs
    exact ⟨⟨hstage.1, rfl, hstage.2.2⟩, haccount, h.fireCount⟩
  | epollCtl =>
    simp only [mainStep, hm] at hs hstage
    obtain rfl := Option.some.inj hs
    exact ⟨⟨hstage.1, hstage.2.1, _, rfl, rfl, attends_add true _⟩, haccount, h.fireCount⟩
  | test =>
    simp only [mainStep, hm] at hs hstage
    obtain rfl := Option.some.inj hs
    refine ⟨?_, haccount, h.fireCount⟩
    by_cases hc : s.fireCount.toInt < 5
    · simp only [State.At, if_pos hc]
      exact hstage
    · simp only [State.At, if_neg hc]
      exact ⟨hstage.1, hstage.2.1, fun _ => Int.not_lt.mp hc⟩
  | epollWait =>
    simp only [mainStep, hm] at hs hstage
    obtain ⟨ht, he, i, hi, hedge, -⟩ := hstage
    simp only [hi] at hs
    obtain ⟨-, hs⟩ := Option.ite_none_right_eq_some.mp hs
    obtain rfl := Option.some.inj hs
    exact ⟨⟨ht, he, _, rfl, hedge⟩, haccount, h.fireCount⟩
  | read =>
    simp only [mainStep, hm] at hs hstage
    obtain ⟨ht, he, i, hi, hedge⟩ := hstage
    by_cases hpos : 0 < s.unread
    · rw [if_pos hpos] at hs
      obtain rfl := Option.some.inj hs
      refine ⟨⟨ht, he, i, hi, hedge, attends_of_not_readable rfl⟩, ?_, ?_⟩
      · simp only [State.shown, shown_concat] at haccount ⊢
        exact haccount
      · rw [State.shown, shown_concat, h.fireCount]
        exact add_exp _ _
    · rw [if_neg hpos] at hs
      obtain rfl := Option.some.inj hs
      exact ⟨⟨ht, he, i, hi, hedge, attends_of_not_readable (decide_eq_false hpos)⟩, haccount,
        h.fireCount⟩
  | closeEpfd =>
    simp only [mainStep, hm] at hs hstage
    obtain rfl := Option.some.inj hs
    exact ⟨⟨hstage.1, rfl, hstage.2.2⟩, haccount, h.fireCount⟩
  | closeTfd =>
    simp only [mainStep, hm] at hs hstage
    obtain rfl := Option.some.inj hs
    exact ⟨⟨rfl, hstage.2⟩, haccount, h.fireCount⟩
  | returned =>
    simp only [mainStep, hm] at hs
    cases hs

theorem step_sound {a : Act} (h : s.Sound) (hs : step a s = some s') : s'.Sound := by
  cases a with
  | main => exact mainStep_sound h hs
  | fails => exact failStep_sound h hs
  | expire wakes => exact expire_sound h hs
  | nothing =>
    obtain ⟨⟨hm, -⟩, hs⟩ := Option.ite_none_right_eq_some.mp hs
    obtain rfl := Option.some.inj hs
    have hstage := h.stage
    simp only [State.At, hm] at hstage
    exact ⟨hstage, h.account, h.fireCount⟩

end Steps

/-- **No expiration is lost**, in every interleaving of the demo with its timer. The lines and
what is unread account for every expiration, and `fire_count` is the sum of the lines as long as
an `int` holds it. While expirations are unread, `epoll_wait` returns and the `read` behind it
takes all of them. However the demo returns, both descriptors are closed, and if the timer was
registered, at least 5 expirations are counted. -/
theorem timerfd_loses_nothing (acts : List Act) (s : State)
    (hr : runList step acts State.initial = some s) :
    s.shown + s.unread = s.expirations ∧
    (s.expirations < 2 ^ 31 → s.fireCount.toInt = s.shown) ∧
    (s.main = .epollWait → 0 < s.unread → ∃ t u, step .main s = some t ∧ step .main t = some u ∧
      u.unread = 0 ∧ u.shown = s.expirations) ∧
    (s.main = .returned →
      s.tfd = false ∧ s.epfd = false ∧ (s.item ≠ none → 5 ≤ s.fireCount.toInt)) := by
  have h := runList_invariant (fun _ _ _ => step_sound) acts initial_sound hr
  have haccount := h.account
  have hstage := h.stage
  refine ⟨haccount, fun hlt => ?_, fun hm hpos => ?_, fun hm => ?_⟩
  · rw [h.fireCount, BitVec.toInt_ofNat']
    exact Int.bmod_eq_of_le (by omega) (by omega)
  · simp only [State.At, hm] at hstage
    obtain ⟨-, -, i, hi, -, hattends⟩ := hstage
    have hreported : i.reported s.readable = true :=
      hattends.reported_eq.trans (decide_eq_true hpos)
    have hwait : step .main s =
        some { s with item := some (i.taken s.readable), main := .read } := by
      simp only [step, mainStep, hm, hi, if_pos hreported]
    refine ⟨_, _, hwait, by simp only [step, mainStep, if_pos hpos]; rfl, rfl, ?_⟩
    rw [State.shown, shown_concat]
    exact haccount
  · simpa only [State.At, hm] using hstage

/-- Two expirations before the descriptor is registered, and three more between `epoll_wait` and
`read`. -/
theorem timerfd_loses_nothing_late :
    ∃ s, runList step [.main, .main, .expire true, .expire false, .main, .main, .main, .main,
        .expire false, .expire true, .expire false, .main, .main, .main, .main] State.initial =
          some s ∧
      s.main = .returned ∧ s.printed = [(5, 5)] ∧ s.tfd = false := by
  refine ⟨_, rfl, rfl, rfl, ?_⟩
  exact ((timerfd_loses_nothing [.main, .main, .expire true, .expire false, .main, .main, .main,
    .main, .expire false, .expire true, .expire false, .main, .main, .main, .main] _
    rfl).2.2.2 rfl).1

end LearnLinux.TimerFd
