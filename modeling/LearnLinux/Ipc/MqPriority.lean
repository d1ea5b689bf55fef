import LearnLinux.Ipc.Mqueue
import LearnLinux.Lib.Transition

/-!
# Priorities in `03_ipc/mq_demo.c`

`demo_basic_mq` opens the name with `O_CREAT`; the `mq_unlink` in front of it is commented out, so
that an earlier run may have left a queue there. The child runs another program, which sends some
messages to the queue. The parent waits for the child first, and receives three messages then.

`mq_priority_order`: when the demo returns, and what it has received then.
-/

namespace LearnLinux.MqPriority

open Mqueue PriorityQueue Transition

/-! ## The two processes -/

/-- The parent: in `wait`, in round `i` of its loop, about to unlink, and back in `main`. -/
inductive Parent where
  | waiting
  | receiving (i : Nat)
  | unlinking
  | returned
  deriving DecidableEq, Repr

/-- `child` are the messages that the program run by the child still has to send, `none` once it
has exited. `received` are the messages that `mq_receive` has returned, and `printed` those of
them that got a line. -/
structure Basic where
  mq : Mq
  child : Option (List Msg)
  parent : Parent
  received : List Msg
  printed : List Msg
  deriving DecidableEq, Repr

inductive Process where
  | child
  | parent
  deriving DecidableEq, Repr

/-- One step of the program that the child runs: the next `mq_send`, or the exit. -/
def childStep (s : Basic) : Option Basic :=
  match s.child with
  | none => none
  | some [] => some { s with child := none }
  | some (m :: ms) =>
    match s.mq.send m with
    | .returns q => some { s with mq := q, child := some ms }
    | .fails => some { s with child := some ms }
    | .waits => none

/-- One step of the parent. -/
def parentStep (s : Basic) : Option Basic :=
  match s.parent with
  | .waiting => if s.child = none then some { s with parent := .receiving 0 } else none
  | .receiving i =>
    if i < 3 then
      match s.mq.receive maxSize with
      | .returns (m, q) =>
        let printed := if 0 < m.2.length then s.printed ++ [m] else s.printed
        some { s with
          mq := q, parent := .receiving (i + 1), received := s.received ++ [m], printed }
      | .fails => some { s with parent := .receiving (i + 1) }
      | .waits => none
    else some { s with parent := .unlinking }
  | .unlinking => some { s with parent := .returned }
  | .returned => none

def basicStep : Process → Basic → Option Basic
  | .child => childStep
  | .parent => parentStep

/-- The queue is open, the child is made and will send `ms`. -/
def Basic.initial (q : Mq) (ms : List Msg) : Basic := ⟨q, some ms, .waiting, [], []⟩

/-- The messages that the queue does not refuse. -/
def accepted (q : Mq) (ms : List Msg) : List Msg := ms.filter fun m => m.2.length ≤ q.msgsize

/-- How many rounds of the loop are over. -/
def Parent.rounds : Parent → Nat
  | .waiting => 0
  | .receiving i => i
  | .unlinking | .returned => 3

/-- Nothing is lost: what was received and what is still there are the messages of the queue as
it was found and those that the child has sent. -/
structure Basic.Sound (q : Mq) (ms : List Msg) (s : Basic) : Prop where
  maxmsg : s.mq.maxmsg = q.maxmsg
  msgsize : s.mq.msgsize = q.msgsize
  queue : ∃ before, ms = before ++ s.child.getD [] ∧
    s.received ++ s.mq.msgs = enqueueAll q.msgs (accepted q before) ∧
    q.msgs.length + (accepted q before).length ≤ q.maxmsg
  waiting : s.child ≠ none → s.parent = .waiting
  rounds : s.parent.rounds ≤ 3
  received : s.received.length = if maxSize < q.msgsize then 0 else s.parent.rounds
  printed : s.printed = s.received.filter fun m => 0 < m.2.length

section Basic

variable {q : Mq} {ms : List Msg} {s s' : Basic}

theorem accepted_concat (before : List Msg) (m : Msg) :
    accepted q (before ++ [m]) =
      accepted q before ++ if m.2.length ≤ q.msgsize then [m] else [] := by
  simp [accepted, List.filter_append, List.filter_singleton]

theorem enqueueAll_concat (msgs before : List Msg) (m : Msg) :
    enqueueAll msgs (before ++ [m]) = enqueue (enqueueAll msgs before) m := by
  rw [enqueueAll, List.foldl_append]
  rfl

theorem basic_initial_sound (hq : q.msgs.length ≤ q.maxmsg) :
    (Basic.initial q ms).Sound q ms where
  maxmsg := rfl
  msgsize := rfl
  queue := ⟨[], rfl, rfl, hq⟩
  waiting _ := rfl
  rounds := Nat.zero_le _
  received := by split <;> rfl
  printed := rfl

/-- Before the child has exited, nothing is received. -/
theorem Basic.Sound.nothing_received (h : s.Sound q ms) (hc : s.child ≠ none) :
    s.received = [] := by
  have hlen := h.received
  rw [h.waiting hc] at hlen
  apply List.eq_nil_of_length_eq_zero
  rw [hlen]
  split <;> rfl

theorem childStep_sound (h : s.Sound q ms) (hs : childStep s = some s') : s'.Sound q ms := by
  obtain ⟨before, hms, hqueue, hroom⟩ := h.queue
  cases hc : s.child with
  | none =>
    simp only [childStep, hc] at hs
    cases hs
  | some rest =>
    have hrun : s.child ≠ none := by
      rw [hc]
      exact Option.some_ne_none rest
    have hnil := h.nothing_received hrun
    have hparent := h.waiting hrun
    rw [hc, Option.getD_some] at hms
    cases rest with
    | nil =>
      simp only [childStep, hc] at hs
      obtain rfl := Option.some.inj hs
      exact ⟨h.maxmsg, h.msgsize, ⟨before, hms, hqueue, hroom⟩, fun hn => absurd rfl hn, h.rounds,
        h.received, h.printed⟩
    | cons m rest =>
      have hms' : ms = (before ++ [m]) ++ rest := by rw [hms, List.append_assoc]; rfl
      simp only [childStep, hc] at hs
      split at hs
      next q' hsend =>
        obtain rfl := Option.some.inj hs
        obtain ⟨hfits, hlt, rfl⟩ := Mq.send_returns hsend
        rw [h.msgsize] at hfits
        rw [h.maxmsg] at hlt
        rw [hnil, List.nil_append] at hqueue
        have hlen := congrArg List.length hqueue
        rw [length_enqueueAll] at hlen
        refine ⟨h.maxmsg, h.msgsize, ⟨before ++ [m], hms', ?_, ?_⟩, fun _ => hparent, h.rounds,
          h.received, h.printed⟩
        · rw [accepted_concat, if_pos hfits, enqueueAll_concat, ← hqueue, hnil]
          rfl
        · rw [accepted_concat, if_pos hfits, List.length_append, List.length_singleton]
          omega
      next hsend =>
        obtain rfl := Option.some.inj hs
        have hlong := Mq.send_fails hsend
        rw [h.msgsize] at hlong
        refine ⟨h.maxmsg, h.msgsize, ⟨before ++ [m], hms', ?_⟩, fun _ => hparent, h.rounds,
          h.received, h.printed⟩
        rw [accepted_concat, if_neg (Nat.not_le.mpr hlong), List.append_nil]
        exact ⟨hqueue, hroom⟩
      next => cases hs

theorem parentStep_sound (h : s.Sound q ms) (hs : parentStep s = some s') : s'.Sound q ms := by
  have hlen := h.received
  cases hp : s.parent with
  | waiting =>
    simp only [parentStep, hp] at hs
    obtain ⟨hc, hs⟩ := Option.ite_none_right_eq_some.mp hs
    obtain rfl := Option.some.inj hs
    rw [hp] at hlen
    exact ⟨h.maxmsg, h.msgsize, h.queue, fun hn => absurd hc hn, Nat.zero_le _, hlen, h.printed⟩
  | receiving i =>
    have hexited : s.child = none := by
      by_contra hc
      have := h.waiting hc
      rw [hp] at this
      cases this
    rw [hp] at hlen
    by_cases hi : i < 3
    · simp only [parentStep, hp, if_pos hi] at hs
      split at hs
      next m q' hreceive =>
        obtain rfl := Option.some.inj hs
        obtain ⟨hsize, hmsgs, hq'⟩ := Mq.receive_returns hreceive
        rw [h.msgsize] at hsize
        rw [if_neg (Nat.not_lt.mpr hsize)] at hlen
        obtain ⟨before, hms, hqueue, hroom⟩ := h.queue
        refine ⟨?_, ?_, ⟨before, hms, ?_, hroom⟩, fun hn => absurd hexited hn, hi, ?_, ?_⟩
        · rw [hq']
          exact h.maxmsg
        · rw [hq']
          exact h.msgsize
        · rw [← hqueue, hmsgs, List.append_assoc]
          rfl
        · rw [if_neg (Nat.not_lt.mpr hsize), List.length_append, hlen]
          rfl
        · simp only [List.filter_append, List.filter_singleton, h.printed]
          split
          next hpos => rw [decide_eq_true hpos, cond_true]
          next hzero => rw [decide_eq_false hzero, cond_false, List.append_nil]
      next hreceive =>
        obtain rfl := Option.some.inj hs
        have hsize := Mq.receive_fails hreceive
        rw [h.msgsize] at hsize
        rw [if_pos hsize] at hlen
        exact ⟨h.maxmsg, h.msgsize, h.queue, fun hn => absurd hexited hn, hi,
          by rw [if_pos hsize]; exact hlen, h.printed⟩
      next => cases hs
    · simp only [parentStep, hp, if_neg hi] at hs
      obtain rfl := Option.some.inj hs
      have hrounds := h.rounds
      rw [hp] at hrounds
      have h3 : i = 3 := Nat.le_antisymm hrounds (Nat.le_of_not_lt hi)
      subst h3
      exact ⟨h.maxmsg, h.msgsize, h.queue, fun hn => absurd hexited hn, Nat.le_refl 3, hlen,
        h.printed⟩
  | unlinking =>
    simp only [parentStep, hp] at hs
    obtain rfl := Option.some.inj hs
    rw [hp] at hlen
    refine ⟨h.maxmsg, h.msgsize, h.queue, fun hn => ?_, Nat.le_refl 3, hlen, h.printed⟩
    have := h.waiting hn
    rw [hp] at this
    cases this
  | returned =>
    simp only [parentStep, hp] at hs
    cases hs

/-- The steps the two processes can still take. -/
def Basic.left (s : Basic) : Nat :=
  (match s.child with
    | some ms => ms.length + 1
    | none => 0) +
  match s.parent with
    | .waiting => 6
    | .receiving i => 3 - i + 2
    | .unlinking => 1
    | .returned => 0

theorem basicStep_left {p : Process} (hs : basicStep p s = some s') : s'.left + 1 ≤ s.left := by
  cases p with
  | child =>
    simp only [basicStep, childStep] at hs
    split at hs
    next => cases hs
    next hc =>
      obtain rfl := Option.some.inj hs
      simp only [Basic.left, hc, List.length_nil]
      omega
    next m rest hc =>
      split at hs
      next =>
        obtain rfl := Option.some.inj hs
        simp only [Basic.left, hc, List.length_cons]
        omega
      next =>
        obtain rfl := Option.some.inj hs
        simp only [Basic.left, hc, List.length_cons]
        omega
      next => cases hs
  | parent =>
    simp only [basicStep, parentStep] at hs
    split at hs
    next hp =>
      obtain ⟨-, hs⟩ := Option.ite_none_right_eq_some.mp hs
      obtain rfl := Option.some.inj hs
      simp only [Basic.left, hp]
      omega
    next i hp =>
      split at hs
      next hi =>
        split at hs
        next =>
          obtain rfl := Option.some.inj hs
          simp only [Basic.left, hp]
          omega
        next =>
          obtain rfl := Option.some.inj hs
          simp only [Basic.left, hp]
          omega
        next => cases hs
      next =>
        obtain rfl := Option.some.inj hs
        simp only [Basic.left, hp]
        omega
    next hp =>
      obtain rfl := Option.some.inj hs
      simp only [Basic.left, hp]
      omega
    next => cases hs

/-- The child is stuck when the next message finds the queue full; nobody takes one out. -/
theorem Basic.Sound.child_stuck (h : s.Sound q ms) (hs : childStep s = none)
    (hc : s.child ≠ none) : q.maxmsg < q.msgs.length + (accepted q ms).length := by
  obtain ⟨before, hms, hqueue, -⟩ := h.queue
  rw [h.nothing_received hc, List.nil_append] at hqueue
  have hlen := congrArg List.length hqueue
  rw [length_enqueueAll] at hlen
  obtain ⟨rest, hrest⟩ := Option.ne_none_iff_exists'.mp hc
  rw [hrest, Option.getD_some] at hms
  simp only [childStep, hrest] at hs
  cases rest with
  | nil => cases hs
  | cons m rest =>
    cases hsend : s.mq.send m with
    | returns q' =>
      simp only [hsend] at hs
      cases hs
    | fails =>
      simp only [hsend] at hs
      cases hs
    | waits =>
      obtain ⟨hfits, hfull⟩ := Mq.send_waits hsend
      rw [h.msgsize] at hfits
      rw [h.maxmsg] at hfull
      rw [hms, accepted, List.filter_append, List.filter_cons_of_pos (by simpa using hfits),
        List.length_append, List.length_cons]
      rw [accepted] at hlen
      omega

/-- The parent is stuck in `mq_receive` when all messages are gone. -/
theorem Basic.Sound.parent_stuck (h : s.Sound q ms) (hs : parentStep s = none)
    (hc : s.child = none) :
    s.parent = .returned ∨
      q.msgsize ≤ maxSize ∧ q.msgs.length + (accepted q ms).length < 3 := by
  obtain ⟨before, hms, hqueue, -⟩ := h.queue
  rw [hc, Option.getD_none, List.append_nil] at hms
  have hlen := congrArg List.length hqueue
  rw [length_enqueueAll, ← hms, List.length_append] at hlen
  cases hp : s.parent with
  | waiting =>
    simp only [parentStep, hp, if_pos hc] at hs
    cases hs
  | receiving i =>
    by_cases hi : i < 3
    · simp only [parentStep, hp, if_pos hi] at hs
      split at hs
      next => cases hs
      next => cases hs
      next hreceive =>
        obtain ⟨hsize, hmsgs⟩ := Mq.receive_waits hreceive
        rw [h.msgsize] at hsize
        have hgot := h.received
        rw [if_neg (Nat.not_lt.mpr hsize), hp, Parent.rounds] at hgot
        rw [hmsgs, List.length_nil] at hlen
        exact .inr ⟨hsize, by omega⟩
    · simp only [parentStep, hp, if_neg hi] at hs
      cases hs
  | unlinking =>
    simp only [parentStep, hp] at hs
    cases hs
  | returned => exact .inl rfl

end Basic

/-- **Highest priority first**, for every queue `q` that stood under the name (its `mq_unlink` is
commented out) and every list of messages that the child sends, once `mq_open` and `fork` have
succeeded. Where a run cannot go on, the demo has returned if and only if all messages fit into the
queue and there are at least three; it has then received three messages. With those left behind
they are sorted by priority, each priority in the order of sending after what the queue held
before. Of a queue whose messages may be longer than the buffer, nothing is received. -/
theorem mq_priority_order (q : Mq) (ms : List Msg) (hq : q.msgs.length ≤ q.maxmsg)
    (hd : Descending q.msgs) (procs : List Process) (s : Basic)
    (hr : runList basicStep procs (Basic.initial q ms) = some s) :
    procs.length ≤ ms.length + 7 ∧
    ((∀ p, basicStep p s = none) →
      (s.parent = .returned ↔ q.msgs.length + (accepted q ms).length ≤ q.maxmsg ∧
        (maxSize < q.msgsize ∨ 3 ≤ q.msgs.length + (accepted q ms).length)) ∧
      (s.parent = .returned →
        s.received.length = (if maxSize < q.msgsize then 0 else 3) ∧
        s.printed = (s.received.filter fun m => 0 < m.2.length) ∧
        Descending (s.received ++ s.mq.msgs) ∧
        ∀ p, level p (s.received ++ s.mq.msgs) = level p q.msgs ++ level p (accepted q ms))) := by
  have hrule : ∀ p u v, Basic.Sound q ms u → basicStep p u = some v →
      Basic.Sound q ms v ∧ v.left + 1 ≤ u.left := by
    intro p u v hu hv
    refine ⟨?_, basicStep_left hv⟩
    cases p with
    | child => exact childStep_sound hu hv
    | parent => exact parentStep_sound hu hv
  obtain ⟨h, hlen⟩ := run_rank_le hrule procs (basic_initial_sound hq) hr
  have hleft : (Basic.initial q ms).left = ms.length + 7 := rfl
  have hreturned : s.parent = .returned → s.child = none := by
    intro hp
    by_contra hc
    have hw := h.waiting hc
    rw [hp] at hw
    cases hw
  refine ⟨by omega, fun hstuck => ⟨?_, fun hp => ?_⟩⟩
  · constructor
    · intro hp
      obtain ⟨before, hms, hqueue, hroom⟩ := h.queue
      rw [hreturned hp, Option.getD_none, List.append_nil] at hms
      subst hms
      refine ⟨hroom, ?_⟩
      have hgot := h.received
      have hall := congrArg List.length hqueue
      rw [length_enqueueAll, List.length_append] at hall
      rw [hp, Parent.rounds] at hgot
      by_cases hsize : maxSize < q.msgsize
      · exact .inl hsize
      · rw [if_neg hsize] at hgot
        exact .inr (by omega)
    · rintro ⟨hfit, henough⟩
      by_cases hc : s.child = none
      · rcases h.parent_stuck (hstuck .parent) hc with hp | ⟨hsize, hfew⟩
        · exact hp
        · omega
      · have hfull := h.child_stuck (hstuck .child) hc
        omega
  · obtain ⟨before, hms, hqueue, -⟩ := h.queue
    rw [hreturned hp, Option.getD_none, List.append_nil] at hms
    subst hms
    have hgot := h.received
    rw [hp] at hgot
    refine ⟨hgot, h.printed, ?_, fun p => ?_⟩
    · rw [hqueue]
      exact enqueueAll_descending hd _
    · rw [hqueue, level_enqueueAll p hd]

/-- Three messages of the child and a forgotten one: the two most urgent ones come first, and of
the two that are equally urgent the forgotten one. -/
theorem mq_priority_order_three :
    ∃ s, runList basicStep
        [.child, .child, .child, .child, .parent, .parent, .parent, .parent, .parent, .parent]
        (Basic.initial ⟨8, 256, [(5, [97, 0])]⟩ [(1, [98, 0]), (9, [99, 0]), (5, [100, 0])]) =
          some s ∧
      s.printed = [(9, [99, 0]), (5, [97, 0]), (5, [100, 0])] ∧ s.parent = .returned := by
  have hrun : runList basicStep
      [.child, .child, .child, .child, .parent, .parent, .parent, .parent, .parent, .parent]
      (Basic.initial ⟨8, 256, [(5, [97, 0])]⟩ [(1, [98, 0]), (9, [99, 0]), (5, [100, 0])]) =
      some ⟨⟨8, 256, [(1, [98, 0])]⟩, none, .returned,
        [(9, [99, 0]), (5, [97, 0]), (5, [100, 0])],
        [(9, [99, 0]), (5, [97, 0]), (5, [100, 0])]⟩ := by decide
  refine ⟨_, hrun, rfl, ?_⟩
  refine (((mq_priority_order ⟨8, 256, [(5, [97, 0])]⟩ _ (by decide)
    (List.pairwise_singleton _ _) _ _ hrun).2 ?_).1).mpr (by decide)
  intro p
  cases p <;> rfl

end LearnLinux.MqPriority
