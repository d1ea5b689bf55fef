import LearnLinux.Lib.PriorityQueue

/-!
# Message queues

The kernel's side of `03_ipc/mq_demo.c`. A queue holds at most `mq_maxmsg` messages of at most
`mq_msgsize` bytes, the most urgent ones in front. A name stands for at most one queue;
`mq_unlink` takes the name away and leaves the queue to those that have it open.
-/

namespace LearnLinux.Mqueue

open PriorityQueue

/-- `MAX_SIZE` and `MAX_MSGS`. -/
def maxSize : Nat := 256

def maxMsgs : Nat := 8

abbrev Msg := Message (List UInt8)

structure Mq where
  maxmsg : Nat
  msgsize : Nat
  msgs : List Msg
  deriving DecidableEq, Repr

/-- `make_attr`, as far as `mq_open` looks at it. -/
def makeAttr : Mq := ⟨maxMsgs, maxSize, []⟩

/-- A call on a blocking descriptor returns, fails at once, or waits. -/
inductive Result (α : Type) where
  | returns (a : α)
  | fails
  | waits
  deriving DecidableEq, Repr

/-- `mq_send`: a message that is too long is an error, a full queue makes the caller wait. -/
def Mq.send (q : Mq) (m : Msg) : Result Mq :=
  if q.msgsize < m.2.length then .fails
  else if q.msgs.length < q.maxmsg then .returns { q with msgs := enqueue q.msgs m }
  else .waits

/-- `mq_receive` with a buffer of `len` bytes, which has to be as long as any message of the
queue may be. -/
def Mq.receive (q : Mq) (len : Nat) : Result (Msg × Mq) :=
  if len < q.msgsize then .fails
  else match q.msgs with
    | [] => .waits
    | m :: msgs => .returns (m, { q with msgs })

theorem Mq.send_returns {q q' : Mq} {m : Msg} (h : q.send m = .returns q') :
    m.2.length ≤ q.msgsize ∧ q.msgs.length < q.maxmsg ∧
      q' = { q with msgs := enqueue q.msgs m } := by
  unfold Mq.send at h
  split at h
  next => cases h
  next hfits =>
    split at h
    next hroom => exact ⟨Nat.le_of_not_lt hfits, hroom, (Result.returns.inj h).symm⟩
    next => cases h

theorem Mq.send_fails {q : Mq} {m : Msg} (h : q.send m = .fails) : q.msgsize < m.2.length := by
  unfold Mq.send at h
  split at h
  next hlong => exact hlong
  next => split at h <;> cases h

theorem Mq.send_waits {q : Mq} {m : Msg} (h : q.send m = .waits) :
    m.2.length ≤ q.msgsize ∧ q.maxmsg ≤ q.msgs.length := by
  unfold Mq.send at h
  split at h
  next => cases h
  next hfits =>
    split at h
    next => cases h
    next hfull => exact ⟨Nat.le_of_not_lt hfits, Nat.le_of_not_lt hfull⟩

theorem Mq.receive_returns {q q' : Mq} {len : Nat} {m : Msg} (h : q.receive len = .returns (m, q')) :
    q.msgsize ≤ len ∧ q.msgs = m :: q'.msgs ∧ q' = { q with msgs := q'.msgs } := by
  unfold Mq.receive at h
  split at h
  next => cases h
  next hlen =>
    split at h
    next => cases h
    next m' msgs hm =>
      cases h
      exact ⟨Nat.le_of_not_lt hlen, hm, rfl⟩

theorem Mq.receive_fails {q : Mq} {len : Nat} (h : q.receive len = .fails) : len < q.msgsize := by
  unfold Mq.receive at h
  split at h
  next hlen => exact hlen
  next => split at h <;> cases h

theorem Mq.receive_waits {q : Mq} {len : Nat} (h : q.receive len = .waits) :
    q.msgsize ≤ len ∧ q.msgs = [] := by
  unfold Mq.receive at h
  split at h
  next => cases h
  next hlen =>
    split at h
    next hm => exact ⟨Nat.le_of_not_lt hlen, hm⟩
    next => cases h

/-- The queues by number, and the one that the name `MQ_NAME` stands for. -/
structure Kernel where
  mqs : List Mq
  name : Option Nat
  deriving DecidableEq, Repr

/-- `mq_open` with `O_CREAT`: the queue of that name, or a new one. -/
def Kernel.mqOpen (k : Kernel) : Nat × Kernel :=
  match k.name with
  | some mq => (mq, k)
  | none => (k.mqs.length, ⟨k.mqs ++ [makeAttr], some k.mqs.length⟩)

def Kernel.mqUnlink (k : Kernel) : Kernel := { k with name := none }

/-- The queue `mq` after a call that changed it. -/
def Kernel.put (k : Kernel) (mq : Nat) (q : Mq) : Kernel := { k with mqs := k.mqs.set mq q }

end LearnLinux.Mqueue
