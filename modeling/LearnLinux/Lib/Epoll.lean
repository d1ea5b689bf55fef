import Mathlib.Logic.Basic

/-!
One descriptor in an epoll set, level-triggered or edge-triggered: when `epoll_wait` reports it,
and what it takes for no event to be lost.
-/

namespace LearnLinux.Epoll

/-- A registered descriptor: whether it is edge-triggered, and whether it is on the ready list. -/
structure Item where
  edge : Bool
  queued : Bool
  deriving DecidableEq, Repr

/-- `EPOLL_CTL_ADD`: a descriptor that is readable already goes on the ready list. -/
def Item.add (edge readable : Bool) : Item := ⟨edge, readable⟩

/-- Something arrives at the descriptor. -/
def Item.wake (i : Item) : Item := { i with queued := true }

/-- `epoll_wait` reports what is on the ready list and readable. -/
def Item.reported (i : Item) (readable : Bool) : Bool := i.queued && readable

/-- The descriptor after `epoll_wait`: on the ready list only if it was reported and is
level-triggered. -/
def Item.taken (i : Item) (readable : Bool) : Item :=
  { i with queued := i.reported readable && !i.edge }

/-- No event is lost: what is readable is on the ready list. -/
def Item.Attends (i : Item) (readable : Bool) : Prop := readable = true → i.queued = true

variable {i : Item} {readable : Bool}

theorem attends_add (edge readable : Bool) : (Item.add edge readable).Attends readable := id

theorem attends_wake (i : Item) (readable : Bool) : i.wake.Attends readable := fun _ => rfl

theorem attends_of_not_readable (h : readable = false) : i.Attends readable := by
  intro hr
  rw [h] at hr
  cases hr

/-- `epoll_wait` sees exactly what is readable. -/
theorem Item.Attends.reported_eq (h : i.Attends readable) : i.reported readable = readable := by
  cases readable with
  | false => exact Bool.and_false _
  | true => rw [Item.reported, h rfl, Bool.and_true]

end LearnLinux.Epoll
