import Mathlib.Data.List.Nodup

/-!
Processes with a parent, over any type of programs: `fork`, termination, which leaves a zombie and
hands its children to init, and the reaping by a parent. What a process waits for are its children,
and only its own `fork` and its own reaping change which these are.
-/

namespace LearnLinux.ProcessTable

variable {κ : Type*}

/-- How a process has ended. -/
inductive Status where
  | exited (code : Nat)
  | signaled (sig : Nat)
  deriving DecidableEq, Repr

/-- A process that has a `status` is a zombie. -/
structure Proc (κ : Type*) where
  pid : Nat
  parent : Nat
  job : κ
  status : Option Status
  deriving DecidableEq, Repr

/-- The process that takes over orphans. -/
def init : Nat := 1

def fork (table : List (Proc κ)) (parent pid : Nat) (job : κ) : List (Proc κ) :=
  table ++ [⟨pid, parent, job, none⟩]

/-- What becomes of a process when `pid` ends. -/
def Proc.outlive (pid : Nat) (status : Status) (p : Proc κ) : Proc κ :=
  if p.pid = pid then { p with status := some status }
  else if p.parent = pid then { p with parent := init }
  else p

def terminate (table : List (Proc κ)) (pid : Nat) (status : Status) : List (Proc κ) :=
  table.map (Proc.outlive pid status)

def reap (table : List (Proc κ)) (pid : Nat) : List (Proc κ) := table.filter fun p => p.pid ≠ pid

def children (table : List (Proc κ)) (parent : Nat) : List (Proc κ) :=
  table.filter fun p => p.parent = parent

section Lemmas

variable {table : List (Proc κ)} {parent pid : Nat} {job : κ} {status : Status}

theorem children_fork_self :
    children (fork table parent pid job) parent =
      children table parent ++ [⟨pid, parent, job, none⟩] := by
  simp [children, fork]

theorem children_fork_of_ne {other : Nat} (h : other ≠ parent) :
    children (fork table other pid job) parent = children table parent := by
  simp [children, fork, h]

theorem children_reap :
    children (reap table pid) parent = (children table parent).filter fun p => p.pid ≠ pid := by
  simp only [children, reap, List.filter_filter, Bool.and_comm]

@[simp] theorem outlive_pid (p : Proc κ) : (p.outlive pid status).pid = p.pid := by
  unfold Proc.outlive
  split
  · rfl
  · split <;> rfl

@[simp] theorem outlive_job (p : Proc κ) : (p.outlive pid status).job = p.job := by
  unfold Proc.outlive
  split
  · rfl
  · split <;> rfl

/-- The end of another process, which is not init, does not change whose child `p` is. -/
theorem outlive_parent_eq_iff (hpid : parent ≠ pid) (hinit : parent ≠ init) (p : Proc κ) :
    (p.outlive pid status).parent = parent ↔ p.parent = parent := by
  unfold Proc.outlive
  split
  · rfl
  · split
    next hp =>
      rw [hp]
      exact iff_of_false hinit.symm hpid.symm
    · rfl

theorem children_terminate (hpid : parent ≠ pid) (hinit : parent ≠ init) :
    children (terminate table pid status) parent =
      (children table parent).map (Proc.outlive pid status) := by
  simp only [children, terminate, List.filter_map]
  congr 1
  apply List.filter_congr
  intro p _
  simp only [Function.comp_apply, outlive_parent_eq_iff hpid hinit]

theorem pids_terminate : (terminate table pid status).map Proc.pid = table.map Proc.pid := by
  simp [terminate, Function.comp_def]

end Lemmas

end LearnLinux.ProcessTable
