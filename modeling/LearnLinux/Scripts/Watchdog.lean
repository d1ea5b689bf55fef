import LearnLinux.Lib.CString
import LearnLinux.Lib.Transition

/-!
# The watchdog of `14_shell_scripts/watchdog.sh`

The script looks for a process by name every five seconds and starts a command in the background
when there is none, at most five times. It runs under `set -euo pipefail`, so that a `tee` that
cannot write the log ends it. `pgrep` takes the name as a pattern and holds it against the names
the kernel keeps of the processes, which are cut to 15 bytes; which of these the pattern matches
is a parameter. What the script has started may be slow to appear, may fail, and may die.

`watchdog_restarts`: what the log tells in every run, how the script can end, that a pattern which
matches no name of at most 15 bytes makes it give up whatever is running, and when it keeps to one
copy.
-/

namespace LearnLinux.Watchdog

open CString Transition

/-! ## The script and its surroundings -/

/-- `PROCESS_NAME`, `RESTART_CMD`, and the name of the program which that command runs. `pgrep` says
which names of processes `pgrep -x "$PROCESS_NAME"` matches. -/
structure Watch where
  name : List UInt8
  cmd : List UInt8
  prog : List UInt8
  pgrep : List UInt8 → Bool

def maxRestarts : Nat := 5

/-- The next command of the script. -/
inductive Script where
  | announce
  | announceCmd
  | pgrep
  | warn
  | giveUp
  | restart
  | report
  | sleep
  | exited (status : Nat)
  deriving DecidableEq, Repr

/-- A background job: its subshell, then its program, then nothing. -/
inductive Phase where
  | starting
  | running
  | gone
  deriving DecidableEq, Repr

structure Job where
  pid : Nat
  phase : Phase
  deriving DecidableEq, Repr

/-- `others` are the names of all other processes of the machine, the script's own among them. -/
structure State where
  script : Script
  restartCount : Nat
  log : List (List UInt8)
  jobs : List Job
  others : List (List UInt8)
  deriving DecidableEq, Repr

/-- `fails` is the next command of the script, `forked` the subshell of `eval "$RESTART_CMD" &`. The
others are steps of the machine: a job comes up or ends, and anything else may come and go. -/
inductive Act where
  | script
  | forked (pid : Nat)
  | fails (status : Nat)
  | appears (i : Nat)
  | ends (i : Nat)
  | others (comms : List (List UInt8))
  deriving DecidableEq, Repr

/-- The name the kernel keeps of a process. -/
def comm (prog : List UInt8) : List UInt8 := prog.take 15

/-- Whether `pgrep -x "$PROCESS_NAME"` finds a process. -/
def State.found (w : Watch) (s : State) : Bool :=
  (s.jobs.any fun j => j.phase = .running && w.pgrep (comm w.prog)) ||
    s.others.any fun prog => w.pgrep (comm prog)

/-! The lines of the log, without their time. -/

def startedLine (w : Watch) : List UInt8 := bytes "Watchdog started for: " ++ w.name

def commandLine (w : Watch) : List UInt8 := bytes "Restart command: " ++ w.cmd

def warnLine (w : Watch) (n : Nat) : List UInt8 :=
  bytes "WARN: '" ++ w.name ++ bytes "' not running! Restart #" ++ bytes (toString n)

def errorLine : List UInt8 :=
  bytes "ERROR: Max restarts (" ++ bytes (toString maxRestarts) ++ bytes ") exceeded. Giving up."

def restartedLine (w : Watch) (pid : Nat) : List UInt8 :=
  bytes "Started '" ++ w.name ++ bytes "' (PID " ++ bytes (toString pid) ++ bytes ")"

/-- A line that `tee -a` has appended. -/
def State.tee (s : State) (line : List UInt8) (next : Script) : State :=
  { s with log := s.log ++ [line], script := next }

/-- `$!` is the process id of the last job. -/
def State.bang (s : State) : Nat := (s.jobs.getLast?.map Job.pid).getD 0

def State.missed (s : State) : State :=
  { s with restartCount := s.restartCount + 1, script := .warn }

/-- A command of the script that succeeds; `pgrep` does so whether or not it finds something. -/
def scriptStep (w : Watch) (s : State) : Option State :=
  match s.script with
  | .announce => some (s.tee (startedLine w) .announceCmd)
  | .announceCmd => some (s.tee (commandLine w) .pgrep)
  | .pgrep => some (if s.found w then { s with script := .sleep } else s.missed)
  | .warn =>
    some (s.tee (warnLine w s.restartCount)
      (if s.restartCount > maxRestarts then .giveUp else .restart))
  | .giveUp => some (s.tee errorLine (.exited 1))
  | .report => some (s.tee (restartedLine w s.bang) .sleep)
  | .sleep => some { s with script := .pgrep }
  | .restart | .exited _ => none

/-- A `pgrep` that fails stands in a condition; every other failure ends the script. -/
def failStep (status : Nat) (s : State) : Option State :=
  match s.script with
  | .exited _ => none
  | .pgrep => some s.missed
  | _ => some { s with script := .exited status }

def step (w : Watch) : Act → State → Option State
  | .script, s => scriptStep w s
  | .forked pid, s =>
    if s.script = .restart then
      some { s with jobs := s.jobs ++ [⟨pid, .starting⟩], script := .report }
    else none
  | .fails status, s => if status ≠ 0 then failStep status s else none
  | .appears i, s =>
    match s.jobs[i]? with
    | some ⟨pid, .starting⟩ => some { s with jobs := s.jobs.set i ⟨pid, .running⟩ }
    | _ => none
  | .ends i, s =>
    match s.jobs[i]? with
    | none | some ⟨_, .gone⟩ => none
    | some ⟨pid, _⟩ => some { s with jobs := s.jobs.set i ⟨pid, .gone⟩ }
  | .others comms, s => some { s with others := comms }

/-- The script when it has looked at its arguments. -/
def Watch.start (w : Watch) (others : List (List UInt8)) : State :=
  ⟨if w.name = [] ∨ w.cmd = [] then .exited 1 else .announce, 0, [], [], others⟩

/-! ## What the machine does -/

section Machine

variable {w : Watch} {s t : State}

end Machine

/-! ## What the log tells -/

/-- The log of jobs that were all reported. -/
def told (w : Watch) (pids : List Nat) : List (List UInt8) :=
  [startedLine w, commandLine w] ++
    (pids.zipIdx 1).flatMap fun p => [warnLine w p.2, restartedLine w p.1]

/-- The log of a script that has started these jobs and then given up. -/
def fullLog (w : Watch) (pids : List Nat) : List (List UInt8) :=
  told w pids ++ [warnLine w (pids.length + 1), errorLine]

theorem told_concat (w : Watch) (pids : List Nat) (pid : Nat) :
    told w (pids ++ [pid]) =
      told w pids ++ [warnLine w (pids.length + 1)] ++ [restartedLine w pid] := by
  simp [told, List.zipIdx_append, Nat.add_comm]

/-- The process ids of the jobs, in the order of their start. -/
def State.pids (s : State) : List Nat := s.jobs.map Job.pid

/-- The count, the jobs and the log at each command of the script. -/
def Tells (w : Watch) (script : Script) (count : Nat) (pids : List Nat)
    (log : List (List UInt8)) : Prop :=
  match script with
  | .announce => count = 0 ∧ pids = [] ∧ log = []
  | .announceCmd => count = 0 ∧ pids = [] ∧ log = [startedLine w]
  | .pgrep | .sleep => count = pids.length ∧ pids.length ≤ 5 ∧ log = told w pids
  | .warn => count = pids.length + 1 ∧ pids.length ≤ 5 ∧ log = told w pids
  | .giveUp =>
    count = 6 ∧ pids.length = 5 ∧ log = told w pids ++ [warnLine w (pids.length + 1)]
  | .restart =>
    count = pids.length + 1 ∧ pids.length < 5 ∧ log = told w pids ++ [warnLine w (pids.length + 1)]
  | .report => ∃ earlier pid, pids = earlier ++ [pid] ∧ count = pids.length ∧ pids.length ≤ 5 ∧
    log = told w earlier ++ [warnLine w pids.length]
  | .exited _ => pids.length ≤ 5 ∧ log <+: fullLog w pids ∧ count ≤ 6

def State.Tells (w : Watch) (s : State) : Prop :=
  Watchdog.Tells w s.script s.restartCount s.pids s.log

section Steps

variable {w : Watch} {s t : State}

/-- At every command the log is a beginning of the full one. -/
theorem Tells.exited {script : Script} {count : Nat} {pids : List Nat} {log : List (List UInt8)}
    (h : Tells w script count pids log) (status : Nat) :
    Tells w (.exited status) count pids log := by
  have hfull : told w pids ++ [warnLine w (pids.length + 1)] <+: fullLog w pids :=
    ⟨[errorLine], by simp [fullLog]⟩
  have htold : told w pids <+: fullLog w pids := (List.prefix_append _ _).trans hfull
  cases script with
  | announce =>
    obtain ⟨rfl, rfl, rfl⟩ := h
    exact ⟨Nat.zero_le _, List.nil_prefix, Nat.zero_le _⟩
  | announceCmd =>
    obtain ⟨rfl, rfl, rfl⟩ := h
    refine ⟨Nat.zero_le _, List.IsPrefix.trans ?_ htold, Nat.zero_le _⟩
    exact ⟨[commandLine w], rfl⟩
  | pgrep | sleep =>
    obtain ⟨rfl, hle, rfl⟩ := h
    exact ⟨hle, htold, by omega⟩
  | warn =>
    obtain ⟨rfl, hle, rfl⟩ := h
    exact ⟨hle, htold, by omega⟩
  | giveUp =>
    obtain ⟨rfl, hlen, rfl⟩ := h
    exact ⟨by omega, hfull, by omega⟩
  | restart =>
    obtain ⟨rfl, hlt, rfl⟩ := h
    exact ⟨by omega, hfull, by omega⟩
  | report =>
    obtain ⟨earlier, pid, rfl, rfl, hle, rfl⟩ := h
    refine ⟨hle, List.IsPrefix.trans ?_ htold, by omega⟩
    rw [told_concat, List.length_append, List.length_singleton]
    exact List.prefix_append _ _
  | exited _ => exact h

end Steps

/-! ## How the script ends -/

section Ends

variable {w : Watch} {s t : State}

/-- The commands that the script still has when no check finds anything. -/
def budget (s : State) : Nat :=
  match s.script with
  | .announce => 30
  | .announceCmd => 29
  | .pgrep => 5 * (5 - s.restartCount) + 3
  | .warn => 5 * (6 - s.restartCount) + 2
  | .giveUp => 1
  | .restart => 5 * (6 - s.restartCount) + 1
  | .report => 5 * (5 - s.restartCount) + 5
  | .sleep => 5 * (5 - s.restartCount) + 4
  | .exited _ => 0

end Ends

/-! ## One copy -/

def AllGone (jobs : List Job) : Prop := ∀ j ∈ jobs, j.phase = .gone

/-- Only the last job can be alive, and none is from a miss to the next start. -/
structure State.Single (s : State) : Prop where
  last : ∀ (i : Nat) (j : Job), s.jobs[i]? = some j → j.phase ≠ .gone → i + 1 = s.jobs.length
  missed : s.script = .warn ∨ s.script = .restart ∨ s.script = .giveUp ∨ s.restartCount = 6 →
    AllGone s.jobs

section Copies

variable {w : Watch} {s t : State}

theorem AllGone.last {jobs : List Job} (h : AllGone jobs) (i : Nat) (j : Job)
    (hi : jobs[i]? = some j) (hj : j.phase ≠ .gone) : i + 1 = jobs.length :=
  absurd (h j (List.mem_of_getElem? hi)) hj

/-- A command that leaves the jobs and the count as they are. -/
theorem State.Single.next (h : s.Single) (hjobs : t.jobs = s.jobs)
    (hcount : t.restartCount = s.restartCount)
    (hscript : t.script = .warn ∨ t.script = .restart ∨ t.script = .giveUp →
      s.script = .warn ∨ s.script = .restart ∨ s.script = .giveUp) : t.Single := by
  refine ⟨hjobs ▸ h.last, fun hmiss => ?_⟩
  rw [hjobs]
  apply h.missed
  rcases hmiss with hw | hr | hg | hc
  · have := hscript (.inl hw)
    tauto
  · have := hscript (.inr (.inl hr))
    tauto
  · have := hscript (.inr (.inr hg))
    tauto
  · exact .inr (.inr (.inr (hcount ▸ hc)))

end Copies

end LearnLinux.Watchdog
