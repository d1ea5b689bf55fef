import LearnLinux.Lib.ProcessTable
import LearnLinux.Lib.Transition

/-!
# The processes of `01_processes/process_demo.c`

`main` runs five demos one after another, and each of them forks. Two wait for any child, two for
the child they have forked, one polls six times, one does not wait at all; the last fork is for a
wrapper around the orphan demo. Children end by themselves or are killed, at any time, and every
`fork` may fail.

`children_reaped`: every wait takes the child of its own demo and none fails, but for the last one
when its `fork` has failed: it then waits for process -1, which is any child.
-/

namespace LearnLinux.ProcessDemo

open ProcessTable Transition

/-! ## The program -/

/-- What a child does. -/
inductive Job where
  | first
  | exec
  | vfork
  | nohang
  | zombie
  | wrapper
  | orphan
  deriving DecidableEq, Repr

/-- The codes with which a child may exit; `ls` may exit with any. -/
def Job.exits : Job → Nat → Bool
  | .first, code => code = 42
  | .nohang, code => code = 7
  | .zombie, code | .wrapper, code | .orphan, code => code = 0
  | .exec, _ | .vfork, _ => true

/-- The next call of `main`. -/
inductive Pc where
  | forkFirst
  | waitFirst
  | forkExec
  | waitExec
  | shmOpen
  | ftruncate
  | vfork
  | waitVfork
  | mmap
  | shmUnlink
  | forkNohang
  | poll (i : Nat)
  | forkZombie
  | forkWrapper
  | waitWrapper
  | returned
  | exited
  deriving DecidableEq, Repr

/-- The lines that show a result. -/
inductive Line where
  | childExited (pid code : Nat)
  | execFinished
  | stillRunning (poll : Nat)
  | pollExited (pid code : Nat)
  | vforkFinished
  | complete
  deriving DecidableEq, Repr

/-- A wait of `main`: the child it is for, or `none` for any, and the job of the child that it has
reaped, or `none` for -1. -/
structure Wait where
  pc : Pc
  target : Option Nat
  job : Option Job
  deriving DecidableEq, Repr

/-- `pid` is the variable of the demo that is running; `o` and `fd` are -1 when they are `none` and
`false`. `orphaned` says whether the wrapper has called `fork`. -/
structure State where
  pc : Pc
  pid : Nat
  o : Option Nat
  fd : Bool
  orphaned : Bool
  table : List (Proc Job)
  waits : List Wait
  printed : List Line
  deriving DecidableEq, Repr

/-- `WEXITSTATUS`. -/
def wexitstatus : Status → Nat
  | .exited code => code
  | .signaled _ => 0

/-- The child that the wait of `main` is for; `none` stands for any. -/
def State.target (s : State) : Option Nat :=
  match s.pc with
  | .waitFirst | .poll _ => some s.pid
  | .waitWrapper => s.o
  | _ => none

/-- The children that the wait is for. -/
def State.candidates (me : Nat) (s : State) : List (Proc Job) :=
  (children s.table me).filter fun p => s.target.all fun pid => p.pid = pid

/-- The line of `demo_fork_wait` about the child that it has reaped. -/
def firstLines : Option (Proc Job) → List Line
  | some ⟨pid, _, _, some (.exited code)⟩ => [.childExited pid code]
  | _ => []

/-- The line of `demo_waitpid_nohang` about the child that it has reaped. -/
def nohangLines : Option (Proc Job) → List Line
  | some ⟨pid, _, _, some status⟩ => [.pollExited pid (wexitstatus status)]
  | _ => []

/-- What `main` does with a child that it has reaped, or with -1. -/
def afterWait (s : State) (r : Option (Proc Job)) : Option State :=
  match s.pc with
  | .waitFirst => some { s with pc := .forkExec, printed := s.printed ++ firstLines r }
  | .waitExec => some { s with pc := .shmOpen, printed := s.printed ++ [.execFinished] }
  | .waitVfork => some { s with pc := .mmap }
  | .poll _ => some { s with pc := .forkZombie, printed := s.printed ++ nohangLines r }
  | .waitWrapper => some { s with pc := .returned, printed := s.printed ++ [.complete] }
  | _ => none

/-- A `fork` of `main`, which returns `pid` or -1. -/
def forkStep (me : Nat) (s : State) (pid : Option Nat) : Option State :=
  match s.pc, pid with
  | .forkFirst, some pid =>
    some { s with pc := .waitFirst, pid := pid, table := fork s.table me pid .first }
  | .forkFirst, none => some { s with pc := .exited }
  | .forkExec, some pid =>
    some { s with pc := .waitExec, pid := pid, table := fork s.table me pid .exec }
  | .forkExec, none => some { s with pc := .shmOpen }
  | .vfork, some pid =>
    some { s with pc := .waitVfork, pid := pid, table := fork s.table me pid .vfork }
  | .vfork, none => some { s with pc := .forkNohang }
  | .forkNohang, some pid =>
    some { s with pc := .poll 0, pid := pid, table := fork s.table me pid .nohang }
  | .forkNohang, none => some { s with pc := .forkZombie }
  | .forkZombie, some pid =>
    some { s with pc := .forkWrapper, pid := pid, table := fork s.table me pid .zombie }
  | .forkZombie, none => some { s with pc := .forkWrapper }
  | .forkWrapper, some pid =>
    some { s with pc := .waitWrapper, o := some pid, table := fork s.table me pid .wrapper }
  | .forkWrapper, none => some { s with pc := .waitWrapper, o := none }
  | _, _ => none

/-- The other calls of `main`; `ok` says whether they succeed. -/
def callStep (s : State) (ok : Bool) : Option State :=
  match s.pc with
  | .shmOpen => some { s with pc := .ftruncate, fd := ok }
  | .ftruncate => some { s with pc := if ok && s.fd then .vfork else .forkNohang }
  | .mmap => some { s with pc := if ok then .shmUnlink else .forkNohang }
  | .shmUnlink =>
    some { s with pc := .forkNohang, printed := s.printed ++ [.vforkFinished] }
  | _ => none

inductive Act where
  | fork (pid : Option Nat)
  | wait (pid : Nat)
  | noChild
  | pollZero
  | call (ok : Bool)
  | ends (pid : Nat) (status : Status)
  | wrapperFork (pid : Option Nat)
  | initReaps (pid : Nat)
  deriving DecidableEq, Repr

/-- A number that the kernel may give to a new process. -/
def State.Free (me : Nat) (s : State) (pid : Nat) : Prop :=
  pid ≠ me ∧ pid ≠ init ∧ pid ∉ s.table.map Proc.pid

instance (me : Nat) (s : State) (pid : Nat) : Decidable (s.Free me pid) :=
  inferInstanceAs (Decidable (_ ∧ _ ∧ _))

/-- A child that has not ended, and may end like this: by its own `exit`, for the wrapper behind
its `fork`, or by a signal. -/
def State.mayEnd (s : State) (status : Status) (p : Proc Job) : Bool :=
  p.status.isNone && match status with
    | .exited code => p.job.exits code && (p.job ≠ .wrapper || s.orphaned)
    | .signaled _ => true

def step (me : Nat) : Act → State → Option State
  | .fork none, s => forkStep me s none
  | .fork (some pid), s => if s.Free me pid then forkStep me s (some pid) else none
  | .wait pid, s =>
    match (s.candidates me).find? fun p => p.pid = pid ∧ p.status.isSome with
    | none => none
    | some p => afterWait { s with
        table := reap s.table p.pid
        waits := s.waits ++ [⟨s.pc, s.target, some p.job⟩] } (some p)
  | .noChild, s =>
    if s.candidates me = [] then
      afterWait { s with waits := s.waits ++ [⟨s.pc, s.target, none⟩] } none
    else none
  | .pollZero, s =>
    match s.pc with
    | .poll i =>
      if s.candidates me ≠ [] ∧ ∀ p ∈ s.candidates me, p.status = none then
        some { s with
          pc := if i + 1 < 6 then .poll (i + 1) else .forkZombie
          printed := s.printed ++ [.stillRunning (i + 1)] }
      else none
    | _ => none
  | .call ok, s => callStep s ok
  | .ends pid status, s =>
    if s.table.any fun p => p.pid = pid && s.mayEnd status p then
      some { s with table := terminate s.table pid status }
    else none
  | .wrapperFork pid, s =>
    match s.table.find? fun p => p.job = .wrapper ∧ p.status = none with
    | none => none
    | some w =>
      if s.orphaned then none
      else match pid with
        | none => some { s with orphaned := true }
        | some pid =>
          if s.Free me pid then
            some { s with orphaned := true, table := fork s.table w.pid pid .orphan }
          else none
  | .initReaps pid, s =>
    if s.table.any fun p => p.pid = pid && (p.parent = init && p.status.isSome) then
      some { s with table := reap s.table pid }
    else none

def State.initial : State := ⟨.forkFirst, 0, none, false, false, [], [], []⟩

/-! ## The process table -/

/-- The numbers are distinct, all processes but the orphan are children of `main`, the orphan is a
child of init or of the running wrapper, and every process has exited as it may. -/
structure Tidy (me : Nat) (table : List (Proc Job)) : Prop where
  distinct : (table.map Proc.pid).Nodup
  others : ∀ p ∈ table, p.pid ≠ me
  parents : ∀ p ∈ table, p.job ≠ .orphan → p.parent = me
  orphans : ∀ p ∈ table, p.job = .orphan → p.parent = init ∨
    ∃ w ∈ table, w.pid = p.parent ∧ w.job = .wrapper ∧ w.status = none
  codes : ∀ p ∈ table, ∀ code, p.status = some (.exited code) → p.job.exits code = true

section Table

variable {me pid : Nat} {table : List (Proc Job)}

theorem Tidy.unique (h : Tidy me table) {p q : Proc Job} (hp : p ∈ table) (hq : q ∈ table)
    (hpid : p.pid = q.pid) : p = q :=
  List.inj_on_of_nodup_map h.distinct hp hq hpid

theorem tidy_fork {parent : Nat} {job : Job} (h : Tidy me table) (hme : pid ≠ me)
    (hfree : pid ∉ table.map Proc.pid) (hmain : job ≠ .orphan → parent = me)
    (horphan : job = .orphan → ∃ w ∈ table, w.pid = parent ∧ w.job = .wrapper ∧ w.status = none) :
    Tidy me (fork table parent pid job) := by
  have hmem : ∀ p ∈ fork table parent pid job, p ∈ table ∨ p = ⟨pid, parent, job, none⟩ := by
    intro p hp
    rcases List.mem_append.mp hp with hp | hp
    · exact Or.inl hp
    · exact Or.inr (List.mem_singleton.mp hp)
  refine ⟨?_, ?_, ?_, ?_, ?_⟩
  · rw [fork, List.map_append, List.map_singleton]
    refine List.nodup_append.mpr ⟨h.distinct, List.nodup_singleton _, fun a ha b hb hab => ?_⟩
    have hpid : a = pid := hab.trans (List.mem_singleton.mp hb)
    exact hfree (hpid ▸ ha)
  · intro p hp
    rcases hmem p hp with hp | rfl
    · exact h.others p hp
    · exact hme
  · intro p hp hjob
    rcases hmem p hp with hp | rfl
    · exact h.parents p hp hjob
    · exact hmain hjob
  · intro p hp hjob
    rcases hmem p hp with hp | rfl
    · rcases h.orphans p hp hjob with hi | ⟨w, hw, hrest⟩
      · exact Or.inl hi
      · exact Or.inr ⟨w, List.mem_append_left _ hw, hrest⟩
    · obtain ⟨w, hw, hrest⟩ := horphan hjob
      exact Or.inr ⟨w, List.mem_append_left _ hw, hrest⟩
  · intro p hp code hcode
    rcases hmem p hp with hp | rfl
    · exact h.codes p hp code hcode
    · cases hcode

/-- A zombie is reaped, by `main` or by init. -/
theorem tidy_reap (h : Tidy me table) {z : Proc Job} (hz : z ∈ table) (hstatus : z.status ≠ none) :
    Tidy me (reap table z.pid) := by
  have hsub : ∀ p ∈ reap table z.pid, p ∈ table := fun p hp => List.mem_of_mem_filter hp
  refine ⟨?_, ?_, ?_, ?_, ?_⟩
  · exact h.distinct.sublist (List.filter_sublist.map _)
  · exact fun p hp => h.others p (hsub p hp)
  · exact fun p hp => h.parents p (hsub p hp)
  · intro p hp hjob
    rcases h.orphans p (hsub p hp) hjob with hi | ⟨w, hw, hpid, hwjob, hwst⟩
    · exact Or.inl hi
    · refine Or.inr ⟨w, List.mem_filter.mpr ⟨hw, decide_eq_true ?_⟩, hpid, hwjob, hwst⟩
      intro hsame
      rw [h.unique hw hz hsame] at hwst
      exact hstatus hwst
  · exact fun p hp => h.codes p (hsub p hp)

theorem tidy_terminate (h : Tidy me table) {status : Status} {z : Proc Job} (hz : z ∈ table)
    (hcode : ∀ code, status = .exited code → z.job.exits code = true) :
    Tidy me (terminate table z.pid status) := by
  have hmem : ∀ q ∈ terminate table z.pid status, ∃ p ∈ table, p.outlive z.pid status = q :=
    fun q hq => List.mem_map.mp hq
  have hme : z.pid ≠ me := h.others z hz
  refine ⟨?_, ?_, ?_, ?_, ?_⟩
  · rw [pids_terminate]
    exact h.distinct
  · intro q hq
    obtain ⟨p, hp, rfl⟩ := hmem q hq
    rw [outlive_pid]
    exact h.others p hp
  · intro q hq hjob
    obtain ⟨p, hp, rfl⟩ := hmem q hq
    rw [outlive_job] at hjob
    have hparent := h.parents p hp hjob
    unfold Proc.outlive
    split
    · exact hparent
    · rw [if_neg (by rw [hparent]; exact hme.symm)]
      exact hparent
  · intro q hq hjob
    obtain ⟨p, hp, rfl⟩ := hmem q hq
    rw [outlive_job] at hjob
    rcases h.orphans p hp hjob with hi | ⟨w, hw, hpid, hwjob, hwst⟩
    · refine Or.inl ?_
      unfold Proc.outlive
      split
      · exact hi
      · split
        · rfl
        · exact hi
    · by_cases hwz : w.pid = z.pid
      · -- the wrapper ends, and the orphan goes to init
        have hne : p.pid ≠ z.pid := by
          intro hpz
          have hsame := h.unique hp hw (hpz.trans hwz.symm)
          rw [hsame, hwjob] at hjob
          cases hjob
        left
        rw [Proc.outlive, if_neg hne, if_pos (hpid.symm.trans hwz)]
      · refine Or.inr ⟨w.outlive z.pid status, List.mem_map_of_mem hw, ?_, ?_, ?_⟩
        · rw [outlive_pid, hpid]
          unfold Proc.outlive
          split
          · rfl
          · rw [if_neg (by rw [← hpid]; exact hwz)]
        · rw [outlive_job, hwjob]
        · unfold Proc.outlive
          rw [if_neg hwz]
          split <;> exact hwst
  · intro q hq code hstatus
    obtain ⟨p, hp, rfl⟩ := hmem q hq
    rw [outlive_job]
    unfold Proc.outlive at hstatus
    split at hstatus
    next hpz =>
      rw [h.unique hp hz hpz]
      exact hcode code (Option.some.inj hstatus)
    · split at hstatus
      · exact h.codes p hp code hstatus
      · exact h.codes p hp code hstatus

end Table

/-! ## The children of `main` -/

/-- One child, with this number and job. -/
def Only (me pid : Nat) (job : Job) (cs : List (Proc Job)) : Prop :=
  ∃ status, cs = [⟨pid, me, job, status⟩]

/-- The children that `main` has at each call. -/
def Stage (me pid : Nat) (o : Option Nat) (cs : List (Proc Job)) : Pc → Prop
  | .waitFirst => Only me pid .first cs
  | .waitExec => Only me pid .exec cs
  | .waitVfork => Only me pid .vfork cs
  | .poll _ => Only me pid .nohang cs
  | .forkZombie => (cs.map Proc.job).Sublist [.nohang]
  | .forkWrapper | .returned => (cs.map Proc.job).Sublist [.nohang, .zombie]
  | .waitWrapper =>
    match o with
    | none => (cs.map Proc.job).Sublist [.nohang, .zombie]
    | some o => (cs.map Proc.job).Sublist [.nohang, .zombie, .wrapper] ∧
      .wrapper ∈ cs.map Proc.job ∧ ∀ p ∈ cs, p.pid = o ↔ p.job = .wrapper
  | _ => cs = []

section Children

variable {me pid : Nat} {o : Option Nat} {cs : List (Proc Job)} {job : Job} {pc : Pc}

theorem only_fork (table : List (Proc Job)) (h : children table me = []) :
    Only me pid job (children (fork table me pid job) me) :=
  ⟨none, by rw [children_fork_self, h]; rfl⟩

theorem jobs_fork (table : List (Proc Job)) :
    (children (fork table me pid job) me).map Proc.job = (children table me).map Proc.job ++ [job] := by
  rw [children_fork_self, List.map_append]
  rfl

/-- The end of another process leaves the numbers and jobs as they are. -/
theorem only_outlive {q : Nat} {status : Status} (hq : me ≠ q) (h : Only me pid job cs) :
    Only me pid job (cs.map (Proc.outlive q status)) := by
  obtain ⟨st, rfl⟩ := h
  unfold Only
  by_cases hpid : pid = q
  · exact ⟨some status, by simp [Proc.outlive, hpid]⟩
  · exact ⟨st, by simp [Proc.outlive, hpid, hq]⟩

theorem jobs_outlive {q : Nat} {status : Status} :
    (cs.map (Proc.outlive q status)).map Proc.job = cs.map Proc.job := by
  simp [Function.comp_def]

theorem stage_outlive {q : Nat} {status : Status} (hq : me ≠ q) (h : Stage me pid o cs pc) :
    Stage me pid o (cs.map (Proc.outlive q status)) pc := by
  cases pc with
  | waitFirst | waitExec | waitVfork | poll i => exact only_outlive hq h
  | forkZombie | forkWrapper | returned =>
    simp only [Stage, jobs_outlive]
    exact h
  | waitWrapper =>
    cases o with
    | none =>
      simp only [Stage, jobs_outlive]
      exact h
    | some o =>
      obtain ⟨hsub, hmem, hpids⟩ := h
      simp only [Stage, jobs_outlive]
      refine ⟨hsub, hmem, fun p hp => ?_⟩
      obtain ⟨r, hr, rfl⟩ := List.mem_map.mp hp
      rw [outlive_pid, outlive_job]
      exact hpids r hr
  | _ =>
    obtain rfl : cs = [] := h
    rfl

end Children

/-! ## The invariant -/

/-- The numbers of the polls that found the child running. -/
def State.polls (s : State) : List Nat :=
  s.printed.filterMap fun line => match line with
    | .stillRunning i => some i
    | _ => none

def Polled (polls : List Nat) : Pc → Prop
  | .poll i => i < 6 ∧ polls = List.range' 1 i
  | .forkZombie | .forkWrapper | .waitWrapper | .returned => ∃ k ≤ 6, polls = List.range' 1 k
  | _ => polls = []

/-- A wait has reaped the child of its own demo; one for process -1 may reap any. -/
def Wait.Right (w : Wait) : Prop :=
  match w.pc with
  | .waitFirst => w.job = some .first
  | .waitExec => w.job = some .exec
  | .waitVfork => w.job = some .vfork
  | .poll _ => w.job = some .nohang
  | .waitWrapper => w.target ≠ none → w.job = some .wrapper
  | _ => False

structure State.Sound (me : Nat) (s : State) : Prop where
  tidy : Tidy me s.table
  stage : Stage me s.pid s.o (children s.table me) s.pc
  polled : Polled s.polls s.pc
  waits : ∀ w ∈ s.waits, w.Right
  lines : ∀ pid code, .childExited pid code ∈ s.printed → code = 42

section Steps

variable {me : Nat} {s s' : State}

theorem initial_sound : State.initial.Sound me := by
  refine ⟨⟨List.nodup_nil, ?_, ?_, ?_, ?_⟩, rfl, rfl, ?_, ?_⟩
  · intro p hp
    cases hp
  · intro p hp
    cases hp
  · intro p hp
    cases hp
  · intro p hp
    cases hp
  · intro w hw
    cases hw
  · intro pid code hline
    cases hline

/-- A new child has a number of its own, and is a child of `main`. -/
theorem tidy_fork_main {pid : Nat} {job : Job} (h : s.Sound me) (hfree : s.Free me pid)
    (hjob : job ≠ .orphan) : Tidy me (fork s.table me pid job) :=
  tidy_fork h.tidy hfree.1 hfree.2.2 (fun _ => rfl) fun horphan => absurd horphan hjob

/-- `main` goes on with the children that it has. -/
theorem sound_goto {pc : Pc} (h : s.Sound me)
    (hstage : Stage me s.pid s.o (children s.table me) pc) (hpolled : Polled s.polls pc) :
    State.Sound me { s with pc := pc } :=
  ⟨h.tidy, hstage, hpolled, h.waits, h.lines⟩

/-- `main` forks while it has no other child. -/
theorem sound_fork_only {pid : Nat} {job : Job} {pc : Pc} (h : s.Sound me) (hfree : s.Free me pid)
    (hjob : job ≠ .orphan) (hnone : children s.table me = [])
    (hstage : ∀ cs, Only me pid job cs → Stage me pid s.o cs pc) (hpolled : Polled s.polls pc) :
    State.Sound me { s with pc := pc, pid := pid, table := fork s.table me pid job } :=
  ⟨tidy_fork_main h hfree hjob, hstage _ (only_fork _ hnone), hpolled, h.waits, h.lines⟩

/-- The wrapper is the child with the new number. -/
theorem stage_wrapper {pid : Nat} (hfree : s.Free me pid)
    (hsub : ((children s.table me).map Proc.job).Sublist [.nohang, .zombie]) :
    Stage me s.pid (some pid) (children (fork s.table me pid .wrapper) me) .waitWrapper := by
  simp only [Stage, jobs_fork]
  refine ⟨hsub.append_right [.wrapper], by simp, fun p hp => ?_⟩
  rw [children_fork_self] at hp
  rcases List.mem_append.mp hp with hp | hp
  · have hpid : p.pid ≠ pid := by
      intro hpid
      exact hfree.2.2 (hpid ▸ List.mem_map_of_mem (List.mem_of_mem_filter hp))
    have hjob : p.job ≠ .wrapper := by
      intro hw
      have hmem := hsub.subset (List.mem_map_of_mem hp)
      rw [hw] at hmem
      exact absurd hmem (by decide)
    exact iff_of_false hpid hjob
  · rw [List.mem_singleton.mp hp]
    exact iff_of_true rfl rfl

theorem forkStep_sound {pid : Option Nat} (h : s.Sound me)
    (hfree : ∀ n, pid = some n → s.Free me n) (hs : forkStep me s pid = some s') : s'.Sound me := by
  have hstage := h.stage
  have hpolled := h.polled
  unfold forkStep at hs
  split at hs
  next n hpc =>
    simp only [hpc, Stage, Polled] at hstage hpolled
    obtain rfl := Option.some.inj hs
    exact sound_fork_only h (hfree n rfl) (by decide) hstage (fun _ ho => ho) hpolled
  next hpc =>
    simp only [hpc, Stage, Polled] at hstage hpolled
    obtain rfl := Option.some.inj hs
    exact sound_goto h hstage hpolled
  next n hpc =>
    simp only [hpc, Stage, Polled] at hstage hpolled
    obtain rfl := Option.some.inj hs
    exact sound_fork_only h (hfree n rfl) (by decide) hstage (fun _ ho => ho) hpolled
  next hpc =>
    simp only [hpc, Stage, Polled] at hstage hpolled
    obtain rfl := Option.some.inj hs
    exact sound_goto h hstage hpolled
  next n hpc =>
    simp only [hpc, Stage, Polled] at hstage hpolled
    obtain rfl := Option.some.inj hs
    exact sound_fork_only h (hfree n rfl) (by decide) hstage (fun _ ho => ho) hpolled
  next hpc =>
    simp only [hpc, Stage, Polled] at hstage hpolled
    obtain rfl := Option.some.inj hs
    exact sound_goto h hstage hpolled
  next n hpc =>
    simp only [hpc, Stage, Polled] at hstage hpolled
    obtain rfl := Option.some.inj hs
    exact sound_fork_only h (hfree n rfl) (by decide) hstage (fun _ ho => ho) ⟨by decide, hpolled⟩
  next hpc =>
    simp only [hpc, Stage, Polled] at hstage hpolled
    obtain rfl := Option.some.inj hs
    refine sound_goto h ?_ ⟨0, by decide, hpolled⟩
    simp only [Stage, hstage]
    exact List.nil_sublist _
  next n hpc =>
    simp only [hpc, Stage, Polled] at hstage hpolled
    obtain rfl := Option.some.inj hs
    refine ⟨tidy_fork_main h (hfree n rfl) (by decide), ?_, hpolled, h.waits, h.lines⟩
    simp only [Stage, jobs_fork]
    exact hstage.append_right [.zombie]
  next hpc =>
    simp only [hpc, Stage, Polled] at hstage hpolled
    obtain rfl := Option.some.inj hs
    exact sound_goto h (hstage.trans (by simp)) hpolled
  next n hpc =>
    simp only [hpc, Stage, Polled] at hstage hpolled
    obtain rfl := Option.some.inj hs
    exact ⟨tidy_fork_main h (hfree n rfl) (by decide), stage_wrapper (hfree n rfl) hstage, hpolled,
      h.waits, h.lines⟩
  next hpc =>
    simp only [hpc, Stage, Polled] at hstage hpolled
    obtain rfl := Option.some.inj hs
    exact ⟨h.tidy, hstage, hpolled, h.waits, h.lines⟩
  next => cases hs

theorem polls_append (s : State) (lines : List Line)
    (hlines : ∀ i, .stillRunning i ∉ lines) :
    State.polls { s with printed := s.printed ++ lines } = s.polls := by
  simp only [State.polls, List.filterMap_append]
  rw [List.append_right_eq_self, List.filterMap_eq_nil_iff]
  intro line hline
  split
  next i => exact absurd hline (hlines i)
  next => rfl

theorem callStep_sound {ok : Bool} (h : s.Sound me) (hs : callStep s ok = some s') :
    s'.Sound me := by
  have hstage := h.stage
  have hpolled := h.polled
  unfold callStep at hs
  split at hs
  next hpc =>
    simp only [hpc, Stage, Polled] at hstage hpolled
    obtain rfl := Option.some.inj hs
    exact ⟨h.tidy, hstage, hpolled, h.waits, h.lines⟩
  next hpc =>
    simp only [hpc, Stage, Polled] at hstage hpolled
    obtain rfl := Option.some.inj hs
    refine sound_goto h ?_ ?_
    · split <;> exact hstage
    · split <;> exact hpolled
  next hpc =>
    simp only [hpc, Stage, Polled] at hstage hpolled
    obtain rfl := Option.some.inj hs
    refine sound_goto h ?_ ?_
    · split <;> exact hstage
    · split <;> exact hpolled
  next hpc =>
    simp only [hpc, Stage, Polled] at hstage hpolled
    obtain rfl := Option.some.inj hs
    refine ⟨h.tidy, hstage, ?_, h.waits, ?_⟩
    · exact (polls_append s [.vforkFinished] (by simp)).trans hpolled
    · intro pid code hline
      exact h.lines pid code (by simpa using hline)
  next => cases hs

/-- The only child is reaped. -/
theorem only_reap {pid : Nat} {job : Job} {p : Proc Job} (h : Only me pid job (children s.table me))
    (hp : p ∈ children s.table me) :
    p.job = job ∧ children (reap s.table p.pid) me = [] := by
  obtain ⟨st, hcs⟩ := h
  rw [hcs] at hp
  obtain rfl := List.mem_singleton.mp hp
  refine ⟨rfl, ?_⟩
  rw [children_reap, hcs]
  simp

theorem jobs_reap (pid : Nat) :
    ((children (reap s.table pid) me).map Proc.job).Sublist
      ((children s.table me).map Proc.job) := by
  rw [children_reap]
  exact List.filter_sublist.map _

theorem mem_candidates {p : Proc Job} (hp : p ∈ s.candidates me) :
    p ∈ children s.table me ∧ ∀ pid, s.target = some pid → p.pid = pid := by
  obtain ⟨hp, htarget⟩ := List.mem_filter.mp hp
  refine ⟨hp, fun pid hpid => ?_⟩
  rw [hpid] at htarget
  simpa using htarget

/-- The wrapper is reaped, or any child when `fork` has failed. -/
theorem wrapper_reap {p : Proc Job} (hpc : s.pc = .waitWrapper)
    (hstage : Stage me s.pid s.o (children s.table me) .waitWrapper) (hp : p ∈ s.candidates me) :
    (s.o ≠ none → p.job = .wrapper) ∧
      ((children (reap s.table p.pid) me).map Proc.job).Sublist [.nohang, .zombie] := by
  obtain ⟨hchild, htarget⟩ := mem_candidates hp
  simp only [State.target, hpc] at htarget
  cases ho : s.o with
  | none =>
    simp only [ho, Stage] at hstage
    exact ⟨fun hne => absurd rfl hne, (jobs_reap p.pid).trans hstage⟩
  | some o =>
    simp only [ho, Stage] at hstage
    obtain ⟨hsub, -, hpids⟩ := hstage
    have hpid : p.pid = o := htarget o ho
    refine ⟨fun _ => (hpids p hchild).mp hpid, ?_⟩
    have hno : .wrapper ∉ (children (reap s.table p.pid) me).map Proc.job := by
      intro hw
      obtain ⟨q, hq, hjob⟩ := List.mem_map.mp hw
      rw [children_reap] at hq
      obtain ⟨hq, hne⟩ := List.mem_filter.mp hq
      have hqpid : q.pid ≠ p.pid := of_decide_eq_true hne
      exact hqpid (((hpids q hq).mpr hjob).trans hpid.symm)
    have hfilter := ((jobs_reap p.pid).trans hsub).filter (fun job => job ≠ .wrapper)
    rwa [List.filter_eq_self.mpr] at hfilter
    intro job hjob
    refine decide_eq_true ?_
    rintro rfl
    exact hno hjob

theorem right_append {w : Wait} (h : s.Sound me) (hw : w.Right) :
    ∀ v ∈ s.waits ++ [w], v.Right := by
  intro v hv
  rcases List.mem_append.mp hv with hv | hv
  · exact h.waits v hv
  · rw [List.mem_singleton.mp hv]
    exact hw

theorem lines_append {printed lines : List Line}
    (h : ∀ pid code, .childExited pid code ∈ printed → code = 42)
    (hlines : ∀ pid code, .childExited pid code ∈ lines → code = 42) :
    ∀ pid code, .childExited pid code ∈ printed ++ lines → code = 42 := by
  intro pid code hline
  rcases List.mem_append.mp hline with hline | hline
  · exact h pid code hline
  · exact hlines pid code hline

/-- The first child has exited with 42, unless a signal has killed it. -/
theorem firstLines_code {p : Proc Job} (h : s.Sound me) (hp : p ∈ s.table) (hjob : p.job = .first) :
    ∀ pid code, .childExited pid code ∈ firstLines (some p) → code = 42 := by
  intro pid code hline
  unfold firstLines at hline
  split at hline
  next q parent job code' heq =>
    cases heq
    obtain rfl : job = .first := hjob
    cases List.mem_singleton.mp hline
    simpa [Job.exits] using h.tidy.codes _ hp _ rfl
  next => cases hline

theorem stillRunning_not_mem_firstLines (r : Option (Proc Job)) (i : Nat) :
    .stillRunning i ∉ firstLines r := by
  unfold firstLines
  split <;> simp

theorem stillRunning_not_mem_nohangLines (r : Option (Proc Job)) (i : Nat) :
    .stillRunning i ∉ nohangLines r := by
  unfold nohangLines
  split <;> simp

theorem childExited_not_mem_nohangLines (r : Option (Proc Job)) (pid code : Nat) :
    .childExited pid code ∉ nohangLines r := by
  unfold nohangLines
  split <;> simp

theorem wait_sound {pid : Nat} (h : s.Sound me) (hs : step me (.wait pid) s = some s') :
    s'.Sound me := by
  have hstage := h.stage
  have hpolled := h.polled
  simp only [step] at hs
  split at hs
  next => cases hs
  next p hfind =>
    have hcand := List.mem_of_find?_eq_some hfind
    have hchild := (mem_candidates hcand).1
    have hmem : p ∈ s.table := List.mem_of_mem_filter hchild
    have hstatus : p.status ≠ none := by
      have := List.find?_some hfind
      simp only [decide_eq_true_eq] at this
      exact Option.isSome_iff_ne_none.mp this.2
    have htidy := tidy_reap h.tidy hmem hstatus
    unfold afterWait at hs
    split at hs
    next hpc =>
      simp only at hpc
      simp only [hpc, Stage, Polled] at hstage hpolled
      obtain ⟨hjob, hnone⟩ := only_reap hstage hchild
      obtain rfl := Option.some.inj hs
      refine ⟨htidy, hnone, ?_, right_append h ?_, lines_append h.lines (firstLines_code h hmem hjob)⟩
      · exact (polls_append s _ (stillRunning_not_mem_firstLines _)).trans hpolled
      · simp only [Wait.Right, hpc, hjob]
    next hpc =>
      simp only at hpc
      simp only [hpc, Stage, Polled] at hstage hpolled
      obtain ⟨hjob, hnone⟩ := only_reap hstage hchild
      obtain rfl := Option.some.inj hs
      refine ⟨htidy, hnone, ?_, right_append h ?_, lines_append h.lines (by simp)⟩
      · exact (polls_append s _ (by simp)).trans hpolled
      · simp only [Wait.Right, hpc, hjob]
    next hpc =>
      simp only at hpc
      simp only [hpc, Stage, Polled] at hstage hpolled
      obtain ⟨hjob, hnone⟩ := only_reap hstage hchild
      obtain rfl := Option.some.inj hs
      refine ⟨htidy, hnone, hpolled, right_append h ?_, h.lines⟩
      simp only [Wait.Right, hpc, hjob]
    next i hpc =>
      simp only at hpc
      simp only [hpc, Stage, Polled] at hstage hpolled
      obtain ⟨hjob, hnone⟩ := only_reap hstage hchild
      obtain rfl := Option.some.inj hs
      refine ⟨htidy, ?_, ⟨i, Nat.le_of_lt hpolled.1, ?_⟩, right_append h ?_, lines_append h.lines ?_⟩
      · simp only [Stage, hnone]
        exact List.nil_sublist _
      · exact (polls_append s _ (stillRunning_not_mem_nohangLines _)).trans hpolled.2
      · simp only [Wait.Right, hpc, hjob]
      · exact fun _ _ hline => absurd hline (childExited_not_mem_nohangLines _ _ _)
    next hpc =>
      simp only at hpc
      simp only [hpc] at hstage
      obtain ⟨hjob, hsub⟩ := wrapper_reap hpc hstage hcand
      simp only [hpc, Polled] at hpolled
      obtain rfl := Option.some.inj hs
      refine ⟨htidy, hsub, ?_, right_append h ?_, lines_append h.lines (by simp)⟩
      · obtain ⟨k, hk, hpolls⟩ := hpolled
        exact ⟨k, hk, (polls_append s _ (by simp)).trans hpolls⟩
      · simp only [Wait.Right, hpc, State.target]
        exact fun ho => congrArg some (hjob ho)
    next => cases hs

/-- A child of its own is always a candidate. -/
theorem only_candidates {pid : Nat} {job : Job} (h : Only me pid job (children s.table me))
    (htarget : ∀ n, s.target = some n → n = pid) : s.candidates me ≠ [] := by
  obtain ⟨st, hcs⟩ := h
  rw [State.candidates, hcs]
  cases ht : s.target with
  | none => simp
  | some n => simp [htarget n ht]

/-- A wait fails only when it is for process -1 and there is no child at all. -/
theorem noChild_sound (h : s.Sound me) (hs : step me .noChild s = some s') : s'.Sound me := by
  have hstage := h.stage
  have hpolled := h.polled
  simp only [step] at hs
  obtain ⟨hnil, hs⟩ := Option.ite_none_right_eq_some.mp hs
  unfold afterWait at hs
  split at hs
  next hpc =>
    simp only at hpc
    simp only [hpc, Stage] at hstage
    exact absurd hnil (only_candidates hstage (by simp [State.target, hpc]))
  next hpc =>
    simp only at hpc
    simp only [hpc, Stage] at hstage
    exact absurd hnil (only_candidates hstage (by simp [State.target, hpc]))
  next hpc =>
    simp only at hpc
    simp only [hpc, Stage] at hstage
    exact absurd hnil (only_candidates hstage (by simp [State.target, hpc]))
  next i hpc =>
    simp only at hpc
    simp only [hpc, Stage] at hstage
    exact absurd hnil (only_candidates hstage (by simp [State.target, hpc]))
  next hpc =>
    simp only at hpc
    simp only [hpc, Polled] at hpolled
    simp only [hpc] at hstage
    obtain rfl := Option.some.inj hs
    cases ho : s.o with
    | none =>
      simp only [ho, Stage] at hstage
      refine ⟨h.tidy, hstage, ?_, right_append h ?_, lines_append h.lines (by simp)⟩
      · obtain ⟨k, hk, hpolls⟩ := hpolled
        exact ⟨k, hk, (polls_append s _ (by simp)).trans hpolls⟩
      · simp only [Wait.Right, hpc, State.target, ho]
        exact fun hne => absurd rfl hne
    | some o =>
      simp only [ho, Stage] at hstage
      obtain ⟨-, hw, hpids⟩ := hstage
      obtain ⟨p, hp, hjob⟩ := List.mem_map.mp hw
      have hcand : p ∈ s.candidates me := by
        refine List.mem_filter.mpr ⟨hp, ?_⟩
        simp [State.target, hpc, ho, (hpids p hp).mpr hjob]
      rw [hnil] at hcand
      cases hcand
  next => cases hs

theorem pollZero_sound (h : s.Sound me) (hs : step me .pollZero s = some s') : s'.Sound me := by
  have hstage := h.stage
  have hpolled := h.polled
  simp only [step] at hs
  split at hs
  next i hpc =>
    obtain ⟨-, hs⟩ := Option.ite_none_right_eq_some.mp hs
    obtain rfl := Option.some.inj hs
    simp only [hpc, Stage, Polled] at hstage hpolled
    obtain ⟨hlt, hpolls⟩ := hpolled
    have hnext : State.polls { s with printed := s.printed ++ [.stillRunning (i + 1)] } =
        List.range' 1 (i + 1) := by
      rw [List.range'_1_concat, ← hpolls, State.polls, List.filterMap_append, Nat.add_comm 1 i]
      rfl
    refine ⟨h.tidy, ?_, ?_, h.waits, lines_append h.lines (by simp)⟩
    · split
      · exact hstage
      · obtain ⟨st, hcs⟩ := hstage
        simp only [Stage, hcs]
        exact List.Sublist.refl _
    · split
      next hlt' => exact ⟨hlt', hnext⟩
      · exact ⟨i + 1, hlt, hnext⟩
  next => cases hs

theorem ends_sound {pid : Nat} {status : Status} (hme : me ≠ init) (h : s.Sound me)
    (hs : step me (.ends pid status) s = some s') : s'.Sound me := by
  simp only [step] at hs
  obtain ⟨hany, hs⟩ := Option.ite_none_right_eq_some.mp hs
  obtain rfl := Option.some.inj hs
  obtain ⟨z, hz, hcond⟩ := List.any_eq_true.mp hany
  simp only [Bool.and_eq_true, decide_eq_true_eq, State.mayEnd] at hcond
  obtain ⟨rfl, -, hend⟩ := hcond
  have hne : me ≠ z.pid := (h.tidy.others z hz).symm
  refine ⟨tidy_terminate h.tidy hz ?_, ?_, h.polled, h.waits, h.lines⟩
  · rintro code rfl
    simp only [Bool.and_eq_true] at hend
    exact hend.1
  · dsimp only
    rw [children_terminate hne hme]
    exact stage_outlive hne h.stage

theorem wrapperFork_sound {pid : Option Nat} (h : s.Sound me)
    (hs : step me (.wrapperFork pid) s = some s') : s'.Sound me := by
  simp only [step] at hs
  split at hs
  next => cases hs
  next w hfind =>
    have hw := List.mem_of_find?_eq_some hfind
    have hcond := List.find?_some hfind
    simp only [decide_eq_true_eq] at hcond
    obtain ⟨-, hs⟩ := Option.ite_none_left_eq_some.mp hs
    cases pid with
    | none =>
      obtain rfl := Option.some.inj hs
      exact ⟨h.tidy, h.stage, h.polled, h.waits, h.lines⟩
    | some pid =>
      obtain ⟨hfree, hs⟩ := Option.ite_none_right_eq_some.mp hs
      obtain rfl := Option.some.inj hs
      refine ⟨?_, ?_, h.polled, h.waits, h.lines⟩
      · refine tidy_fork h.tidy hfree.1 hfree.2.2 (fun hne => absurd rfl hne) fun _ => ?_
        exact ⟨w, hw, rfl, hcond.1, hcond.2⟩
      · dsimp only
        rw [children_fork_of_ne (h.tidy.others w hw)]
        exact h.stage

theorem initReaps_sound {pid : Nat} (hme : me ≠ init) (h : s.Sound me)
    (hs : step me (.initReaps pid) s = some s') : s'.Sound me := by
  simp only [step] at hs
  obtain ⟨hany, hs⟩ := Option.ite_none_right_eq_some.mp hs
  obtain rfl := Option.some.inj hs
  obtain ⟨z, hz, hcond⟩ := List.any_eq_true.mp hany
  simp only [Bool.and_eq_true, decide_eq_true_eq] at hcond
  obtain ⟨rfl, hinit, hstatus⟩ := hcond
  refine ⟨tidy_reap h.tidy hz (Option.isSome_iff_ne_none.mp hstatus), ?_, h.polled, h.waits,
    h.lines⟩
  have hsame : children (reap s.table z.pid) me = children s.table me := by
    rw [children_reap, List.filter_eq_self]
    intro p hp
    refine decide_eq_true fun hpid => ?_
    obtain ⟨hp, hparent⟩ := List.mem_filter.mp hp
    rw [h.tidy.unique hp hz hpid, decide_eq_true_eq, hinit] at hparent
    exact hme hparent.symm
  dsimp only
  rw [hsame]
  exact h.stage

theorem step_sound {a : Act} (hme : me ≠ init) (h : s.Sound me) (hs : step me a s = some s') :
    s'.Sound me := by
  cases a with
  | fork pid =>
    cases pid with
    | none => exact forkStep_sound h (fun n hn => (by cases hn)) hs
    | some pid =>
      obtain ⟨hfree, hs⟩ := Option.ite_none_right_eq_some.mp hs
      refine forkStep_sound h (fun n hn => ?_) hs
      cases hn
      exact hfree
  | wait pid => exact wait_sound h hs
  | noChild => exact noChild_sound h hs
  | pollZero => exact pollZero_sound h hs
  | call ok => exact callStep_sound h hs
  | ends pid status => exact ends_sound hme h hs
  | wrapperFork pid => exact wrapperFork_sound h hs
  | initReaps pid => exact initReaps_sound hme h hs

end Steps

/-! ## The steps that are left -/

def Act.isMain : Act → Bool
  | .fork _ | .wait _ | .noChild | .pollZero | .call _ => true
  | _ => false

/-- The calls that `main` still makes, at most. -/
def Pc.left : Pc → Nat
  | .forkFirst => 20
  | .waitFirst => 19
  | .forkExec => 18
  | .waitExec => 17
  | .shmOpen => 16
  | .ftruncate => 15
  | .vfork => 14
  | .waitVfork => 13
  | .mmap => 12
  | .shmUnlink => 11
  | .forkNohang => 10
  | .poll i => 3 + (6 - i)
  | .forkZombie => 3
  | .forkWrapper => 2
  | .waitWrapper => 1
  | .returned | .exited => 0

section Left

variable {me : Nat} {s s' : State}

theorem forkStep_left {pid : Option Nat} (hs : forkStep me s pid = some s') :
    1 + s'.pc.left ≤ s.pc.left := by
  unfold forkStep at hs
  split at hs <;> cases hs <;> simp [Pc.left, *]

theorem callStep_left {ok : Bool} (hs : callStep s ok = some s') :
    1 + s'.pc.left ≤ s.pc.left := by
  unfold callStep at hs
  split at hs
  next hpc =>
    obtain rfl := Option.some.inj hs
    simp [Pc.left, hpc]
  next hpc =>
    obtain rfl := Option.some.inj hs
    rw [hpc]
    dsimp only
    split <;> simp [Pc.left]
  next hpc =>
    obtain rfl := Option.some.inj hs
    rw [hpc]
    dsimp only
    split <;> simp [Pc.left]
  next hpc =>
    obtain rfl := Option.some.inj hs
    simp [Pc.left, hpc]
  next => cases hs

theorem afterWait_left {r : Option (Proc Job)} (hs : afterWait s r = some s')
    (hpoll : ∀ i, s.pc = .poll i → i < 6) : 1 + s'.pc.left ≤ s.pc.left := by
  unfold afterWait at hs
  cases hpc : s.pc with
  | poll i =>
    have hlt := hpoll i hpc
    simp only [hpc] at hs
    obtain rfl := Option.some.inj hs
    simp only [Pc.left]
    omega
  | waitFirst | waitExec | waitVfork | waitWrapper =>
    simp only [hpc] at hs
    obtain rfl := Option.some.inj hs
    simp [Pc.left]
  | _ =>
    simp only [hpc] at hs
    cases hs

theorem step_left {a : Act} (h : s.Sound me) (hs : step me a s = some s') :
    a.isMain.toNat + s'.pc.left ≤ s.pc.left := by
  have hpoll : ∀ i, s.pc = .poll i → i < 6 := by
    intro i hpc
    have hpolled := h.polled
    simp only [hpc, Polled] at hpolled
    exact hpolled.1
  cases a with
  | fork pid =>
    cases pid with
    | none => exact forkStep_left hs
    | some pid => exact forkStep_left (Option.ite_none_right_eq_some.mp hs).2
  | wait pid =>
    simp only [step] at hs
    split at hs
    next => cases hs
    next p hfind =>
      have hleft := afterWait_left hs hpoll
      exact hleft
  | noChild =>
    have hleft := afterWait_left (Option.ite_none_right_eq_some.mp hs).2 hpoll
    exact hleft
  | call ok => exact callStep_left hs
  | pollZero =>
    simp only [step] at hs
    split at hs
    next i hpc =>
      obtain ⟨-, hs⟩ := Option.ite_none_right_eq_some.mp hs
      obtain rfl := Option.some.inj hs
      have hlt := hpoll i hpc
      rw [hpc]
      dsimp only [Act.isMain, Bool.toNat_true]
      split
      · simp only [Pc.left]
        omega
      · simp only [Pc.left]
        omega
    next => cases hs
  | ends pid status =>
    obtain ⟨-, hs⟩ := Option.ite_none_right_eq_some.mp hs
    obtain rfl := Option.some.inj hs
    exact Nat.le_of_eq (Nat.zero_add _)
  | initReaps pid =>
    obtain ⟨-, hs⟩ := Option.ite_none_right_eq_some.mp hs
    obtain rfl := Option.some.inj hs
    exact Nat.le_of_eq (Nat.zero_add _)
  | wrapperFork pid =>
    have hpc : s'.pc = s.pc := by
      simp only [step] at hs
      split at hs
      next => cases hs
      next =>
        obtain ⟨-, hs⟩ := Option.ite_none_left_eq_some.mp hs
        split at hs
        next =>
          obtain rfl := Option.some.inj hs
          rfl
        next =>
          obtain ⟨-, hs⟩ := Option.ite_none_right_eq_some.mp hs
          obtain rfl := Option.some.inj hs
          rfl
    rw [hpc]
    exact Nat.le_of_eq (Nat.zero_add _)

/-- The calls of `main` that wait. -/
def Pc.waiting : Pc → Bool
  | .waitFirst | .waitExec | .waitVfork | .poll _ | .waitWrapper => true
  | _ => false

theorem afterWait_isSome (h : s.pc.waiting = true) (r : Option (Proc Job)) :
    ∃ t, afterWait s r = some t := by
  cases hpc : s.pc with
  | waitFirst | waitExec | waitVfork | poll i | waitWrapper =>
    exact ⟨_, by simp only [afterWait, hpc]; rfl⟩
  | _ =>
    rw [hpc] at h
    cases h

/-- `main` can go on unless it waits for a child that is still running. -/
theorem main_progress (hend : s.pc ≠ .returned ∧ s.pc ≠ .exited) :
    (∃ a t, a.isMain = true ∧ step me a s = some t) ∨
      s.pc.waiting = true ∧ ∃ p ∈ s.candidates me, p.status = none := by
  cases hw : s.pc.waiting with
  | false =>
    left
    cases hpc : s.pc with
    | forkFirst | forkExec | vfork | forkNohang | forkZombie | forkWrapper =>
      exact ⟨.fork none, _, rfl, by simp only [step, forkStep, hpc]; rfl⟩
    | shmOpen | ftruncate | mmap | shmUnlink =>
      exact ⟨.call false, _, rfl, by simp only [step, callStep, hpc]; rfl⟩
    | returned => exact absurd hpc hend.1
    | exited => exact absurd hpc hend.2
    | _ =>
      rw [hpc] at hw
      cases hw
  | true =>
    by_cases hnil : s.candidates me = []
    · left
      obtain ⟨t, ht⟩ := afterWait_isSome
        (s := { s with waits := s.waits ++ [⟨s.pc, s.target, none⟩] }) hw none
      exact ⟨.noChild, t, rfl, by simp only [step, if_pos hnil, ht]⟩
    by_cases hz : ∃ p ∈ s.candidates me, p.status ≠ none
    · left
      obtain ⟨p, hp, hstatus⟩ := hz
      have hfind : ((s.candidates me).find? fun q => q.pid = p.pid ∧ q.status.isSome).isSome := by
        rw [List.find?_isSome]
        exact ⟨p, hp, decide_eq_true ⟨rfl, Option.isSome_iff_ne_none.mpr hstatus⟩⟩
      obtain ⟨q, hq⟩ := Option.isSome_iff_exists.mp hfind
      obtain ⟨t, ht⟩ := afterWait_isSome (s := { s with
        table := reap s.table q.pid
        waits := s.waits ++ [⟨s.pc, s.target, some q.job⟩] }) hw (some q)
      exact ⟨.wait p.pid, t, rfl, by simp only [step, hq, ht]⟩
    · right
      obtain ⟨p, hp⟩ := List.exists_mem_of_ne_nil _ hnil
      refine ⟨rfl, p, hp, ?_⟩
      by_contra hstatus
      exact hz ⟨p, hp, hstatus⟩

end Left

end LearnLinux.ProcessDemo
