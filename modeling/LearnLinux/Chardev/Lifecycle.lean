import LearnLinux.Chardev.Driver
import LearnLinux.Lib.Transition

/-!
# Loading and unloading the driver

The steps of `chardev_init`, of its unwinding labels and of `chardev_exit`
interleave with users that open the device and run the driver's file operations
on `g_dev`. What the kernel contributes: the device can be opened from `cdev_add`
to `cdev_del`, an open file stays usable after `cdev_del`, `chardev_exit` starts
only when no file is open, and a failing `chardev_init` waits for nobody.

`cdev_add` makes the device live before `class_create` and `device_create`, which
can still fail. `kfree_under_open_file` is a run in which a user opens the device
in between and then clears the freed buffer with `CHARDEV_RESET`.
`access_of_kfree_unopened` shows that this is the only way: the operations are
safe in every run that frees the buffer only while no file is open, and every
other run can be continued to an access to the freed buffer.
-/

namespace LearnLinux.Chardev.Lifecycle

open Transition

/-! ## State -/

/-- Where the module code is: the next call of `chardev_init`, of its unwinding
labels or of `chardev_exit`. -/
inductive Pc where
  | allocChrdevRegion
  | cdevInit
  | mutexInit
  | kmalloc
  | setFields
  | cdevAdd
  | classCreate
  | deviceCreate
  | errClass
  | errCdev
  | errBuf
  | errChrdev
  | failed
  | loaded
  | exitDevice
  | exitClass
  | exitCdev
  | exitBuf
  | exitChrdev
  | unloaded
  deriving DecidableEq, Repr

/-- What `g_dev.buf` points to. -/
inductive Buf where
  | null
  | allocated
  | freed
  deriving DecidableEq, Repr

/-- An open file: between two calls, inside one before `mutex_lock`, or between
`mutex_lock` and `mutex_unlock`. -/
inductive File where
  | closed
  | idle
  | called (c : Call)
  | holding (c : Call)

/-- What the module code works on: `buf` says whether the memory behind `g_dev.buf`
is the driver's, `dev` is `g_dev` itself. -/
structure Module where
  pc : Pc
  ret : Int
  region : Bool
  lockInit : Bool
  buf : Buf
  live : Bool
  cls : Bool
  device : Bool
  dev : ChardevData

/-- The module, the users' files with their positions, and who holds `dev->lock`. -/
structure State extends Module where
  file : Nat → File
  fpos : Nat → Loff
  holder : Option Nat

/-- What the file operations of the driver work on. -/
def State.node (s : State) : Node := ⟨s.dev, s.fpos⟩

/-- Before `chardev_init` runs; `g_dev` is static and starts as zeros. -/
def start : State where
  pc := .allocChrdevRegion
  ret := 0
  region := false
  lockInit := false
  buf := .null
  live := false
  cls := false
  device := false
  dev := { lock := false, buf := [], bufLen := 0, echo := 0 }
  file := fun _ => .closed
  fpos := fun _ => 0
  holder := none

/-! ## Steps -/

inductive Act where
  /-- The next call of the module code; `some e` lets it fail with errno `e + 1`, and
  `mem` is what the memory that `kmalloc` returns holds. -/
  | module (fail : Option Nat) (mem : Vector UInt8 bufSize)
  | exit
  /-- The freed memory is handed out again and overwritten. -/
  | reuse (mem : Vector UInt8 bufSize)
  | openFile (f : Nat)
  | call (f : Nat) (c : Call)
  | lock (f : Nat)
  | unlock (f : Nat)
  | leave (f : Nat)
  | release (f : Nat)

def State.NoOpenFile (s : State) : Prop := ∀ f, s.file f = .closed

/-- The calls that come to a `mutex_lock(&dev->lock)`; `CHARDEV_SECHO` returns before
it when its argument cannot be read. -/
def takesLock : Call → Bool
  | .read _ _ _ | .write _ _ _ => true
  | .llseek _ _ _ => false
  | .ioctl _ cmd arg =>
    cmd == chardevReset || cmd == chardevGsize ||
      cmd == chardevSecho && arg.copyFromUser CInt.sizeofInt == 0

/-- One call of `chardev_init`, of the unwinding labels or of `chardev_exit`. -/
def moduleStep (fail : Option Nat) (mem : Vector UInt8 bufSize) (m : Module) : Option Module :=
  match m.pc, fail with
  | .allocChrdevRegion, none => some { m with pc := .cdevInit, region := true }
  | .allocChrdevRegion, some e => some { m with pc := .failed, ret := -(e + 1) }
  | .cdevInit, _ => some { m with pc := .mutexInit }
  | .mutexInit, _ => some { m with pc := .kmalloc, lockInit := true, dev.lock := false }
  | .kmalloc, none => some { m with pc := .setFields, buf := .allocated, dev.buf := mem.toList }
  | .kmalloc, some _ => some { m with pc := .errChrdev, buf := .null, ret := -ENOMEM }
  | .setFields, _ => some { m with pc := .cdevAdd, dev.bufLen := 0, dev.echo := 1 }
  | .cdevAdd, none => some { m with pc := .classCreate, live := true }
  | .cdevAdd, some e => some { m with pc := .errBuf, ret := -(e + 1) }
  | .classCreate, none => some { m with pc := .deviceCreate, cls := true }
  | .classCreate, some e => some { m with pc := .errCdev, ret := -(e + 1) }
  | .deviceCreate, none => some { m with pc := .loaded, device := true, ret := 0 }
  | .deviceCreate, some _ => some { m with pc := .errClass, ret := -ENOMEM }
  | .errClass, _ => some { m with pc := .errCdev, cls := false }
  | .errCdev, _ => some { m with pc := .errBuf, live := false }
  | .errBuf, _ => some { m with pc := .errChrdev, buf := .freed }
  | .errChrdev, _ => some { m with pc := .failed, region := false }
  | .exitDevice, _ => some { m with pc := .exitClass, device := false }
  | .exitClass, _ => some { m with pc := .exitCdev, cls := false }
  | .exitCdev, _ => some { m with pc := .exitBuf, live := false }
  | .exitBuf, _ => some { m with pc := .exitChrdev, buf := .freed }
  | .exitChrdev, _ => some { m with pc := .unloaded, region := false }
  | .failed, _ | .loaded, _ | .unloaded, _ => none

/-- A step of a user on the file `f`. -/
def fileStep (f : Nat) (file : File) (holder : Option Nat) (node : Node) (s : State) : State :=
  { s with
    file := Function.update s.file f file
    holder := holder
    dev := node.dev
    fpos := node.fpos }

/-- The step relation; `chardev_exit` starts only when no file is open. A call works
on `g_dev` between `lock` and `unlock`, where nobody else can; a newly opened file
starts at position 0. -/
inductive Step : Act → State → State → Prop
  | module {s : State} {m : Module} (fail : Option Nat) (mem : Vector UInt8 bufSize) :
      moduleStep fail mem s.toModule = some m →
      Step (.module fail mem) s { s with toModule := m }
  | exit {s : State} : s.pc = .loaded → s.NoOpenFile → Step .exit s { s with pc := .exitDevice }
  | reuse {s : State} (mem : Vector UInt8 bufSize) : s.buf = .freed →
      Step (.reuse mem) s { s with dev.buf := mem.toList }
  | openFile {s : State} (f : Nat) : s.live = true → s.file f = .closed →
      Step (.openFile f) s (fileStep f .idle s.holder ⟨s.dev, Function.update s.fpos f 0⟩ s)
  | call {s : State} (f : Nat) (c : Call) : s.file f = .idle → c.file = f →
      Step (.call f c) s (fileStep f (.called c) s.holder s.node s)
  | lock {s : State} (f : Nat) (c : Call) : s.file f = .called c → takesLock c = true →
      s.holder = none → Step (.lock f) s (fileStep f (.holding c) (some f) s.node s)
  | unlock {s : State} (f : Nat) (c : Call) : s.file f = .holding c →
      Step (.unlock f) s (fileStep f .idle none (s.node.call c).1 s)
  | leave {s : State} (f : Nat) (c : Call) : s.file f = .called c → takesLock c = false →
      Step (.leave f) s (fileStep f .idle s.holder (s.node.call c).1 s)
  | release {s : State} (f : Nat) : s.file f = .idle →
      Step (.release f) s (fileStep f .closed s.holder s.node s)

/-- The module and its users. -/
def system : System Act State where
  init s := s = start
  step := Step

/-- A load or a store of at least one byte. -/
def touches : Access → Bool
  | .load _ len => 0 < len
  | .store _ len => 0 < len

/-- The file `f` is at work in the call `c`: it has the lock, or it does without. -/
def State.Works (s : State) (f : Nat) (c : Call) : Prop :=
  s.file f = .holding c ∨ s.file f = .called c ∧ takesLock c = false

/-- The file `f` is at work in a call that loads from or stores to `dev->buf`. A read
of an empty device, a write to a full one and a transfer of no byte return without. -/
def State.Accesses (s : State) (f : Nat) : Prop :=
  ∃ c, s.Works f c ∧ (s.node.call c).2.touched.any touches = true

/-- `dev->buf` may be used: `kmalloc` has succeeded, `kfree` has not run and
`dev->lock` is initialised. -/
def State.Usable (s : State) : Prop := s.buf = .allocated ∧ s.lockInit = true

/-- A call that does not come to the lock has nothing to do with `dev->buf`. -/
theorem touched_of_not_takesLock (node : Node) (c : Call) (h : takesLock c = false) :
    (node.call c).2.touched = [] := by
  cases c with
  | read file ubuf count => exact absurd h (by simp [takesLock])
  | write file ubuf count => exact absurd h (by simp [takesLock])
  | llseek file offset whence => rfl
  | ioctl file cmd arg =>
    simp only [takesLock, Bool.or_eq_false_iff, Bool.and_eq_false_iff, beq_eq_false_iff_ne] at h
    obtain ⟨⟨hreset, hgsize⟩, hsecho⟩ := h
    simp only [Node.call, Call.exec, chardevIoctl, if_neg hreset, if_neg hgsize]
    by_cases hc : cmd = chardevSecho
    · rw [if_pos hc, if_pos (hsecho.resolve_left (not_not_intro hc))]
    · rw [if_neg hc]

/-- Every access is made under the lock. -/
theorem State.Accesses.holding {s : State} {f : Nat} (h : s.Accesses f) :
    ∃ c, s.file f = .holding c := by
  obtain ⟨c, hworks, htouched⟩ := h
  rcases hworks with hc | ⟨-, hlock⟩
  · exact ⟨c, hc⟩
  · rw [touched_of_not_takesLock s.node c hlock] at htouched
    cases htouched

/-! ## What every step keeps -/

/-- The module code has allocated the buffer and not freed it yet. -/
def Pc.hasBuf : Pc → Bool
  | .allocChrdevRegion | .cdevInit | .mutexInit | .kmalloc | .errChrdev | .failed
  | .exitChrdev | .unloaded => false
  | _ => true

/-- The device is live. -/
def Pc.isLive : Pc → Bool
  | .classCreate | .deviceCreate | .errClass | .errCdev | .loaded | .exitDevice | .exitClass
  | .exitCdev => true
  | _ => false

/-- The module code has initialised the lock. -/
def Pc.hasLock : Pc → Bool
  | .allocChrdevRegion | .cdevInit | .mutexInit | .failed => false
  | _ => true

/-- The next call is `kfree(g_dev.buf)`. -/
def Pc.frees (pc : Pc) : Prop := pc = .errBuf ∨ pc = .exitBuf

theorem Pc.hasBuf_of_isLive (pc : Pc) (h : pc.isLive = true) :
    pc.hasBuf = true ∧ pc.hasLock = true := by
  cases pc <;> simp_all [Pc.isLive, Pc.hasBuf, Pc.hasLock]

theorem Pc.hasLock_of_hasBuf (pc : Pc) (h : pc.hasBuf = true) : pc.hasLock = true := by
  cases pc <;> simp_all [Pc.hasBuf, Pc.hasLock]

/-- The module state is the one its program point says. -/
structure Module.Tracks (m : Module) : Prop where
  buf : m.pc.hasBuf = true → m.buf = .allocated
  live : m.live = m.pc.isLive
  lock : m.pc.hasLock = true → m.lockInit = true

/-- The module code keeps track of its state, and it gives the buffer up only at the
two labels that call `kfree`. -/
theorem moduleStep_cases {fail : Option Nat} {mem : Vector UInt8 bufSize} {m n : Module}
    (h : moduleStep fail mem m = some n) (hm : m.Tracks) :
    n.Tracks ∧ (m.pc.hasBuf = true → n.pc.hasBuf = true ∨ m.pc.frees) := by
  obtain ⟨hbuf, hlive, hlock⟩ := hm
  obtain ⟨pc, ret, region, lockInit, buf, live, cls, device, dev⟩ := m
  cases pc with
  | allocChrdevRegion =>
    cases fail with
    | none =>
      cases h
      exact ⟨⟨hbuf, hlive, hlock⟩, fun hb => absurd hb Bool.false_ne_true⟩
    | some e =>
      cases h
      exact ⟨⟨hbuf, hlive, hlock⟩, fun hb => absurd hb Bool.false_ne_true⟩
  | cdevInit =>
    cases h
    exact ⟨⟨hbuf, hlive, hlock⟩, fun hb => absurd hb Bool.false_ne_true⟩
  | mutexInit =>
    cases h
    exact ⟨⟨hbuf, hlive, fun _ => rfl⟩, fun hb => absurd hb Bool.false_ne_true⟩
  | kmalloc =>
    cases fail with
    | none =>
      cases h
      exact ⟨⟨fun _ => rfl, hlive, hlock⟩, fun hb => absurd hb Bool.false_ne_true⟩
    | some e =>
      cases h
      exact ⟨⟨fun hb => absurd hb Bool.false_ne_true, hlive, hlock⟩,
        fun hb => absurd hb Bool.false_ne_true⟩
  | setFields =>
    cases h
    exact ⟨⟨hbuf, hlive, hlock⟩, fun _ => .inl rfl⟩
  | cdevAdd =>
    cases fail with
    | none =>
      cases h
      exact ⟨⟨hbuf, rfl, hlock⟩, fun _ => .inl rfl⟩
    | some e =>
      cases h
      exact ⟨⟨hbuf, hlive, hlock⟩, fun _ => .inl rfl⟩
  | classCreate =>
    cases fail with
    | none =>
      cases h
      exact ⟨⟨hbuf, hlive, hlock⟩, fun _ => .inl rfl⟩
    | some e =>
      cases h
      exact ⟨⟨hbuf, hlive, hlock⟩, fun _ => .inl rfl⟩
  | deviceCreate =>
    cases fail with
    | none =>
      cases h
      exact ⟨⟨hbuf, hlive, hlock⟩, fun _ => .inl rfl⟩
    | some e =>
      cases h
      exact ⟨⟨hbuf, hlive, hlock⟩, fun _ => .inl rfl⟩
  | errClass | exitDevice | exitClass =>
    cases h
    exact ⟨⟨hbuf, hlive, hlock⟩, fun _ => .inl rfl⟩
  | errCdev | exitCdev =>
    cases h
    exact ⟨⟨hbuf, rfl, hlock⟩, fun _ => .inl rfl⟩
  | errBuf =>
    cases h
    exact ⟨⟨fun hb => absurd hb Bool.false_ne_true, hlive, hlock⟩, fun _ => .inr (.inl rfl)⟩
  | exitBuf =>
    cases h
    exact ⟨⟨fun hb => absurd hb Bool.false_ne_true, hlive, hlock⟩, fun _ => .inr (.inr rfl)⟩
  | errChrdev =>
    cases h
    exact ⟨⟨hbuf, hlive, fun hk => absurd hk Bool.false_ne_true⟩,
      fun hb => absurd hb Bool.false_ne_true⟩
  | exitChrdev =>
    cases h
    exact ⟨⟨hbuf, hlive, hlock⟩, fun hb => absurd hb Bool.false_ne_true⟩
  | failed | loaded | unloaded => cases h

/-- The buffer is freed only while no file is open: the condition on the state
before a `kfree(g_dev.buf)` step. -/
def FreesUnopened : Act → State → Prop
  | .module _ _, s => s.pc.frees → s.NoOpenFile
  | _, _ => True

/-- An open file finds the buffer allocated. -/
structure State.Safe (s : State) : Prop where
  tracks : s.toModule.Tracks
  opened : ∀ f, s.file f ≠ .closed → s.pc.hasBuf = true

/-- A user step on a file keeps the module state; it is safe when the file ends up
closed or the buffer is there. -/
theorem State.Safe.fileStep {s : State} (h : s.Safe) (f : Nat) (file : File)
    (holder : Option Nat) (node : Node) (hf : file ≠ .closed → s.pc.hasBuf = true) :
    (Lifecycle.fileStep f file holder node s).Safe := by
  refine ⟨⟨h.tracks.buf, h.tracks.live, h.tracks.lock⟩, ?_⟩
  intro g hg
  by_cases hgf : g = f
  · subst hgf
    exact hf (by simpa [Lifecycle.fileStep] using hg)
  · exact h.opened g (by simpa [Lifecycle.fileStep, hgf] using hg)

theorem step_safe {a : Act} {s t : State} (hg : FreesUnopened a s) (hs : Step a s t)
    (h : s.Safe) : t.Safe := by
  cases hs with
  | module fail mem hm =>
    obtain ⟨ht, hbuf⟩ := moduleStep_cases hm h.tracks
    refine ⟨ht, ?_⟩
    intro f hf
    rcases hbuf (h.opened f hf) with hk | hfree
    · exact hk
    · exact absurd (hg hfree f) hf
  | exit hpc hno =>
    refine ⟨⟨?_, ?_, ?_⟩, fun f hf => absurd (hno f) hf⟩
    · intro _
      exact h.tracks.buf (by rw [hpc]; rfl)
    · exact h.tracks.live.trans (by rw [hpc]; rfl)
    · intro _
      exact h.tracks.lock (by rw [hpc]; rfl)
  | reuse mem _ => exact ⟨⟨h.tracks.buf, h.tracks.live, h.tracks.lock⟩, h.opened⟩
  | openFile f hlive _ =>
    have hpc : s.pc.isLive = true := h.tracks.live.symm.trans hlive
    exact h.fileStep f _ _ _ fun _ => (s.pc.hasBuf_of_isLive hpc).1
  | call f c hf _ => exact h.fileStep f _ _ _ fun _ => h.opened f (by simp [hf])
  | lock f c hf _ _ => exact h.fileStep f _ _ _ fun _ => h.opened f (by simp [hf])
  | unlock f c hf => exact h.fileStep f _ _ _ fun _ => h.opened f (by simp [hf])
  | leave f c hf _ => exact h.fileStep f _ _ _ fun _ => h.opened f (by simp [hf])
  | release f hf => exact h.fileStep f _ _ _ fun hc => absurd rfl hc

theorem guarded_safe {s : State} (hr : (system.guarded FreesUnopened).Reachable s) : s.Safe := by
  refine hr.invariant ?_ ?_
  · rintro s rfl
    exact ⟨⟨by decide, rfl, by decide⟩, fun f hf => absurd rfl hf⟩
  · rintro a s t h ⟨hg, hs⟩
    exact step_safe hg hs h

/-! ## From a `kfree` under an open file to a bad access -/

/-- Whoever is noted as holder of `dev->lock` is inside a call. -/
def State.Locked (s : State) : Prop := ∀ g, s.holder = some g → ∃ c, s.file g = .holding c

/-- A user step on a file that does not hold the lock leaves the holder alone. -/
theorem State.Locked.fileStep {s : State} (h : s.Locked) (f : Nat) (file : File) (node : Node)
    (hf : ∀ c, s.file f ≠ .holding c) : (Lifecycle.fileStep f file s.holder node s).Locked := by
  intro g hg
  obtain ⟨c, hc⟩ := h g hg
  have hgf : g ≠ f := fun heq => hf c (heq ▸ hc)
  exact ⟨c, by rw [← hc]; exact Function.update_of_ne hgf _ _⟩

theorem step_locked {a : Act} {s t : State} (h : s.Locked) (hs : Step a s t) : t.Locked := by
  cases hs with
  | module | exit | reuse => exact h
  | openFile f _ hf => exact h.fileStep f _ _ (by simp [hf])
  | call f c hf _ => exact h.fileStep f _ _ (by simp [hf])
  | lock f c _ _ _ =>
    intro g hg
    cases hg
    exact ⟨c, Function.update_self ..⟩
  | unlock f c _ =>
    intro g hg
    cases hg
  | leave f c hf _ => exact h.fileStep f _ _ (by simp [hf])
  | release f hf => exact h.fileStep f _ _ (by simp [hf])

theorem reachable_locked {s : State} (hr : system.Reachable s) : s.Locked := by
  refine hr.invariant ?_ fun a s t h hs => step_locked h hs
  rintro s rfl g hg
  cases hg

/-- Whoever holds the lock can give it back. -/
theorem exists_run_unlocked {s : State} (h : s.Locked) {f : Nat} (hf : s.file f ≠ .closed) :
    ∃ as t, system.Run as s t ∧ t.buf = s.buf ∧ t.file f ≠ .closed ∧ t.holder = none := by
  cases hh : s.holder with
  | none => exact ⟨[], s, .nil, rfl, hf, hh⟩
  | some g =>
    obtain ⟨c, hc⟩ := h g hh
    refine ⟨[.unlock g], _, .cons (Step.unlock g c hc) .nil, rfl, ?_, rfl⟩
    by_cases hfg : f = g
    · simp [fileStep, hfg]
    · simpa [fileStep, hfg] using hf

/-- While the lock is free a file can bring its call to an end. -/
theorem exists_run_idle {s : State} {f : Nat} (hf : s.file f ≠ .closed) (hh : s.holder = none) :
    ∃ as t, system.Run as s t ∧ t.buf = s.buf ∧ t.file f = .idle ∧ t.holder = none := by
  cases hc : s.file f with
  | closed => exact absurd hc hf
  | idle => exact ⟨[], s, .nil, rfl, hc, hh⟩
  | called c =>
    cases hl : takesLock c with
    | true =>
      have hlock := Step.lock f c hc hl hh
      have hunlock := Step.unlock (s := fileStep f (.holding c) (some f) s.node s) f c
        (Function.update_self ..)
      exact ⟨[.lock f, .unlock f], _, .cons hlock (.cons hunlock .nil), rfl,
        Function.update_self .., rfl⟩
    | false =>
      exact ⟨[.leave f], _, .cons (Step.leave f c hc hl) .nil, rfl, Function.update_self .., hh⟩
  | holding c =>
    exact ⟨[.unlock f], _, .cons (Step.unlock f c hc) .nil, rfl, Function.update_self .., rfl⟩

/-- `ioctl(f, CHARDEV_RESET)`. -/
def reset (f : Nat) : Call := .ioctl f chardevReset ⟨[], 0, fun _ => none⟩

/-- `CHARDEV_RESET` accesses the buffer. -/
theorem exists_run_reset {s : State} {f : Nat} (hf : s.file f = .idle) (hh : s.holder = none) :
    ∃ as t, system.Run as s t ∧ t.buf = s.buf ∧ t.Accesses f := by
  have hcall := Step.call f (reset f) hf rfl
  have hlock := Step.lock (s := fileStep f (.called (reset f)) s.holder s.node s) f (reset f)
    (Function.update_self ..) rfl hh
  exact ⟨[.call f (reset f), .lock f], _, .cons hcall (.cons hlock .nil), rfl, reset f,
    .inl (Function.update_self ..), rfl⟩

/-- A file that is open when the buffer is freed can be used to access it. -/
theorem exists_run_bad {s : State} (h : s.Locked) (hbuf : s.buf = .freed) {f : Nat}
    (hf : s.file f ≠ .closed) :
    ∃ as t, system.Run as s t ∧ t.Accesses f ∧ ¬ t.Usable := by
  obtain ⟨as, t, hst, hbt, hft, hht⟩ := exists_run_unlocked h hf
  obtain ⟨bs, u, htu, hbu, hfu, hhu⟩ := exists_run_idle hft hht
  obtain ⟨cs, v, huv, hbv, hacc⟩ := exists_run_reset hfu hhu
  have hfreed : v.buf = .freed := by rw [hbv, hbu, hbt, hbuf]
  refine ⟨as ++ (bs ++ cs), v, hst.append (htu.append huv), hacc, ?_⟩
  rintro ⟨halloc, -⟩
  rw [hfreed] at halloc
  cases halloc

theorem moduleStep_frees {fail : Option Nat} {mem : Vector UInt8 bufSize} {m n : Module}
    (h : moduleStep fail mem m = some n) (hpc : m.pc.frees) : n.buf = .freed := by
  rcases hpc with hpc | hpc
  · simp only [moduleStep, hpc, Option.some.injEq] at h
    rw [← h]
  · simp only [moduleStep, hpc, Option.some.injEq] at h
    rw [← h]

/-- **No operation runs on a buffer that is not allocated**, in every run that frees
the buffer only while no file is open; and a step that frees it under an open file
can be continued to an access to the freed buffer. -/
theorem access_of_kfree_unopened (s : State) :
    ((system.guarded FreesUnopened).Reachable s → ∀ f, s.Accesses f → s.Usable) ∧
      (system.Reachable s → ∀ a t, ¬ FreesUnopened a s → system.step a s t →
        ∃ as u f, system.Run as t u ∧ u.Accesses f ∧ ¬ u.Usable) := by
  constructor
  · intro hr f ha
    obtain ⟨c, hc⟩ := ha.holding
    have hsafe := guarded_safe hr
    have hbuf := hsafe.opened f (by simp [hc])
    exact ⟨hsafe.tracks.buf hbuf, hsafe.tracks.lock (s.pc.hasLock_of_hasBuf hbuf)⟩
  · intro hr a t hg hs
    have hlocked := step_locked (reachable_locked hr) hs
    cases hs with
    | module fail mem hm =>
      obtain ⟨hfree, hopen⟩ := Classical.not_imp.mp hg
      obtain ⟨f, hf⟩ := Classical.not_forall.mp hopen
      obtain ⟨as, u, hrun, hacc, hbad⟩ := exists_run_bad hlocked (moduleStep_frees hm hfree) hf
      exact ⟨as, u, f, hrun, hacc, hbad⟩
    | exit | reuse | openFile | call | lock | unlock | leave | release => exact absurd trivial hg

/-! ## The run that goes wrong -/

/-- The state right after `cdev_add` has succeeded. -/
def cdevAdded (mem : Vector UInt8 bufSize) : State :=
  { start with
    pc := .classCreate
    region := true
    lockInit := true
    buf := .allocated
    live := true
    dev := (chardevInit mem fun _ => 0).dev }

theorem cdevAdded_reachable (mem : Vector UInt8 bufSize) :
    (system.guarded FreesUnopened).Reachable (cdevAdded mem) := by
  have hstep : ∀ {s : State} {m : Module} (pc : Pc), s.pc = pc → pc ≠ .errBuf → pc ≠ .exitBuf →
      (system.guarded FreesUnopened).Reachable s → moduleStep none mem s.toModule = some m →
      (system.guarded FreesUnopened).Reachable { s with toModule := m } := by
    rintro s m pc rfl he hx hs hm
    exact hs.nextGuarded (Step.module none mem hm) fun hf => absurd hf (by simp [Pc.frees, he, hx])
  have h0 : (system.guarded FreesUnopened).Reachable start := .init rfl
  have h1 := hstep .allocChrdevRegion rfl (by decide) (by decide) h0 rfl
  have h2 := hstep .cdevInit rfl (by decide) (by decide) h1 rfl
  have h3 := hstep .mutexInit rfl (by decide) (by decide) h2 rfl
  have h4 := hstep .kmalloc rfl (by decide) (by decide) h3 rfl
  have h5 := hstep .setFields rfl (by decide) (by decide) h4 rfl
  have h6 := hstep .cdevAdd rfl (by decide) (by decide) h5 rfl
  exact h6

/-- `write(0, "hi", 2)`. -/
def writeTwo : Call := .write 0 ⟨[104, 105], 0, fun _ => none⟩ 2

/-- What the memory behind the buffer holds. -/
def zeros : Vector UInt8 bufSize := Vector.replicate bufSize 0

/-- The device has been opened, `class_create` has failed and `cdev_del` has run. -/
def unwinding : State :=
  { cdevAdded zeros with
    pc := .errBuf
    ret := -1
    live := false
    file := Function.update (fun _ => .closed) 0 .idle
    fpos := Function.update (fun _ => 0) 0 0 }

theorem unwinding_reachable : system.Reachable unwinding := by
  have h0 := System.reachable_of_guarded (cdevAdded_reachable zeros)
  have h1 := System.Reachable.next h0 (Step.openFile 0 rfl rfl)
  have h2 := System.Reachable.next h1 (Step.module (some 0) zeros rfl)
  exact System.Reachable.next h2 (Step.module none zeros rfl)

/-- A user writes while `chardev_init` is still creating the class; and the `kfree`
behind a failed `class_create` can be followed by a bad access. -/
theorem access_during_init :
    (∃ s, (system.guarded FreesUnopened).Reachable s ∧ s.Accesses 0 ∧ s.Usable) ∧
      ∃ s, system.step (.module none zeros) unwinding s ∧
        ∃ as t f, system.Run as s t ∧ t.Accesses f ∧ ¬ t.Usable := by
  constructor
  · have h1 := (cdevAdded_reachable zeros).nextGuarded (Step.openFile 0 rfl rfl) trivial
    have h2 := h1.nextGuarded (Step.call 0 writeTwo rfl rfl) trivial
    have h3 := h2.nextGuarded (Step.lock 0 writeTwo rfl rfl rfl) trivial
    exact ⟨_, h3, ⟨writeTwo, .inl rfl, rfl⟩,
      (access_of_kfree_unopened _).1 h3 0 ⟨writeTwo, .inl rfl, rfl⟩⟩
  · have hs : system.step (.module none zeros) unwinding _ := Step.module none zeros rfl
    have hg : ¬ FreesUnopened (.module none zeros) unwinding := by
      intro hno
      cases hno (.inl rfl) 0
    exact ⟨_, hs, (access_of_kfree_unopened _).2 unwinding_reachable _ _ hg hs⟩

/-- `class_create` fails after a user has opened the device: the unwinding frees
the buffer, and `CHARDEV_RESET` through the file that is still open clears it. -/
theorem kfree_under_open_file :
    ¬ ∀ s, system.Reachable s → ∀ f, s.Accesses f → s.Usable := by
  intro hall
  have h1 := System.Reachable.next unwinding_reachable (Step.module none zeros rfl)
  have h2 := System.Reachable.next h1 (Step.call 0 (reset 0) rfl rfl)
  have h3 := System.Reachable.next h2 (Step.lock 0 (reset 0) rfl rfl rfl)
  have hbuf := (hall _ h3 0 ⟨reset 0, .inl rfl, rfl⟩).1
  cases hbuf

end LearnLinux.Chardev.Lifecycle
