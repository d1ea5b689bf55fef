import LearnLinux.Lib.Signals
import LearnLinux.Lib.Transition

/-!
# `SIGUSR1` and `SIGUSR2` in `04_signals/signal_demo.c`

From `demo_sigprocmask` on, `main` uses `SIGUSR1` with a mask, a pending signal and a `signalfd`,
and `SIGUSR2` with a handler that writes a byte to `g_pipe_fds[1]`. The handler and the disposition
of `SIGUSR1` are never given back, and `demo_pipe` reuses `g_pipe_fds`. Both signals may also come
from outside at any time, and a call that makes a descriptor may fail.

`user_signals_run`: no call of the demos waits for ever on a signal of its own, what they print,
and at which places which signal kills the process: `SIGUSR1` and `SIGUSR2` before their disposition
is changed, and `SIGPIPE` when the handler runs between the two `close` calls of a pipe.
-/

namespace LearnLinux.UserSignals

open Signals Transition

/-! ## The program -/

inductive Sig where
  | sigusr1
  | sigusr2
  deriving DecidableEq, Repr

/-- The pipe behind `g_pipe_fds`: which ends are open, whether writes wait, and the bytes in it. -/
structure Pipe where
  readEnd : Bool
  writeEnd : Bool
  nonblock : Bool
  data : List UInt8
  deriving DecidableEq, Repr

def Pipe.closed : Pipe := ⟨false, false, false, []⟩

def Pipe.fresh : Pipe := ⟨true, true, false, []⟩

def pipeCapacity : Nat := 65536

/-- The bytes `'S'` and `'A'`. -/
def byteS : UInt8 := 83

def byteA : UInt8 := 65

/-- The next call of the demos; the order is that of `main`. -/
inductive Main where
  -- demo_sigprocmask
  | block1
  | kill1
  | sigpending
  | ignore1
  | unblock1
  -- demo_self_pipe
  | pipe
  | nonblock
  | install2
  | kill2
  | sent2
  | readS
  | closeR
  | closeW
  -- demo_pipe
  | pipeA
  | writeA
  | readA
  | closeRA
  | closeWA
  -- demo_signalfd
  | block1fd
  | signalfd
  | kill1fd
  | readfd
  | closefd
  | ended
  deriving DecidableEq, Repr

/-- How far the demos have come. -/
def Main.place (m : Main) : Nat := m.ctorIdx

/-- `failed` are the calls that could not make their descriptor. `sawPending` is the answer of
`sigpending`, `got` what `demo_self_pipe` has read, `char` what `demo_pipe` has read, and `info`
whether `demo_signalfd` has read its signal. `sigpipe` says that `SIGPIPE` has killed the process,
and `early` that the handler has written to the pipe of `demo_pipe` before `main` has. -/
structure State where
  proc : Process Sig Unit
  pipe : Pipe
  main : Main
  failed : List Main
  sawPending : Option Bool
  got : Option (List UInt8)
  char : Option UInt8
  info : Bool
  sigpipe : Bool
  early : Bool

inductive Act where
  | main
  | fails
  | handler
  | send (i : Sig)
  | deliver (i : Sig)
  deriving DecidableEq, Repr

def State.isIdle (s : State) : Bool :=
  s.proc.frames.isEmpty && s.proc.killed.isNone && !s.sigpipe

def setBlocked (p : Process Sig Unit) (blocked : Bool) : Process Sig Unit :=
  { p with blocked := Function.update p.blocked .sigusr1 blocked }

def noMask : Sig → Bool := fun _ => false

/-- A call that does what it is for, while no handler runs. -/
def mainStep (s : State) : Option State :=
  if s.isIdle then
    match s.main with
    | .block1 => some { s with proc := setBlocked s.proc true, main := .kill1 }
    | .kill1 => some { s with proc := s.proc.send .sigusr1, main := .sigpending }
    | .sigpending => some { s with sawPending := some (s.proc.pending .sigusr1), main := .ignore1 }
    | .ignore1 =>
      some { s with proc := s.proc.sigaction .sigusr1 ⟨.ignore, noMask⟩, main := .unblock1 }
    | .unblock1 => some { s with proc := setBlocked s.proc false, main := .pipe }
    | .pipe => some { s with pipe := .fresh, main := .nonblock }
    | .nonblock => some { s with pipe := { s.pipe with nonblock := true }, main := .install2 }
    | .install2 =>
      some { s with proc := s.proc.sigaction .sigusr2 ⟨.handler, noMask⟩, main := .kill2 }
    | .kill2 => some { s with proc := s.proc.send .sigusr2, main := .sent2 }
    -- the signal is delivered before `kill` returns
    | .sent2 => if s.proc.pending .sigusr2 then none else some { s with main := .readS }
    | .readS =>
      if s.pipe.data = [] then none
      else some { s with
        got := some (s.pipe.data.take 8)
        pipe := { s.pipe with data := s.pipe.data.drop 8 }
        main := .closeR }
    | .closeR => some { s with pipe := { s.pipe with readEnd := false }, main := .closeW }
    | .closeW => some { s with pipe := .closed, main := .pipeA }
    | .pipeA => some { s with pipe := .fresh, main := .writeA }
    | .writeA =>
      if s.pipe.data.length < pipeCapacity then
        some { s with pipe := { s.pipe with data := s.pipe.data ++ [byteA] }, main := .readA }
      else none
    | .readA =>
      match s.pipe.data with
      | [] => none
      | b :: data => some { s with char := some b, pipe := { s.pipe with data }, main := .closeRA }
    | .closeRA => some { s with pipe := { s.pipe with readEnd := false }, main := .closeWA }
    | .closeWA => some { s with pipe := .closed, main := .block1fd }
    | .block1fd => some { s with proc := setBlocked s.proc true, main := .signalfd }
    | .signalfd => some { s with main := .kill1fd }
    | .kill1fd => some { s with proc := s.proc.send .sigusr1, main := .readfd }
    | .readfd =>
      if s.proc.pending .sigusr1 then
        some { s with
          proc := { s.proc with pending := Function.update s.proc.pending .sigusr1 false }
          info := true
          main := .closefd }
      else none
    | .closefd => some { s with main := .ended }
    | .ended => none
  else none

/-- A call that cannot make its descriptor ends its demo. -/
def failStep (s : State) : Option State :=
  if s.isIdle then
    match s.main with
    | .pipe => some { s with failed := .pipe :: s.failed, main := .pipeA }
    | .pipeA => some { s with failed := .pipeA :: s.failed, main := .block1fd }
    | .signalfd => some { s with failed := .signalfd :: s.failed, main := .ended }
    | _ => none
  else none

/-- `pipe_sig_handler`: the write to `g_pipe_fds[1]`, and the return. The write fails on a closed
descriptor and on a full pipe that is not to wait; without a reader it raises `SIGPIPE`, which may
be `ignored`. -/
def handlerStep (ignored : Bool) (s : State) : Option State :=
  if s.proc.killed.isSome || s.sigpipe then none
  else s.proc.sigreturn.bind fun p =>
    if s.pipe.writeEnd = false then some { s with proc := p }
    else if s.pipe.readEnd = false then some { s with proc := p, sigpipe := !ignored }
    else if s.pipe.data.length < pipeCapacity then
      some { s with
        proc := p
        pipe := { s.pipe with data := s.pipe.data ++ [byteS] }
        early := s.early || s.main = .writeA }
    else if s.pipe.nonblock then some { s with proc := p }
    else none

def step (ignored : Bool) : Act → State → Option State
  | .main, s => mainStep s
  | .fails, s => failStep s
  | .handler, s => handlerStep ignored s
  | .send i, s => some { s with proc := s.proc.send i }
  | .deliver i, s =>
    if s.sigpipe then none else (s.proc.deliver i ()).map fun p => { s with proc := p }

/-- Both signals have their default action, and nothing is blocked or pending. -/
def State.initial : State :=
  ⟨⟨fun _ => false, fun _ => false, fun _ => ⟨.default, noMask⟩, [], none⟩, .closed, .block1, [],
    none, none, none, false, false, false⟩

/-! ## The invariant -/

/-- `main` has `SIGUSR1` blocked. -/
def Main.blocks : Main → Bool
  | .kill1 | .sigpending | .ignore1 | .unblock1 => true
  | .signalfd | .kill1fd | .readfd | .closefd | .ended => true
  | _ => false

/-- The call needs a pending `SIGUSR1`. -/
def Main.expects : Main → Bool
  | .sigpending | .readfd => true
  | _ => false

/-- The disposition of `SIGUSR1`. -/
def Main.usr1 : Main → Disposition
  | .block1 | .kill1 | .sigpending | .ignore1 => .default
  | _ => .ignore

/-- The disposition of `SIGUSR2`: its handler is installed by `demo_self_pipe`, unless that could
not make its pipe. -/
def usr2 (main : Main) (failed : List Main) : Disposition :=
  if Main.install2.place < main.place ∧ .pipe ∉ failed then .handler else .default

/-- `SIGUSR1` is neither blocked nor ignored only before `demo_sigprocmask` has begun. -/
theorem Main.eq_block1 {m : Main} (hb : m.blocks = false) (hu : m.usr1 = .default) :
    m = .block1 := by
  cases m <;> simp_all [Main.blocks, Main.usr1]

theorem Main.not_expects {m : Main} (hb : m.blocks = false) : ¬ m.expects = true := by
  cases m <;> simp_all [Main.blocks, Main.expects]

/-- What is in the pipe at each call. -/
def State.Flow (s : State) : Prop :=
  match s.main with
  | .nonblock | .install2 => s.pipe.readEnd = true ∧ s.pipe.writeEnd = true ∧ s.pipe.data = []
  | .kill2 | .closeR =>
    s.pipe.readEnd = true ∧ s.pipe.writeEnd = true ∧ ∀ b ∈ s.pipe.data, b = byteS
  | .sent2 =>
    s.pipe.readEnd = true ∧ s.pipe.writeEnd = true ∧ (∀ b ∈ s.pipe.data, b = byteS) ∧
      (s.proc.pending .sigusr2 = true ∨ s.proc.frames ≠ [] ∨ s.pipe.data ≠ [])
  | .readS =>
    s.pipe.readEnd = true ∧ s.pipe.writeEnd = true ∧ (∀ b ∈ s.pipe.data, b = byteS) ∧
      s.pipe.data ≠ []
  | .closeW | .closeWA => s.pipe.readEnd = false ∧ s.pipe.writeEnd = true
  | .writeA =>
    s.pipe.readEnd = true ∧ s.pipe.writeEnd = true ∧ (∀ b ∈ s.pipe.data, b = byteS) ∧
      (s.early = false → s.pipe.data = [])
  | .readA =>
    s.pipe.readEnd = true ∧ s.pipe.writeEnd = true ∧
      ∃ pre post, s.pipe.data = pre ++ byteA :: post ∧
      (∀ b ∈ pre, b = byteS) ∧ (s.early = false → pre = [])
  | .closeRA => s.pipe.readEnd = true ∧ s.pipe.writeEnd = true
  | _ => s.pipe = .closed

/-- The calls whose results are printed. -/
def results : List Main := [.sigpending, .readS, .readA, .readfd]

/-- What the demos have read and printed, each behind its call unless that was left out. -/
structure Printed (main : Main) (failed : List Main) (early : Bool) (sawPending : Option Bool)
    (got : Option (List UInt8)) (char : Option UInt8) (info : Bool) : Prop where
  pending : Main.sigpending.place < main.place → sawPending = some true
  selfPipe : Main.readS.place < main.place → .pipe ∉ failed →
    ∃ bytes, got = some bytes ∧ 1 ≤ bytes.length ∧ bytes.length ≤ 8 ∧ ∀ b ∈ bytes, b = byteS
  simplePipe : Main.readA.place < main.place → .pipeA ∉ failed →
    ∃ b, char = some b ∧ (b = byteA ∨ b = byteS) ∧ (early = false → b = byteA)
  signalfd : Main.readfd.place < main.place → .signalfd ∉ failed → info = true

structure State.Sound (ignored : Bool) (s : State) : Prop where
  nested : Nested (fun i => decide (i = .sigusr1) && s.main.blocks) s.proc.blocked s.proc.frames
  frames : ∀ f ∈ s.proc.frames, f.sig = .sigusr2 ∧ UserSignals.usr2 s.main s.failed = .handler
  usr1 : (s.proc.action .sigusr1).disposition = s.main.usr1
  usr2 : (s.proc.action .sigusr2).disposition = UserSignals.usr2 s.main s.failed
  selfPipe : .pipe ∈ s.failed → Main.pipeA.place ≤ s.main.place
  killed1 : s.proc.killed = some .sigusr1 → s.main = .block1
  killed2 : s.proc.killed = some .sigusr2 → UserSignals.usr2 s.main s.failed = .default
  sigpipe : s.sigpipe = true → ignored = false ∧ (s.main = .closeW ∨ s.main = .closeWA)
  pending : s.main.expects = true → s.proc.pending .sigusr1 = true
  flow : s.Flow
  printed : Printed s.main s.failed s.early s.sawPending s.got s.char s.info

theorem usr2_eq_handler {main : Main} {failed : List Main} (hm : Main.install2.place < main.place)
    (hf : .pipe ∉ failed) : usr2 main failed = .handler :=
  if_pos ⟨hm, hf⟩

theorem usr2_eq_default {main : Main} {failed : List Main} (h : usr2 main failed = .default) :
    main.place ≤ Main.install2.place ∨ .pipe ∈ failed := by
  by_contra hno
  obtain ⟨hm, hf⟩ := not_or.mp hno
  rw [usr2_eq_handler (Nat.lt_of_not_le hm) hf] at h
  cases h

section Printed

variable {main : Main} {failed : List Main} {early early' : Bool} {sawPending : Option Bool}
  {got : Option (List UInt8)} {char : Option UInt8} {info : Bool}

/-- The demos have gone on by a call that reads nothing. -/
theorem Printed.moveTo (h : Printed main failed early sawPending got char info) (main' : Main)
    (hsame : ∀ c ∈ results, c.place < main'.place ↔ c.place < main.place) :
    Printed main' failed early sawPending got char info where
  pending hp := h.pending ((hsame .sigpending (by decide)).mp hp)
  selfPipe hp := h.selfPipe ((hsame .readS (by decide)).mp hp)
  simplePipe hp := h.simplePipe ((hsame .readA (by decide)).mp hp)
  signalfd hp := h.signalfd ((hsame .readfd (by decide)).mp hp)

theorem Printed.writes (h : Printed main failed early sawPending got char info)
    (hearly : early' = false → early = false) :
    Printed main failed early' sawPending got char info where
  pending := h.pending
  selfPipe := h.selfPipe
  simplePipe hp hf := by
    obtain ⟨b, hchar, hvalue, hb⟩ := h.simplePipe hp hf
    exact ⟨b, hchar, hvalue, fun he => hb (hearly he)⟩
  signalfd := h.signalfd

end Printed

section Steps

variable {ignored : Bool} {s s' : State}

theorem initial_sound : State.initial.Sound ignored where
  nested := by
    funext i
    cases i <;> rfl
  frames _ hf := by cases hf
  usr1 := rfl
  usr2 := rfl
  selfPipe h := by cases h
  killed1 h := by cases h
  killed2 h := by cases h
  sigpipe h := by cases h
  pending h := by cases h
  flow := rfl
  printed := ⟨fun h => absurd h (by decide), fun h => absurd h (by decide),
    fun h => absurd h (by decide), fun h => absurd h (by decide)⟩

/-- The pipe does not change; where the signal must not be lost, it is in the pipe or still on its
way. -/
theorem flow_of_proc {p : Process Sig Unit} (h : s.Flow)
    (hp : s.main = .sent2 → s.pipe.data = [] →
      s.proc.pending .sigusr2 = true ∨ s.proc.frames ≠ [] →
      p.pending .sigusr2 = true ∨ p.frames ≠ []) :
    State.Flow { s with proc := p } := by
  unfold State.Flow at h ⊢
  cases hm : s.main with
  | sent2 =>
    simp only [hm] at h ⊢
    obtain ⟨hr, hw, hall, hway⟩ := h
    refine ⟨hr, hw, hall, ?_⟩
    by_cases hdata : s.pipe.data = []
    · rw [← or_assoc] at hway ⊢
      exact .inl (hp hm hdata (hway.resolve_right (not_not_intro hdata)))
    · exact .inr (.inr hdata)
  | _ =>
    simp only [hm] at h ⊢
    exact h

theorem send_sound (h : s.Sound ignored) (i : Sig) :
    State.Sound ignored { s with proc := s.proc.send i } where
  nested := by simpa using h.nested
  frames := by simpa using h.frames
  usr1 := by simpa using h.usr1
  usr2 := by simpa using h.usr2
  selfPipe := h.selfPipe
  killed1 := by simpa using h.killed1
  killed2 := by simpa using h.killed2
  sigpipe := h.sigpipe
  pending hm := s.proc.send_pending i (h.pending hm)
  flow := flow_of_proc h.flow fun _ _ hway => by
    rw [Process.send_frames]
    exact hway.imp_left (s.proc.send_pending i)
  printed := h.printed

/-- `SIGUSR1` is delivered only where `main` has not blocked it. -/
theorem State.Sound.not_blocks (h : s.Sound ignored) (hfree : s.proc.blocked .sigusr1 = false) :
    s.main.blocks = false := by
  cases hb : s.main.blocks with
  | false => rfl
  | true =>
    have hblocked := h.nested.base_blocked (i := .sigusr1) (by simp [hb])
    rw [hfree] at hblocked
    cases hblocked

theorem deliver_usr1_sound {p : Process Sig Unit} (h : s.Sound ignored)
    (hd : s.proc.deliver .sigusr1 () = some p) : State.Sound ignored { s with proc := p } := by
  have hnested := h.nested.deliver hd
  have hway : s.main = .sent2 → s.pipe.data = [] →
      s.proc.pending .sigusr2 = true ∨ s.proc.frames ≠ [] →
      Function.update s.proc.pending .sigusr1 false .sigusr2 = true ∨ s.proc.frames ≠ [] :=
    fun _ _ hway => hway.imp_left fun hp => (Function.update_of_ne (by decide) _ _).trans hp
  have husr1 := h.usr1
  cases hu : s.main.usr1 with
  | default =>
    rw [hu] at husr1
    obtain ⟨hfree, rfl⟩ := Process.deliver_default husr1 hd
    have hblocks := h.not_blocks hfree
    refine ⟨hnested, h.frames, h.usr1, h.usr2, h.selfPipe, fun _ => Main.eq_block1 hblocks hu, ?_,
      h.sigpipe, fun hm => absurd hm (Main.not_expects hblocks), flow_of_proc h.flow hway,
      h.printed⟩
    intro hk
    cases hk
  | ignore =>
    rw [hu] at husr1
    obtain ⟨hfree, rfl⟩ := Process.deliver_ignore husr1 hd
    have hblocks := h.not_blocks hfree
    exact ⟨hnested, h.frames, h.usr1, h.usr2, h.selfPipe, h.killed1, h.killed2, h.sigpipe,
      fun hm => absurd hm (Main.not_expects hblocks), flow_of_proc h.flow hway, h.printed⟩
  | handler =>
    unfold Main.usr1 at hu
    split at hu <;> cases hu

theorem deliver_usr2_sound {p : Process Sig Unit} (h : s.Sound ignored)
    (hd : s.proc.deliver .sigusr2 () = some p) : State.Sound ignored { s with proc := p } := by
  have hnested := h.nested.deliver hd
  have husr2 := h.usr2
  cases hu : usr2 s.main s.failed with
  | default =>
    rw [hu] at husr2
    obtain ⟨-, rfl⟩ := Process.deliver_default husr2 hd
    have hm : s.main ≠ .sent2 := by
      intro hm
      rcases usr2_eq_default hu with hle | hfailed
      · rw [hm] at hle
        exact absurd hle (by decide)
      · have hle := h.selfPipe hfailed
        rw [hm] at hle
        exact absurd hle (by decide)
    refine ⟨hnested, h.frames, h.usr1, h.usr2, h.selfPipe, ?_, fun _ => hu, h.sigpipe, h.pending,
      flow_of_proc h.flow fun hs => absurd hs hm, h.printed⟩
    intro hk
    cases hk
  | handler =>
    rw [hu] at husr2
    obtain ⟨-, rfl⟩ := Process.deliver_handler husr2 hd
    refine ⟨hnested, ?_, h.usr1, h.usr2, h.selfPipe, h.killed1, h.killed2, h.sigpipe, h.pending, ?_,
      h.printed⟩
    · intro f hf
      rcases List.mem_cons.mp hf with rfl | hf
      · exact ⟨rfl, hu⟩
      · exact h.frames f hf
    · exact flow_of_proc h.flow fun _ _ _ => .inr (List.cons_ne_nil _ _)
  | ignore =>
    unfold usr2 at hu
    split at hu <;> cases hu

/-- The handler has returned and left the pipe as it was. -/
theorem return_sound {p : Process Sig Unit} (h : s.Sound ignored)
    (hp : s.proc.sigreturn = some p) (hdata : s.main = .sent2 → s.pipe.data ≠ []) :
    State.Sound ignored { s with proc := p } := by
  have hnested := h.nested.sigreturn hp
  obtain ⟨f, frames, hf, rfl⟩ := Process.sigreturn_cases hp
  have hframes := h.frames
  rw [hf] at hframes
  exact ⟨hnested, fun g hg => hframes g (List.mem_cons_of_mem f hg), h.usr1, h.usr2, h.selfPipe,
    h.killed1, h.killed2, h.sigpipe, h.pending,
    flow_of_proc h.flow fun hm hnil => absurd hnil (hdata hm), h.printed⟩

/-- The handler has written its byte and returned. -/
theorem write_sound {p : Process Sig Unit} (h : s.Sound ignored)
    (hp : s.proc.sigreturn = some p) (hw : s.pipe.writeEnd = true) (hr : s.pipe.readEnd = true) :
    State.Sound ignored
      { s with
        proc := p
        pipe := { s.pipe with data := s.pipe.data ++ [byteS] }
        early := s.early || s.main = .writeA } := by
  have hnested := h.nested.sigreturn hp
  obtain ⟨f, frames, hf, rfl⟩ := Process.sigreturn_cases hp
  have hframes := h.frames
  rw [hf] at hframes
  have hhandled := (hframes f List.mem_cons_self).2
  have hbyte : ∀ {data : List UInt8}, (∀ b ∈ data, b = byteS) →
      ∀ b ∈ data ++ [byteS], b = byteS := by
    intro data hdata b hb
    rcases List.mem_append.mp hb with hb | hb
    · exact hdata b hb
    · exact List.mem_singleton.mp hb
  refine ⟨hnested, fun g hg => hframes g (List.mem_cons_of_mem f hg), h.usr1, h.usr2, h.selfPipe,
    h.killed1, h.killed2, h.sigpipe, h.pending, ?_,
    h.printed.writes fun he => (Bool.or_eq_false_iff.mp he).1⟩
  have hflow := h.flow
  unfold State.Flow at hflow ⊢
  cases hm : s.main with
  | nonblock | install2 =>
    rw [hm] at hhandled
    cases hhandled
  | kill2 | closeR =>
    simp only [hm] at hflow ⊢
    exact ⟨hr, hw, hbyte hflow.2.2⟩
  | sent2 =>
    simp only [hm] at hflow ⊢
    exact ⟨hr, hw, hbyte hflow.2.2.1, .inr (.inr (by simp))⟩
  | readS =>
    simp only [hm] at hflow ⊢
    exact ⟨hr, hw, hbyte hflow.2.2.1, by simp⟩
  | writeA =>
    simp only [hm] at hflow ⊢
    exact ⟨hr, hw, hbyte hflow.2.2.1, by simp⟩
  | readA =>
    simp only [hm] at hflow ⊢
    obtain ⟨-, -, pre, post, hdata, hpre, hearly⟩ := hflow
    refine ⟨hr, hw, pre, post ++ [byteS], by simp [hdata], hpre, fun he => hearly ?_⟩
    exact (Bool.or_eq_false_iff.mp he).1
  | closeRA => exact ⟨hr, hw⟩
  | closeW | closeWA =>
    simp only [hm] at hflow
    rw [hr] at hflow
    cases hflow.1
  | _ =>
    simp only [hm] at hflow
    rw [hflow] at hw
    cases hw

theorem handlerStep_sound (h : s.Sound ignored) (hs : handlerStep ignored s = some s') :
    s'.Sound ignored := by
  obtain ⟨-, hs⟩ := Option.ite_none_left_eq_some.mp hs
  obtain ⟨p, hp, hs⟩ := Option.bind_eq_some_iff.mp hs
  have hflow := h.flow
  cases hw : s.pipe.writeEnd with
  | false =>
    rw [if_pos hw] at hs
    obtain rfl := Option.some.inj hs
    refine return_sound h hp fun hm => ?_
    simp only [State.Flow, hm, hw] at hflow
    cases hflow.2.1
  | true =>
    rw [if_neg (by simp [hw])] at hs
    cases hr : s.pipe.readEnd with
    | false =>
      rw [if_pos hr] at hs
      obtain rfl := Option.some.inj hs
      have hm : s.main = .closeW ∨ s.main = .closeWA := by
        unfold State.Flow at hflow
        cases hm : s.main <;> simp_all [Pipe.closed]
      have hreturn := return_sound h hp fun hm' => by
        rcases hm with hm | hm <;> rw [hm] at hm' <;> cases hm'
      exact ⟨hreturn.nested, hreturn.frames, hreturn.usr1, hreturn.usr2, hreturn.selfPipe,
        hreturn.killed1, hreturn.killed2, fun hi => ⟨by simpa using hi, hm⟩, hreturn.pending,
        hreturn.flow, h.printed⟩
    | true =>
      rw [if_neg (by simp [hr])] at hs
      split at hs
      next =>
        obtain rfl := Option.some.inj hs
        exact write_sound h hp hw hr
      next hfull =>
        obtain ⟨-, hs⟩ := Option.ite_none_right_eq_some.mp hs
        obtain rfl := Option.some.inj hs
        refine return_sound h hp fun _ hnil => hfull ?_
        rw [hnil]
        decide

theorem idle_iff : s.isIdle = true ↔
    s.proc.frames = [] ∧ s.proc.killed = none ∧ s.sigpipe = false := by
  simp [State.isIdle, and_assoc]

/-- The invariant while no handler runs. -/
theorem sound_of_idle (hidle : s.isIdle = true)
    (hblocked : s.proc.blocked = fun i => decide (i = .sigusr1) && s.main.blocks)
    (husr1 : (s.proc.action .sigusr1).disposition = s.main.usr1)
    (husr2 : (s.proc.action .sigusr2).disposition = usr2 s.main s.failed)
    (hself : .pipe ∈ s.failed → Main.pipeA.place ≤ s.main.place)
    (hpending : s.main.expects = true → s.proc.pending .sigusr1 = true) (hflow : s.Flow)
    (hprinted : Printed s.main s.failed s.early s.sawPending s.got s.char s.info) :
    s.Sound ignored := by
  obtain ⟨hframes, hkilled, hsigpipe⟩ := idle_iff.mp hidle
  refine ⟨?_, ?_, husr1, husr2, hself, ?_, ?_, ?_, hpending, hflow, hprinted⟩
  · rw [hframes]
    exact hblocked
  · intro f hf
    rw [hframes] at hf
    cases hf
  · intro hk
    rw [hkilled] at hk
    cases hk
  · intro hk
    rw [hkilled] at hk
    cases hk
  · intro hk
    rw [hsigpipe] at hk
    cases hk

theorem State.Sound.blocked_eq (h : s.Sound ignored) (hidle : s.isIdle = true) :
    s.proc.blocked = fun i => decide (i = .sigusr1) && s.main.blocks := by
  have hnested := h.nested
  rw [(idle_iff.mp hidle).1] at hnested
  exact hnested

/-- From `main` on to `main'` with the same dispositions. -/
def Goes (main main' : Main) : Prop :=
  main'.usr1 = main.usr1 ∧ (Main.install2.place < main'.place ↔ Main.install2.place < main.place) ∧
    main.place ≤ main'.place

instance (main main' : Main) : Decidable (Goes main main') := inferInstanceAs (Decidable (_ ∧ _))

theorem Goes.usr2_eq {main main' : Main} (h : Goes main main') (failed : List Main) :
    usr2 main' failed = usr2 main failed := by
  simp only [usr2, h.2.1]

theorem State.Sound.selfPipe_of_le (h : s.Sound ignored) {main : Main}
    (hle : s.main.place ≤ main.place) (hp : .pipe ∈ s.failed) : Main.pipeA.place ≤ main.place :=
  Nat.le_trans (h.selfPipe hp) hle

/-- A call that has nothing to do with signals. -/
theorem State.Sound.next (h : s.Sound ignored) (hidle : s.isIdle = true)
    (hgoes : Goes s.main s'.main) (hproc : s'.proc = s.proc) (hfailed : s'.failed = s.failed)
    (hsigpipe : s'.sigpipe = s.sigpipe) (hblocks : s'.main.blocks = s.main.blocks)
    (hexpects : s'.main.expects = false) (hflow : s'.Flow)
    (hprinted : Printed s'.main s'.failed s'.early s'.sawPending s'.got s'.char s'.info) :
    s'.Sound ignored := by
  refine sound_of_idle ?_ ?_ ?_ ?_ ?_ ?_ hflow hprinted
  · rw [State.isIdle, hproc, hsigpipe]
    exact hidle
  · rw [hproc, hblocks]
    exact h.blocked_eq hidle
  · rw [hproc, hgoes.1]
    exact h.usr1
  · rw [hproc, hfailed, hgoes.usr2_eq]
    exact h.usr2
  · rw [hfailed]
    exact h.selfPipe_of_le hgoes.2.2
  · intro hm
    rw [hexpects] at hm
    cases hm

/-- `sigprocmask` sets what `main` has blocked. -/
theorem State.Sound.setMask (h : s.Sound ignored) (hidle : s.isIdle = true) (main : Main)
    (hgoes : Goes s.main main) (hexpects : main.expects = false)
    (hflow : State.Flow { s with proc := setBlocked s.proc main.blocks, main := main })
    (hprinted : Printed main s.failed s.early s.sawPending s.got s.char s.info) :
    State.Sound ignored { s with proc := setBlocked s.proc main.blocks, main := main } := by
  refine sound_of_idle hidle ?_ ?_ ?_ (h.selfPipe_of_le hgoes.2.2) ?_ hflow hprinted
  · funext i
    cases i with
    | sigusr1 => rfl
    | sigusr2 => exact congrFun (h.blocked_eq hidle) .sigusr2
  · rw [hgoes.1]
    exact h.usr1
  · rw [hgoes.usr2_eq]
    exact h.usr2
  · intro hm
    rw [hexpects] at hm
    cases hm

/-- `kill` sends a signal to the program itself. -/
theorem State.Sound.kill (h : s.Sound ignored) (hidle : s.isIdle = true) (i : Sig) (main : Main)
    (hgoes : Goes s.main main) (hblocks : main.blocks = s.main.blocks)
    (hpending : main.expects = true → (s.proc.send i).pending .sigusr1 = true)
    (hflow : State.Flow { s with proc := s.proc.send i, main := main })
    (hprinted : Printed main s.failed s.early s.sawPending s.got s.char s.info) :
    State.Sound ignored { s with proc := s.proc.send i, main := main } := by
  refine sound_of_idle (by simpa [State.isIdle] using hidle) ?_ ?_ ?_
    (h.selfPipe_of_le hgoes.2.2) hpending hflow hprinted
  · rw [Process.send_blocked, hblocks]
    exact h.blocked_eq hidle
  · rw [Process.send_action, hgoes.1]
    exact h.usr1
  · rw [Process.send_action, hgoes.usr2_eq]
    exact h.usr2

/-- `sigaction` sets the disposition of a signal. -/
theorem State.Sound.setAction (h : s.Sound ignored) (hidle : s.isIdle = true) (i : Sig)
    (a : Action Sig) (main : Main) (hblocks : main.blocks = s.main.blocks)
    (husr1 : ((s.proc.sigaction i a).action .sigusr1).disposition = main.usr1)
    (husr2 : ((s.proc.sigaction i a).action .sigusr2).disposition = UserSignals.usr2 main s.failed)
    (hle : s.main.place ≤ main.place) (hexpects : main.expects = false)
    (hflow : State.Flow { s with proc := s.proc.sigaction i a, main := main })
    (hprinted : Printed main s.failed s.early s.sawPending s.got s.char s.info) :
    State.Sound ignored { s with proc := s.proc.sigaction i a, main := main } := by
  refine sound_of_idle hidle ?_ husr1 husr2 (h.selfPipe_of_le hle) ?_ hflow hprinted
  · exact (h.blocked_eq hidle).trans (by rw [hblocks])
  · intro hm
    rw [hexpects] at hm
    cases hm

/-- Between `install2` and the end of `demo_self_pipe` the handler is in place. -/
theorem State.Sound.handled (h : s.Sound ignored) (hlow : Main.install2.place < s.main.place)
    (hhigh : s.main.place < Main.pipeA.place) :
    (s.proc.action .sigusr2).disposition = .handler := by
  rw [h.usr2]
  exact usr2_eq_handler hlow fun hp => absurd (h.selfPipe hp) (Nat.not_le_of_lt hhigh)

section Reads

variable {failed : List Main} {early info : Bool} {sawPending : Option Bool}
  {got : Option (List UInt8)} {char : Option UInt8}

/-- What `sigpending` sees. -/
theorem printed_sigpending {pending : Bool} (h : pending = true) :
    Printed .ignore1 failed early (some pending) got char info where
  pending _ := by rw [h]
  selfPipe hp := absurd hp (by decide)
  simplePipe hp := absurd hp (by decide)
  signalfd hp := absurd hp (by decide)

/-- What `demo_self_pipe` reads. -/
theorem printed_readS {data : List UInt8}
    (h : Printed .readS failed early sawPending got char info) (hdata : data ≠ [])
    (hall : ∀ b ∈ data, b = byteS) :
    Printed .closeR failed early sawPending (some (data.take 8)) char info where
  pending _ := h.pending (by decide)
  selfPipe _ _ := by
    refine ⟨data.take 8, rfl, ?_, List.length_take_le _ _,
      fun b hb => hall b (List.mem_of_mem_take hb)⟩
    have hpos := List.length_pos_iff.mpr hdata
    rw [List.length_take]
    omega
  simplePipe hp := absurd hp (by decide)
  signalfd hp := absurd hp (by decide)

/-- What `demo_pipe` reads. -/
theorem printed_readA {b : UInt8} (h : Printed .readA failed early sawPending got char info)
    (hb : b = byteA ∨ b = byteS) (hearly : early = false → b = byteA) :
    Printed .closeRA failed early sawPending got (some b) info where
  pending _ := h.pending (by decide)
  selfPipe _ := h.selfPipe (by decide)
  simplePipe _ _ := ⟨b, rfl, hb, hearly⟩
  signalfd hp := absurd hp (by decide)

/-- `demo_signalfd` has read its signal. -/
theorem printed_readfd (h : Printed .readfd failed early sawPending got char info) :
    Printed .closefd failed early sawPending got char true where
  pending _ := h.pending (by decide)
  selfPipe _ := h.selfPipe (by decide)
  simplePipe _ := h.simplePipe (by decide)
  signalfd _ _ := rfl

end Reads

theorem mainStep_sound (h : s.Sound ignored) (hs : mainStep s = some s') : s'.Sound ignored := by
  obtain ⟨hidle, hs⟩ := Option.ite_none_right_eq_some.mp hs
  have hflow := h.flow
  obtain ⟨proc, pipe, main, failed, sawPending, got, char, info, sigpipe, early⟩ := s
  have hprinted : Printed main failed early sawPending got char info := h.printed
  cases main with
  | block1 =>
    obtain rfl := Option.some.inj hs
    exact h.setMask hidle .kill1 (of_decide_eq_true rfl) rfl hflow
      (hprinted.moveTo .kill1 (by decide))
  | kill1 =>
    obtain rfl := Option.some.inj hs
    refine h.kill hidle .sigusr1 .sigpending (of_decide_eq_true rfl) rfl (fun _ => ?_) hflow
      (hprinted.moveTo .sigpending (by decide))
    apply proc.send_pending_self
    rw [h.usr1]
    exact .inl fun hd => by cases hd
  | sigpending =>
    obtain rfl := Option.some.inj hs
    exact h.next hidle (of_decide_eq_true rfl) rfl rfl rfl rfl rfl hflow
      (printed_sigpending (h.pending rfl))
  | ignore1 =>
    obtain rfl := Option.some.inj hs
    exact h.setAction hidle .sigusr1 _ .unblock1 rfl rfl h.usr2 (of_decide_eq_true rfl) rfl hflow
      (hprinted.moveTo .unblock1 (by decide))
  | unblock1 =>
    obtain rfl := Option.some.inj hs
    exact h.setMask hidle .pipe (of_decide_eq_true rfl) rfl hflow
      (hprinted.moveTo .pipe (by decide))
  | pipe =>
    obtain rfl := Option.some.inj hs
    exact h.next hidle (of_decide_eq_true rfl) rfl rfl rfl rfl rfl ⟨rfl, rfl, rfl⟩
      (hprinted.moveTo .nonblock (by decide))
  | nonblock =>
    obtain rfl := Option.some.inj hs
    exact h.next hidle (of_decide_eq_true rfl) rfl rfl rfl rfl rfl hflow
      (hprinted.moveTo .install2 (by decide))
  | install2 =>
    obtain rfl := Option.some.inj hs
    obtain ⟨hr, hw, hnil⟩ := hflow
    have hmade : Main.pipe ∉ failed := fun hp => absurd (h.selfPipe hp) (of_decide_eq_true rfl)
    refine h.setAction hidle .sigusr2 _ .kill2 rfl h.usr1 ?_ (of_decide_eq_true rfl) rfl ?_
      (hprinted.moveTo .kill2 (by decide))
    · exact (usr2_eq_handler (of_decide_eq_true rfl) hmade).symm
    · refine ⟨hr, hw, fun b hb => ?_⟩
      rw [hnil] at hb
      cases hb
  | kill2 =>
    obtain rfl := Option.some.inj hs
    have hhandler := h.handled (of_decide_eq_true rfl) (of_decide_eq_true rfl)
    refine h.kill hidle .sigusr2 .sent2 (of_decide_eq_true rfl) rfl (fun hm => by cases hm) ?_
      (hprinted.moveTo .sent2 (by decide))
    refine ⟨hflow.1, hflow.2.1, hflow.2.2, .inl ?_⟩
    apply proc.send_pending_self
    rw [hhandler]
    exact .inl fun hd => by cases hd
  | sent2 =>
    obtain ⟨hgone, hs⟩ := Option.ite_none_left_eq_some.mp hs
    obtain rfl := Option.some.inj hs
    obtain ⟨hr, hw, hall, hway⟩ := hflow
    refine h.next hidle (of_decide_eq_true rfl) rfl rfl rfl rfl rfl ⟨hr, hw, hall, ?_⟩
      (hprinted.moveTo .readS (by decide))
    rcases hway with hpending | hframes | hdata
    · exact absurd hpending hgone
    · exact absurd (idle_iff.mp hidle).1 hframes
    · exact hdata
  | readS =>
    obtain ⟨hdata, hs⟩ := Option.ite_none_left_eq_some.mp hs
    obtain rfl := Option.some.inj hs
    obtain ⟨hr, hw, hall, -⟩ := hflow
    exact h.next hidle (of_decide_eq_true rfl) rfl rfl rfl rfl rfl
      ⟨hr, hw, fun b hb => hall b (List.mem_of_mem_drop hb)⟩ (printed_readS hprinted hdata hall)
  | closeR =>
    obtain rfl := Option.some.inj hs
    exact h.next hidle (of_decide_eq_true rfl) rfl rfl rfl rfl rfl ⟨rfl, hflow.2.1⟩
      (hprinted.moveTo .closeW (by decide))
  | closeW =>
    obtain rfl := Option.some.inj hs
    exact h.next hidle (of_decide_eq_true rfl) rfl rfl rfl rfl rfl rfl
      (hprinted.moveTo .pipeA (by decide))
  | pipeA =>
    obtain rfl := Option.some.inj hs
    exact h.next hidle (of_decide_eq_true rfl) rfl rfl rfl rfl rfl
      ⟨rfl, rfl, fun b hb => (by cases hb), fun _ => rfl⟩ (hprinted.moveTo .writeA (by decide))
  | writeA =>
    obtain ⟨-, hs⟩ := Option.ite_none_right_eq_some.mp hs
    obtain rfl := Option.some.inj hs
    obtain ⟨hr, hw, hall, hearly⟩ := hflow
    exact h.next hidle (of_decide_eq_true rfl) rfl rfl rfl rfl rfl
      ⟨hr, hw, pipe.data, [], rfl, hall, hearly⟩ (hprinted.moveTo .readA (by decide))
  | readA =>
    obtain ⟨hr, hw, pre, post, hdata, hpre, hearly⟩ := hflow
    dsimp only at hdata
    cases pre with
    | nil =>
      simp only [hdata, List.nil_append] at hs
      obtain rfl := Option.some.inj hs
      exact h.next hidle (of_decide_eq_true rfl) rfl rfl rfl rfl rfl ⟨hr, hw⟩
        (printed_readA hprinted (.inl rfl) fun _ => rfl)
    | cons c pre =>
      simp only [hdata, List.cons_append] at hs
      obtain rfl := Option.some.inj hs
      exact h.next hidle (of_decide_eq_true rfl) rfl rfl rfl rfl rfl ⟨hr, hw⟩
        (printed_readA hprinted (.inr (hpre c List.mem_cons_self)) fun he => by cases hearly he)
  | closeRA =>
    obtain rfl := Option.some.inj hs
    exact h.next hidle (of_decide_eq_true rfl) rfl rfl rfl rfl rfl ⟨rfl, hflow.2⟩
      (hprinted.moveTo .closeWA (by decide))
  | closeWA =>
    obtain rfl := Option.some.inj hs
    exact h.next hidle (of_decide_eq_true rfl) rfl rfl rfl rfl rfl rfl
      (hprinted.moveTo .block1fd (by decide))
  | block1fd =>
    obtain rfl := Option.some.inj hs
    exact h.setMask hidle .signalfd (of_decide_eq_true rfl) rfl hflow
      (hprinted.moveTo .signalfd (by decide))
  | signalfd =>
    obtain rfl := Option.some.inj hs
    exact h.next hidle (of_decide_eq_true rfl) rfl rfl rfl rfl rfl hflow
      (hprinted.moveTo .kill1fd (by decide))
  | kill1fd =>
    obtain rfl := Option.some.inj hs
    refine h.kill hidle .sigusr1 .readfd (of_decide_eq_true rfl) rfl (fun _ => ?_) hflow
      (hprinted.moveTo .readfd (by decide))
    apply proc.send_pending_self
    rw [h.blocked_eq hidle]
    exact .inr rfl
  | readfd =>
    obtain ⟨-, hs⟩ := Option.ite_none_right_eq_some.mp hs
    obtain rfl := Option.some.inj hs
    have hsame : usr2 .closefd failed = usr2 .readfd failed :=
      Goes.usr2_eq (of_decide_eq_true rfl) failed
    exact sound_of_idle hidle (h.blocked_eq hidle) h.usr1 (h.usr2.trans hsame.symm)
      (h.selfPipe_of_le (of_decide_eq_true rfl)) (fun hm => by cases hm) hflow
      (printed_readfd hprinted)
  | closefd =>
    obtain rfl := Option.some.inj hs
    exact h.next hidle (of_decide_eq_true rfl) rfl rfl rfl rfl rfl hflow
      (hprinted.moveTo .ended (by decide))
  | ended => cases hs

/-- Another demo that is left out does not change what `demo_self_pipe` has done. -/
theorem usr2_cons {call main main' : Main} (hcall : call ≠ .pipe)
    (hgoes : Main.install2.place < main'.place ↔ Main.install2.place < main.place)
    (failed : List Main) : usr2 main' (call :: failed) = usr2 main failed := by
  simp only [usr2, hgoes, List.mem_cons, hcall.symm, false_or]

/-- A demo that could not make its descriptor is left out. -/
theorem State.Sound.leaveOut (h : s.Sound ignored) (hidle : s.isIdle = true) (call main : Main)
    (hblocks : main.blocks = s.main.blocks) (husr1 : main.usr1 = s.main.usr1)
    (husr2 : UserSignals.usr2 main (call :: s.failed) = UserSignals.usr2 s.main s.failed)
    (hself : Main.pipeA.place ≤ main.place) (hexpects : main.expects = false)
    (hflow : State.Flow { s with failed := call :: s.failed, main := main })
    (hprinted : Printed main (call :: s.failed) s.early s.sawPending s.got s.char s.info) :
    State.Sound ignored { s with failed := call :: s.failed, main := main } := by
  refine sound_of_idle hidle ?_ ?_ ?_ (fun _ => hself) ?_ hflow hprinted
  · rw [hblocks]
    exact h.blocked_eq hidle
  · rw [husr1]
    exact h.usr1
  · rw [husr2]
    exact h.usr2
  · intro hm
    rw [hexpects] at hm
    cases hm

theorem failStep_sound (h : s.Sound ignored) (hs : failStep s = some s') : s'.Sound ignored := by
  obtain ⟨hidle, hs⟩ := Option.ite_none_right_eq_some.mp hs
  have hflow := h.flow
  obtain ⟨proc, pipe, main, failed, sawPending, got, char, info, sigpipe, early⟩ := s
  have hprinted : Printed main failed early sawPending got char info := h.printed
  cases main with
  | pipe =>
    obtain rfl := Option.some.inj hs
    refine h.leaveOut hidle .pipe .pipeA rfl rfl ?_ (by decide) rfl hflow ?_
    · have hbefore : usr2 .pipe failed = .default := if_neg fun hp => absurd hp.1 (by decide)
      have hafter : usr2 .pipeA (.pipe :: failed) = .default :=
        if_neg fun hp => hp.2 List.mem_cons_self
      exact hafter.trans hbefore.symm
    · exact ⟨fun _ => hprinted.pending (by decide), fun _ hp => absurd List.mem_cons_self hp,
        fun hp => absurd hp (by decide), fun hp => absurd hp (by decide)⟩
  | pipeA =>
    obtain rfl := Option.some.inj hs
    refine h.leaveOut hidle .pipeA .block1fd rfl rfl ?_ (by decide) rfl hflow ?_
    · exact usr2_cons (by decide) (of_decide_eq_true rfl) failed
    · refine ⟨fun _ => hprinted.pending (by decide), fun _ hp => ?_,
        fun _ hp => absurd List.mem_cons_self hp, fun hp => absurd hp (by decide)⟩
      exact hprinted.selfPipe (by decide) fun hmem => hp (List.mem_cons_of_mem _ hmem)
  | signalfd =>
    obtain rfl := Option.some.inj hs
    refine h.leaveOut hidle .signalfd .ended rfl rfl ?_ (by decide) rfl hflow ?_
    · exact usr2_cons (by decide) (of_decide_eq_true rfl) failed
    · refine ⟨fun _ => hprinted.pending (by decide), fun _ hp => ?_, fun _ hp => ?_,
        fun _ hp => absurd List.mem_cons_self hp⟩
      · exact hprinted.selfPipe (by decide) fun hmem => hp (List.mem_cons_of_mem _ hmem)
      · exact hprinted.simplePipe (by decide) fun hmem => hp (List.mem_cons_of_mem _ hmem)
  | _ => cases hs

theorem step_sound {a : Act} (h : s.Sound ignored) (hs : step ignored a s = some s') :
    s'.Sound ignored := by
  cases a with
  | main => exact mainStep_sound h hs
  | fails => exact failStep_sound h hs
  | handler => exact handlerStep_sound h hs
  | send i =>
    obtain rfl := Option.some.inj hs
    exact send_sound h i
  | deliver i =>
    obtain ⟨-, hs⟩ := Option.ite_none_left_eq_some.mp hs
    obtain ⟨p, hd, rfl⟩ := Option.map_eq_some_iff.mp hs
    cases i with
    | sigusr1 => exact deliver_usr1_sound h hd
    | sigusr2 => exact deliver_usr2_sound h hd

end Steps

/-- While no handler runs, only `demo_pipe` can wait, for room in a pipe full of the handler's
bytes. -/
theorem State.Sound.moves {ignored : Bool} {s : State} (h : s.Sound ignored)
    (hidle : s.isIdle = true) (hend : s.main ≠ .ended)
    (hroom : s.main = .writeA → s.pipe.data.length < pipeCapacity) :
    ∃ s', step ignored .main s = some s' ∨ step ignored (.deliver .sigusr2) s = some s' := by
  have hflow := h.flow
  unfold State.Flow at hflow
  cases hm : s.main with
  | sent2 =>
    cases hp : s.proc.pending .sigusr2 with
    | false =>
      exact ⟨{ s with main := .readS }, .inl (by simp [step, mainStep, hidle, hm, hp])⟩
    | true =>
      -- the signal that `kill` has sent is delivered
      obtain ⟨-, hkilled, hsigpipe⟩ := idle_iff.mp hidle
      have hfree : s.proc.blocked .sigusr2 = false := by
        rw [h.blocked_eq hidle]
        rfl
      have hsome : (step ignored (.deliver .sigusr2) s).isSome = true := by
        simpa [step, hsigpipe] using Process.deliver_isSome () hp hfree hkilled
      obtain ⟨s', hs'⟩ := Option.isSome_iff_exists.mp hsome
      exact ⟨s', .inr hs'⟩
  | readS =>
    simp only [hm] at hflow
    have hsome : (step ignored .main s).isSome = true := by
      simp [step, mainStep, hidle, hm, hflow.2.2.2]
    obtain ⟨s', hs'⟩ := Option.isSome_iff_exists.mp hsome
    exact ⟨s', .inl hs'⟩
  | readA =>
    simp only [hm] at hflow
    obtain ⟨-, -, pre, post, hdata, -⟩ := hflow
    have hsome : (step ignored .main s).isSome = true := by
      cases pre <;> simp [step, mainStep, hidle, hm, hdata]
    obtain ⟨s', hs'⟩ := Option.isSome_iff_exists.mp hsome
    exact ⟨s', .inl hs'⟩
  | readfd =>
    have hpending := h.pending (by rw [hm]; rfl)
    have hsome : (step ignored .main s).isSome = true := by
      simp [step, mainStep, hidle, hm, hpending]
    obtain ⟨s', hs'⟩ := Option.isSome_iff_exists.mp hsome
    exact ⟨s', .inl hs'⟩
  | writeA =>
    have hsome : (step ignored .main s).isSome = true := by
      simp [step, mainStep, hidle, hm, hroom hm]
    obtain ⟨s', hs'⟩ := Option.isSome_iff_exists.mp hsome
    exact ⟨s', .inl hs'⟩
  | ended => exact absurd hm hend
  | _ =>
    have hsome : (step ignored .main s).isSome = true := by simp [step, mainStep, hidle, hm]
    obtain ⟨s', hs'⟩ := Option.isSome_iff_exists.mp hsome
    exact ⟨s', .inl hs'⟩

end LearnLinux.UserSignals
