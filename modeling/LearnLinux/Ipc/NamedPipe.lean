import LearnLinux.Lib.CString
import LearnLinux.Lib.Transition

/-!
# The named pipe of `03_ipc/pipe_demo.c`

`demo_named_pipe` makes a FIFO and forks. The child opens it for reading, the parent for writing,
and each `open` waits until the other process has opened the FIFO as well. The parent writes one
message and closes; the child reads once. A `write` of at most `PIPE_BUF` bytes is not split. The
program checks `mkfifo` and `fork`, and neither of the two `open`s nor the `read`.

`fifo_delivers`: the child prints the message, cut to its buffer, before it ends. When one of the
two `open`s fails, the other process waits forever and the demo never returns.
-/

namespace LearnLinux.NamedPipe

open CString Segment Transition

/-! ## The two processes -/

/-- `sizeof(buf)` in the child. -/
def bufSize : Nat := 128

def PIPE_BUF : Nat := 4096

/-- The next call of the parent; `opening` has opened the FIFO and waits for a reader. A process
killed by SIGPIPE has not written `rest`. -/
inductive Writer where
  | mkfifo
  | fork
  | openFifo
  | opening
  | write (rest : List UInt8)
  | close
  | waitpid
  | unlink
  | done
  | killed (rest : List UInt8)
  | failed
  deriving DecidableEq, Repr

/-- The next call of the child; `print n` follows a `read` that returned `n`, or -1. -/
inductive Reader where
  | unborn
  | openFifo
  | opening
  | read
  | print (n : Option Nat)
  | close
  | exit
  | exited
  deriving DecidableEq, Repr

/-- `fifo` says whether the file is there, the two flags which `open` has returned -1, and
`overrun` whether `buf[-1]` was written. -/
structure State where
  fifo : Bool
  data : List UInt8
  reader : Reader
  writer : Writer
  readFailed : Bool
  writeFailed : Bool
  buf : List UInt8
  printed : Option (List UInt8)
  overrun : Bool
  deriving DecidableEq, Repr

/-- The child has opened the FIFO, maybe closed it since. -/
def Reader.opened : Reader → Bool
  | .unborn | .openFifo => false
  | _ => true

def Reader.closed : Reader → Bool
  | .exit | .exited => true
  | _ => false

def Writer.opened : Writer → Bool
  | .mkfifo | .fork | .openFifo | .failed => false
  | _ => true

def Writer.closed : Writer → Bool
  | .waitpid | .unlink | .done | .killed _ => true
  | _ => false

def State.readSeen (s : State) : Bool := s.reader.opened && !s.readFailed
def State.writeSeen (s : State) : Bool := s.writer.opened && !s.writeFailed
def State.readEnd (s : State) : Bool := s.readSeen && !s.reader.closed
def State.writeEnd (s : State) : Bool := s.writeSeen && !s.writer.closed

def readerStep (s : State) : Option State :=
  match s.reader with
  | .unborn => none
  | .openFifo => some { s with reader := if s.writeEnd then .read else .opening }
  | .opening => if s.writeSeen then some { s with reader := .read } else none
  | .read =>
    if s.readFailed then some { s with reader := .print none }
    else if s.data ≠ [] then
      let n := min (bufSize - 1) s.data.length
      some { s with
        data := s.data.drop n
        buf := blit s.buf 0 (s.data.take n)
        reader := .print (some n) }
    else if s.writeEnd then none
    else some { s with reader := .print (some 0) }
  | .print none => some { s with overrun := true, reader := .close }
  | .print (some n) =>
    some { s with
      buf := blit s.buf n [0]
      printed := some (cString (blit s.buf n [0]))
      reader := .close }
  | .close => some { s with reader := .exit }
  | .exit => some { s with reader := .exited }
  | .exited => none

/-- A `write` that can be split puts `n` bytes in. -/
def writerStep (cap : Nat) (message : List UInt8) (n : Nat) (s : State) : Option State :=
  match s.writer with
  | .mkfifo => some { s with fifo := true, writer := .fork }
  | .fork => some { s with reader := .openFifo, writer := .openFifo }
  | .openFifo =>
    some { s with writer := if s.readEnd then .write (cString message) else .opening }
  | .opening => if s.readSeen then some { s with writer := .write (cString message) } else none
  | .write rest =>
    if s.writeFailed ∨ rest = [] then some { s with writer := .close }
    else if s.readEnd = false then some { s with writer := .killed rest }
    else
      let n := if (cString message).length ≤ PIPE_BUF then rest.length else n
      if 1 ≤ n ∧ n ≤ rest.length ∧ s.data.length + n ≤ cap then
        some { s with data := s.data ++ rest.take n, writer := .write (rest.drop n) }
      else none
  | .close => some { s with writer := .waitpid }
  | .waitpid => if s.reader = .exited then some { s with writer := .unlink } else none
  | .unlink => some { s with fifo := false, writer := .done }
  | .done | .killed _ | .failed => none

inductive Act where
  | reader
  | writer (n : Nat)
  | readerFails
  | writerFails
  deriving DecidableEq, Repr

/-- A failing call: `mkfifo` and `fork` end the demo, a failing `open` is not noticed. -/
def step (cap : Nat) (message : List UInt8) : Act → State → Option State
  | .reader, s => readerStep s
  | .writer n, s => writerStep cap message n s
  | .readerFails, s =>
    if s.reader = .openFifo then some { s with readFailed := true, reader := .read } else none
  | .writerFails, s =>
    match s.writer with
    | .mkfifo | .fork => some { s with writer := .failed }
    | .openFifo => some { s with writeFailed := true, writer := .write (cString message) }
    | _ => none

def State.initial (buf : Vector UInt8 bufSize) : State :=
  ⟨false, [], .unborn, .mkfifo, false, false, buf.toList, none, false⟩

/-! ## What a step can do -/

inductive ReaderMove (s : State) : State → Prop
  | met : s.reader = .openFifo → s.writeEnd = true → ReaderMove s { s with reader := .read }
  | alone : s.reader = .openFifo → ReaderMove s { s with reader := .opening }
  | joined : s.reader = .opening → s.writeSeen = true → ReaderMove s { s with reader := .read }
  | error : s.reader = .read → s.readFailed = true → ReaderMove s { s with reader := .print none }
  | data : s.reader = .read → s.readFailed = false → s.data ≠ [] → ReaderMove s { s with
      data := s.data.drop (min (bufSize - 1) s.data.length)
      buf := blit s.buf 0 (s.data.take (min (bufSize - 1) s.data.length))
      reader := .print (some (min (bufSize - 1) s.data.length)) }
  | eof : s.reader = .read → s.readFailed = false → s.data = [] → s.writeEnd = false →
      ReaderMove s { s with reader := .print (some 0) }
  | overrun : s.reader = .print none → ReaderMove s { s with overrun := true, reader := .close }
  | printed (n : Nat) : s.reader = .print (some n) → ReaderMove s { s with
      buf := blit s.buf n [0]
      printed := some (cString (blit s.buf n [0]))
      reader := .close }
  | close : s.reader = .close → ReaderMove s { s with reader := .exit }
  | exit : s.reader = .exit → ReaderMove s { s with reader := .exited }

inductive WriterMove (cap : Nat) (message : List UInt8) (s : State) : State → Prop
  | mkfifo : s.writer = .mkfifo → WriterMove cap message s { s with fifo := true, writer := .fork }
  | fork : s.writer = .fork →
      WriterMove cap message s { s with reader := .openFifo, writer := .openFifo }
  | met : s.writer = .openFifo → s.readEnd = true →
      WriterMove cap message s { s with writer := .write (cString message) }
  | alone : s.writer = .openFifo → WriterMove cap message s { s with writer := .opening }
  | joined : s.writer = .opening → s.readSeen = true →
      WriterMove cap message s { s with writer := .write (cString message) }
  | written (rest : List UInt8) : s.writer = .write rest → s.writeFailed = true ∨ rest = [] →
      WriterMove cap message s { s with writer := .close }
  | sigpipe (rest : List UInt8) : s.writer = .write rest → s.writeFailed = false → rest ≠ [] →
      s.readEnd = false → WriterMove cap message s { s with writer := .killed rest }
  | put (rest : List UInt8) (n : Nat) : s.writer = .write rest → s.writeFailed = false →
      1 ≤ n → n ≤ rest.length → ((cString message).length ≤ PIPE_BUF → n = rest.length) →
      s.data.length + n ≤ cap →
      WriterMove cap message s { s with
        data := s.data ++ rest.take n, writer := .write (rest.drop n) }
  | close : s.writer = .close → WriterMove cap message s { s with writer := .waitpid }
  | waitpid : s.writer = .waitpid → s.reader = .exited →
      WriterMove cap message s { s with writer := .unlink }
  | unlink : s.writer = .unlink →
      WriterMove cap message s { s with fifo := false, writer := .done }

theorem readerStep_move {s t : State} (h : readerStep s = some t) : ReaderMove s t := by
  unfold readerStep at h
  split at h
  next => cases h
  next hr =>
    obtain rfl := Option.some.inj h
    by_cases hw : s.writeEnd = true
    · rw [if_pos hw]
      exact .met hr hw
    · rw [if_neg hw]
      exact .alone hr
  next hr =>
    obtain ⟨hw, h⟩ := Option.ite_none_right_eq_some.mp h
    exact Option.some.inj h ▸ .joined hr hw
  next hr =>
    split at h
    next hf => exact Option.some.inj h ▸ .error hr hf
    next hf =>
      have hf := Bool.not_eq_true _ ▸ hf
      split at h
      next hd => exact Option.some.inj h ▸ .data hr hf hd
      next hd =>
        obtain ⟨hw, h⟩ := Option.ite_none_left_eq_some.mp h
        exact Option.some.inj h ▸
          .eof hr hf (Decidable.not_not.mp hd) (Bool.not_eq_true _ ▸ hw)
  next hr => exact Option.some.inj h ▸ .overrun hr
  next n hr => exact Option.some.inj h ▸ .printed n hr
  next hr => exact Option.some.inj h ▸ .close hr
  next hr => exact Option.some.inj h ▸ .exit hr
  next => cases h

theorem writerStep_move {cap n : Nat} {message : List UInt8} {s t : State}
    (h : writerStep cap message n s = some t) : WriterMove cap message s t := by
  unfold writerStep at h
  split at h
  next hw => exact Option.some.inj h ▸ .mkfifo hw
  next hw => exact Option.some.inj h ▸ .fork hw
  next hw =>
    obtain rfl := Option.some.inj h
    by_cases hr : s.readEnd = true
    · rw [if_pos hr]
      exact .met hw hr
    · rw [if_neg hr]
      exact .alone hw
  next hw =>
    obtain ⟨hr, h⟩ := Option.ite_none_right_eq_some.mp h
    exact Option.some.inj h ▸ .joined hw hr
  next rest hw =>
    split at h
    next hdone => exact Option.some.inj h ▸ .written rest hw hdone
    next hdone =>
      obtain ⟨hf, hrest⟩ := not_or.mp hdone
      have hf := Bool.not_eq_true _ ▸ hf
      split at h
      next hr => exact Option.some.inj h ▸ .sigpipe rest hw hf hrest hr
      next hr =>
        obtain ⟨⟨hpos, hle, hfit⟩, h⟩ := Option.ite_none_right_eq_some.mp h
        refine Option.some.inj h ▸ .put rest _ hw hf hpos hle (fun hsmall => ?_) hfit
        rw [if_pos hsmall]
  next hw => exact Option.some.inj h ▸ .close hw
  next hw =>
    obtain ⟨hr, h⟩ := Option.ite_none_right_eq_some.mp h
    exact Option.some.inj h ▸ .waitpid hw hr
  next hw => exact Option.some.inj h ▸ .unlink hw
  next => cases h
  next => cases h
  next => cases h

/-! ## Who has opened the FIFO -/

/-- The `open` of the child has returned. -/
def Reader.passed : Reader → Bool
  | .unborn | .openFifo | .opening => false
  | _ => true

def Writer.passed : Writer → Bool
  | .mkfifo | .fork | .openFifo | .opening | .failed => false
  | _ => true

/-- An `open` returns when the other process has opened the FIFO, or with -1. -/
structure State.Opens (s : State) : Prop where
  born : s.reader = .unborn → s.writer.opened = false ∧ s.writer ≠ .openFifo
  writer : s.writer.passed = true → s.writeFailed = true ∨ s.readSeen = true
  reader : s.reader.passed = true → s.readFailed = true ∨ s.writeSeen = true
  readFailed : s.readFailed = true → s.reader.passed = true
  writeFailed : s.writeFailed = true → s.writer.passed = true
  reaped : s.writer = .unlink ∨ s.writer = .done → s.reader = .exited
  unborn : s.writer = .mkfifo ∨ s.writer = .fork ∨ s.writer = .failed → s.reader = .unborn
  file : s.fifo = false → s.writer = .mkfifo ∨ s.writer = .done ∨ s.writer = .failed
  gone : s.writer = .done → s.fifo = false

section Opens

variable {cap : Nat} {message : List UInt8} {s t : State}

/-- The child goes on. -/
theorem opens_of_reader (h : s.Opens) (hwriter : t.writer = s.writer) (hfifo : t.fifo = s.fifo)
    (hwf : t.writeFailed = s.writeFailed) (hrf : t.readFailed = s.readFailed)
    (hold : s.reader ≠ .unborn ∧ s.reader ≠ .exited) (hnew : t.reader.opened = true)
    (hstay : s.reader.passed = true → t.reader.passed = true)
    (hpass : t.reader.passed = true → s.reader.passed = true ∨ s.writeSeen = true) : t.Opens := by
  have hws : t.writeSeen = s.writeSeen := by rw [State.writeSeen, hwriter, hwf]; rfl
  have hunborn : t.reader ≠ .unborn := by
    intro hu
    rw [hu] at hnew
    cases hnew
  refine ⟨fun hu => absurd hu hunborn, fun hp => ?_, fun hp => ?_, fun hf => ?_, fun hf => ?_,
    fun hw => ?_, fun hw => ?_, fun hf => ?_, fun hw => ?_⟩
  · rw [hwriter] at hp
    rw [hwf]
    refine (h.writer hp).imp_right fun hseen => ?_
    rw [State.readSeen, hnew, hrf]
    exact (Bool.and_eq_true_iff.mp hseen).2
  · rw [hrf, hws]
    rcases hpass hp with hp | hseen
    · exact h.reader hp
    · exact Or.inr hseen
  · exact hstay (h.readFailed (hrf ▸ hf))
  · rw [hwriter]
    exact h.writeFailed (hwf ▸ hf)
  · exact absurd (h.reaped (hwriter ▸ hw)) hold.2
  · exact absurd (h.unborn (hwriter ▸ hw)) hold.1
  · rw [hwriter]
    exact h.file (hfifo ▸ hf)
  · rw [hfifo]
    exact h.gone (hwriter ▸ hw)

theorem readerMove_opens (h : s.Opens) (hm : ReaderMove s t) : t.Opens := by
  cases hm with
  | met hr hw =>
    refine opens_of_reader h rfl rfl rfl rfl (by simp [hr]) rfl (fun _ => rfl) fun _ => Or.inr ?_
    exact (Bool.and_eq_true_iff.mp hw).1
  | alone hr =>
    refine opens_of_reader h rfl rfl rfl rfl (by simp [hr]) rfl ?_ nofun
    rw [hr]
    nofun
  | joined hr hw =>
    exact opens_of_reader h rfl rfl rfl rfl (by simp [hr]) rfl (fun _ => rfl) fun _ => Or.inr hw
  | error hr hf | overrun hr | close hr | exit hr =>
    exact opens_of_reader h rfl rfl rfl rfl (by simp [hr]) rfl (fun _ => rfl)
      fun _ => Or.inl (by rw [hr]; rfl)
  | data hr hf hd | eof hr hf hd hw =>
    exact opens_of_reader h rfl rfl rfl rfl (by simp [hr]) rfl (fun _ => rfl)
      fun _ => Or.inl (by rw [hr]; rfl)
  | printed n hr =>
    exact opens_of_reader h rfl rfl rfl rfl (by simp [hr]) rfl (fun _ => rfl)
      fun _ => Or.inl (by rw [hr]; rfl)

/-- The parent goes on behind its `fork`. -/
theorem opens_of_writer (h : s.Opens) (hreader : t.reader = s.reader)
    (hwf : t.writeFailed = s.writeFailed) (hrf : t.readFailed = s.readFailed)
    (hunborn : s.reader ≠ .unborn) (hnew : t.writer.opened = true)
    (hstay : s.writer.passed = true → t.writer.passed = true)
    (hpass : t.writer.passed = true → s.writer.passed = true ∨ s.readSeen = true)
    (hreaped : t.writer = .unlink ∨ t.writer = .done → s.reader = .exited)
    (hfile : t.fifo = false ↔ t.writer = .done) : t.Opens := by
  have hrs : t.readSeen = s.readSeen := by rw [State.readSeen, hreader, hrf]; rfl
  refine ⟨fun hu => absurd (hreader ▸ hu) hunborn, fun hp => ?_, fun hp => ?_, fun hf => ?_,
    fun hf => ?_, fun hw => ?_, fun hw => ?_, fun hf => ?_, hfile.mpr⟩
  · rw [hwf, hrs]
    rcases hpass hp with hp | hseen
    · exact h.writer hp
    · exact Or.inr hseen
  · rw [hreader] at hp
    rw [hrf]
    refine (h.reader hp).imp_right fun hseen => ?_
    rw [State.writeSeen, hnew, hwf]
    exact (Bool.and_eq_true_iff.mp hseen).2
  · rw [hreader]
    exact h.readFailed (hrf ▸ hf)
  · exact hstay (h.writeFailed (hwf ▸ hf))
  · rw [hreader]
    exact hreaped hw
  · rcases hw with hw | hw | hw <;>
    · rw [hw] at hnew
      cases hnew
  · exact Or.inr (Or.inl (hfile.mp hf))

/-- Behind `fork` the child is there, and the FIFO until `unlink`. -/
theorem State.Opens.forked (h : s.Opens) (hw : s.writer = .openFifo ∨ s.writer.opened = true) :
    s.reader ≠ .unborn := by
  intro hu
  obtain ⟨hopened, hne⟩ := h.born hu
  rcases hw with hw | hw
  · exact hne hw
  · rw [hopened] at hw
    cases hw

theorem State.Opens.exists (h : s.Opens) (hw : s.writer = .openFifo ∨ s.writer.opened = true)
    (hdone : s.writer ≠ .done) : s.fifo = true := by
  cases hf : s.fifo with
  | true => rfl
  | false =>
    rcases h.file hf with hm | hd | hf
    · rw [hm] at hw
      simp [Writer.opened] at hw
    · exact absurd hd hdone
    · rw [hf] at hw
      simp [Writer.opened] at hw

theorem writerMove_opens (h : s.Opens) (hm : WriterMove cap message s t) : t.Opens := by
  cases hm with
  | mkfifo hw =>
    have hu := h.unborn (Or.inl hw)
    have hwf := h.writeFailed
    rw [hw] at hwf
    exact ⟨fun _ => by simp [Writer.opened], nofun, fun hp => absurd hp (by rw [hu]; nofun),
      h.readFailed, fun hf => absurd (hwf hf) nofun, nofun, fun _ => hu, nofun, nofun⟩
  | fork hw =>
    have hu := h.unborn (Or.inr (Or.inl hw))
    have hrf := h.readFailed
    have hwf := h.writeFailed
    rw [hu] at hrf
    rw [hw] at hwf
    have hfile : s.fifo ≠ false := fun hf => by simpa [hw] using h.file hf
    exact ⟨nofun, nofun, nofun, fun hf => absurd (hrf hf) nofun, fun hf => absurd (hwf hf) nofun,
      nofun, nofun, fun hf => absurd hf hfile, nofun⟩
  | met hw hr =>
    have hborn := h.forked (Or.inl hw)
    have hfifo := h.exists (Or.inl hw) (by simp [hw])
    refine opens_of_writer h rfl rfl rfl hborn rfl (fun _ => rfl) (fun _ => Or.inr ?_) nofun
      (by simp [hfifo])
    exact (Bool.and_eq_true_iff.mp hr).1
  | alone hw =>
    have hborn := h.forked (Or.inl hw)
    have hfifo := h.exists (Or.inl hw) (by simp [hw])
    refine opens_of_writer h rfl rfl rfl hborn rfl ?_ nofun nofun (by simp [hfifo])
    rw [hw]
    nofun
  | joined hw hr =>
    have hborn := h.forked (Or.inr (by rw [hw]; rfl))
    have hfifo := h.exists (Or.inr (by rw [hw]; rfl)) (by simp [hw])
    exact opens_of_writer h rfl rfl rfl hborn rfl (fun _ => rfl) (fun _ => Or.inr hr) nofun
      (by simp [hfifo])
  | written rest hw _ | sigpipe rest hw _ _ _ =>
    have hborn := h.forked (Or.inr (by rw [hw]; rfl))
    have hfifo := h.exists (Or.inr (by rw [hw]; rfl)) (by simp [hw])
    exact opens_of_writer h rfl rfl rfl hborn rfl (fun _ => rfl)
      (fun _ => Or.inl (by rw [hw]; rfl)) nofun (by simp [hfifo])
  | put rest n hw _ _ _ _ _ =>
    have hborn := h.forked (Or.inr (by rw [hw]; rfl))
    have hfifo := h.exists (Or.inr (by rw [hw]; rfl)) (by simp [hw])
    exact opens_of_writer h rfl rfl rfl hborn rfl (fun _ => rfl)
      (fun _ => Or.inl (by rw [hw]; rfl)) nofun (by simp [hfifo])
  | close hw =>
    have hborn := h.forked (Or.inr (by rw [hw]; rfl))
    have hfifo := h.exists (Or.inr (by rw [hw]; rfl)) (by simp [hw])
    exact opens_of_writer h rfl rfl rfl hborn rfl (fun _ => rfl)
      (fun _ => Or.inl (by rw [hw]; rfl)) nofun (by simp [hfifo])
  | waitpid hw hr =>
    have hborn := h.forked (Or.inr (by rw [hw]; rfl))
    have hfifo := h.exists (Or.inr (by rw [hw]; rfl)) (by simp [hw])
    exact opens_of_writer h rfl rfl rfl hborn rfl (fun _ => rfl)
      (fun _ => Or.inl (by rw [hw]; rfl)) (fun _ => hr) (by simp [hfifo])
  | unlink hw =>
    have hborn := h.forked (Or.inr (by rw [hw]; rfl))
    exact opens_of_writer h rfl rfl rfl hborn rfl (fun _ => rfl)
      (fun _ => Or.inl (by rw [hw]; rfl)) (fun _ => h.reaped (Or.inl hw)) (by simp)

theorem step_opens {a : Act} (h : s.Opens) (hs : step cap message a s = some t) : t.Opens := by
  cases a with
  | reader => exact readerMove_opens h (readerStep_move hs)
  | writer n => exact writerMove_opens h (writerStep_move hs)
  | readerFails =>
    obtain ⟨hr, hs⟩ := Option.ite_none_right_eq_some.mp hs
    obtain rfl := Option.some.inj hs
    -- the parent cannot have seen the child, whose `open` has not returned
    have hw : s.writer.passed = true → s.writeFailed = true := by
      intro hp
      refine (h.writer hp).resolve_right ?_
      simp [State.readSeen, hr, Reader.opened]
    refine ⟨nofun, fun hp => Or.inl (hw hp), fun _ => Or.inl rfl, fun _ => rfl, h.writeFailed,
      fun hd => ?_, fun hu => ?_, h.file, h.gone⟩
    · rw [h.reaped hd] at hr
      cases hr
    · rw [h.unborn hu] at hr
      cases hr
  | writerFails =>
    simp only [step] at hs
    split at hs
    next hw =>
      obtain rfl := Option.some.inj hs
      have hu := h.unborn (Or.inl hw)
      have hwf := h.writeFailed
      rw [hw] at hwf
      exact ⟨fun _ => by simp [Writer.opened], nofun, fun hp => absurd hp (by rw [hu]; nofun),
        h.readFailed, fun hf => absurd (hwf hf) nofun, nofun, fun _ => hu,
        fun _ => Or.inr (Or.inr rfl), nofun⟩
    next hw =>
      obtain rfl := Option.some.inj hs
      have hu := h.unborn (Or.inr (Or.inl hw))
      have hwf := h.writeFailed
      rw [hw] at hwf
      exact ⟨fun _ => by simp [Writer.opened], nofun, fun hp => absurd hp (by rw [hu]; nofun),
        h.readFailed, fun hf => absurd (hwf hf) nofun, nofun, fun _ => hu,
        fun _ => Or.inr (Or.inr rfl), nofun⟩
    next hw =>
      obtain rfl := Option.some.inj hs
      have hborn := h.forked (Or.inl hw)
      have hfifo := h.exists (Or.inl hw) (by simp [hw])
      -- nor can the child have seen the parent
      have hr : s.reader.passed = true → s.readFailed = true := by
        intro hp
        refine (h.reader hp).resolve_right ?_
        simp [State.writeSeen, hw, Writer.opened]
      refine ⟨fun hu => absurd hu hborn, fun _ => Or.inl rfl, fun hp => Or.inl (hr hp),
        h.readFailed, fun _ => rfl, nofun, nofun, fun hf => ?_, nofun⟩
      rw [show s.fifo = true from hfifo] at hf
      cases hf
    next => cases hs

theorem initial_opens (buf : Vector UInt8 bufSize) : (State.initial buf).Opens :=
  ⟨fun _ => ⟨rfl, nofun⟩, nofun, nofun, nofun, nofun, nofun, fun _ => rfl, fun _ => Or.inl rfl,
    nofun⟩

end Opens

/-! ## Where the bytes are -/

/-- What the parent has not written. -/
def Writer.unsent (text : List UInt8) : Writer → List UInt8
  | .write rest | .killed rest => rest
  | .close | .waitpid | .unlink | .done => []
  | _ => text

/-- What the child has read. -/
def State.taken (s : State) : List UInt8 :=
  match s.reader with
  | .print (some n) => s.buf.take n
  | .close | .exit | .exited => s.printed.getD []
  | _ => []

def Reader.hasRead : Reader → Bool
  | .print _ | .close | .exit | .exited => true
  | _ => false

/-- The text is with the child, in the FIFO or unsent, in this order; a short text is never split,
and the child has read as much of it as fits. -/
structure State.Flows (text : List UInt8) (s : State) : Prop where
  stream : s.taken ++ s.data ++ s.writer.unsent text = text
  whole : text.length ≤ PIPE_BUF → ∀ rest, s.writer = .write rest → rest = text ∨ rest = []
  killed : ∀ rest, s.writer = .killed rest → PIPE_BUF < text.length ∧ s.reader.closed = true
  nonempty : s.reader.hasRead = true → text ≠ [] → s.taken ≠ []
  short : s.reader.hasRead = true → text.length ≤ PIPE_BUF →
    s.taken = text.take (bufSize - 1) ∧ s.writer.unsent text = []
  buffer : s.buf.length = bufSize
  index : ∀ n, s.reader = .print n → ∃ k, n = some k ∧ k ≤ bufSize - 1

section Flows

variable {cap : Nat} {message text : List UInt8} {s t : State}

theorem taken_nil (h : s.reader.hasRead = false) : s.taken = [] := by
  cases hr : s.reader with
  | print n | close | exit | exited =>
    rw [hr] at h
    cases h
  | unborn | openFifo | opening | read => simp only [State.taken, hr]

/-- While a short text is in the FIFO, all of it is. -/
theorem State.Flows.all (h : s.Flows text) (hr : s.reader.hasRead = false) (hdata : s.data ≠ [])
    (hshort : text.length ≤ PIPE_BUF) : s.data = text ∧ s.writer.unsent text = [] := by
  have hstream := h.stream
  rw [taken_nil hr, List.nil_append] at hstream
  have hne : s.writer.unsent text ≠ text := by
    intro hu
    rw [hu] at hstream
    exact hdata (List.append_left_eq_self.mp hstream)
  have hnil : s.writer.unsent text = [] := by
    cases hw : s.writer with
    | write rest =>
      rw [hw] at hne
      exact (h.whole hshort rest hw).resolve_left hne
    | killed rest =>
      have hlong := (h.killed rest hw).1
      omega
    | close | waitpid | unlink | done => rfl
    | mkfifo | fork | openFifo | opening | failed =>
      rw [hw] at hne
      exact absurd rfl hne
  rw [hnil, List.append_nil] at hstream
  exact ⟨hstream, hnil⟩

/-- The child goes on and has not read yet. -/
theorem flows_of_opening (h : s.Flows text) (hr : s.reader.hasRead = false)
    {r : Reader} (hr' : r.hasRead = false) : State.Flows text { s with reader := r } := by
  have hopen : s.reader.closed = false := by
    cases hs : s.reader with
    | exit | exited =>
      rw [hs] at hr
      cases hr
    | _ => rfl
  have htaken : State.taken { s with reader := r } = [] := taken_nil hr'
  have hstream := h.stream
  rw [taken_nil hr] at hstream
  refine ⟨by rw [htaken]; exact hstream, h.whole, fun rest hw => ?_, fun hread => ?_,
    fun hread => ?_, h.buffer, fun n hn => ?_⟩
  · have := (h.killed rest hw).2
    rw [hopen] at this
    cases this
  · rw [show r.hasRead = true from hread] at hr'
    cases hr'
  · rw [show r.hasRead = true from hread] at hr'
    cases hr'
  · rw [show r = .print n from hn] at hr'
    cases hr'

theorem taken_blit (buf data : List UInt8) {n : Nat} (hn : n ≤ data.length) :
    (blit buf 0 (data.take n)).take n = data.take n := by
  have hlen : (data.take n).length = n := List.length_take_of_le hn
  have hend := take_blit_end buf (data.take n) 0 (Nat.zero_le _)
  rwa [Nat.zero_add, hlen, List.take_zero, List.nil_append] at hend

theorem read_flows (h : s.Flows text) (hr : s.reader = .read) (hdata : s.data ≠ []) :
    State.Flows text { s with
      data := s.data.drop (min (bufSize - 1) s.data.length)
      buf := blit s.buf 0 (s.data.take (min (bufSize - 1) s.data.length))
      reader := .print (some (min (bufSize - 1) s.data.length)) } := by
  have hread : s.reader.hasRead = false := by rw [hr]; rfl
  have hstream := h.stream
  rw [taken_nil hread] at hstream
  have hle : min (bufSize - 1) s.data.length ≤ s.data.length := Nat.min_le_right _ _
  have hlen : (s.data.take (min (bufSize - 1) s.data.length)).length =
      min (bufSize - 1) s.data.length := List.length_take_of_le hle
  have hpos : 0 < s.data.length := List.length_pos_iff.mpr hdata
  have hsize : bufSize = 128 := rfl
  have hbuf := h.buffer
  refine ⟨?_, h.whole, fun rest hw => ?_, fun _ _ => ?_, fun _ hshort => ?_, ?_, fun n hn => ?_⟩
  · simp only [State.taken, taken_blit s.buf s.data hle, List.take_append_drop]
    exact hstream
  · have := (h.killed rest hw).2
    rw [hr] at this
    cases this
  · simp only [State.taken, taken_blit s.buf s.data hle]
    intro hnil
    rw [hnil, List.length_nil] at hlen
    omega
  · obtain ⟨hall, hnil⟩ := h.all hread hdata hshort
    refine ⟨?_, hnil⟩
    simp only [State.taken, taken_blit s.buf s.data hle]
    rw [← List.take_take, List.take_length, hall]
  · dsimp only
    rw [length_blit _ _ _ (by rw [hlen]; omega), hbuf]
  · cases hn
    exact ⟨_, rfl, Nat.min_le_left _ _⟩

/-- The child sees the end of the file only when there is no text. -/
theorem eof_flows (h : s.Flows text) (ho : s.Opens) (hr : s.reader = .read)
    (hf : s.readFailed = false) (hdata : s.data = []) (hw : s.writeEnd = false) :
    State.Flows text { s with reader := .print (some 0) } := by
  have hread : s.reader.hasRead = false := by rw [hr]; rfl
  have hseen : s.writeSeen = true := (ho.reader (by rw [hr]; rfl)).resolve_left (by simp [hf])
  have hclosed : s.writer.closed = true := by
    simpa [State.writeEnd, hseen] using hw
  have hstream := h.stream
  rw [taken_nil hread, hdata] at hstream
  have hnil : s.writer.unsent text = [] := by
    cases hw : s.writer with
    | killed rest =>
      have := (h.killed rest hw).2
      rw [hr] at this
      cases this
    | waitpid | unlink | done => rfl
    | _ =>
      rw [hw] at hclosed
      cases hclosed
  have htext : text = [] := by
    rw [hnil] at hstream
    exact hstream.symm
  refine ⟨?_, h.whole, fun rest hw => ?_, fun _ hne => absurd htext hne, fun _ _ => ?_, h.buffer,
    fun n hn => ?_⟩
  · simp only [State.taken, List.take_zero, hdata]
    exact hstream
  · have := (h.killed rest hw).2
    rw [hr] at this
    cases this
  · refine ⟨?_, hnil⟩
    rw [htext]
    rfl
  · cases hn
    exact ⟨0, rfl, Nat.zero_le _⟩

/-- The child prints what it has read, as a text has no NUL. -/
theorem print_flows (h : s.Flows text) (h0 : 0 ∉ text) {n : Nat}
    (hr : s.reader = .print (some n)) :
    State.Flows text { s with
      buf := blit s.buf n [0]
      printed := some (cString (blit s.buf n [0]))
      reader := .close } := by
  obtain ⟨k, hk, hle⟩ := h.index _ hr
  obtain rfl := Option.some.inj hk
  have hsize : bufSize = 128 := rfl
  have hbuf := h.buffer
  have hold : s.taken = s.buf.take n := by simp only [State.taken, hr]
  have hnul : 0 ∉ s.buf.take n := by
    intro hmem
    apply h0
    rw [← h.stream, hold]
    exact List.mem_append_left _ (List.mem_append_left _ hmem)
  have hnew : cString (blit s.buf n [0]) = s.taken := by
    rw [blit, List.append_assoc, List.singleton_append, cString_append_nul,
      cString_eq_self_iff.mpr hnul, hold]
  have hread : s.reader.hasRead = true := by rw [hr]; rfl
  refine ⟨?_, h.whole, fun rest hw => ?_, fun _ => ?_, fun _ => ?_, ?_,
    fun _ hclose => (by cases hclose)⟩
  · simp only [State.taken, Option.getD_some, hnew]
    exact h.stream
  · have := (h.killed rest hw).2
    rw [hr] at this
    cases this
  · simp only [State.taken, Option.getD_some, hnew]
    exact h.nonempty hread
  · simp only [State.taken, Option.getD_some, hnew]
    exact h.short hread
  · dsimp only
    rw [length_blit _ _ _ (by rw [List.length_singleton]; omega), hbuf]

theorem readerMove_flows (h : s.Flows text) (ho : s.Opens) (h0 : 0 ∉ text)
    (hf : s.readFailed = false) (hm : ReaderMove s t) : t.Flows text := by
  cases hm with
  | met hr _ | joined hr _ => exact flows_of_opening h (by rw [hr]; rfl) rfl
  | alone hr => exact flows_of_opening h (by rw [hr]; rfl) rfl
  | error hr hfail =>
    rw [hf] at hfail
    cases hfail
  | data hr _ hdata => exact read_flows h hr hdata
  | eof hr _ hdata hw => exact eof_flows h ho hr hf hdata hw
  | overrun hr =>
    obtain ⟨k, hk, -⟩ := h.index _ hr
    cases hk
  | printed n hr => exact print_flows h h0 hr
  | close hr | exit hr =>
    have hread : s.reader.hasRead = true := by rw [hr]; rfl
    have hstream := h.stream
    have hnonempty := h.nonempty hread
    have hshort := h.short hread
    simp only [State.taken, hr] at hstream hnonempty hshort
    exact ⟨hstream, h.whole, fun rest hw => ⟨(h.killed rest hw).1, rfl⟩, fun _ => hnonempty,
      fun _ => hshort, h.buffer, nofun⟩

/-- The parent goes on and has still to write the same bytes. -/
theorem flows_of_writer (h : s.Flows text) {w : Writer} (hunsent : w.unsent text = s.writer.unsent text)
    (hwhole : ∀ rest, w = .write rest → rest = text ∨ rest = [])
    (hkilled : ∀ rest, w = .killed rest → PIPE_BUF < text.length ∧ s.reader.closed = true) :
    State.Flows text { s with writer := w } := by
  refine ⟨?_, fun _ => hwhole, hkilled, h.nonempty, fun hread hshort => ?_, h.buffer, h.index⟩
  · show s.taken ++ s.data ++ w.unsent text = text
    rw [hunsent]
    exact h.stream
  · obtain ⟨htaken, hnil⟩ := h.short hread hshort
    exact ⟨htaken, hunsent.trans hnil⟩

/-- Without a reader the parent is killed, and only for a long text. -/
theorem sigpipe_flows (h : s.Flows text) (ho : s.Opens) {rest : List UInt8}
    (hw : s.writer = .write rest) (hf : s.writeFailed = false) (hrest : rest ≠ [])
    (hr : s.readEnd = false) : State.Flows text { s with writer := .killed rest } := by
  have hseen : s.readSeen = true := (ho.writer (by rw [hw]; rfl)).resolve_left (by simp [hf])
  have hclosed : s.reader.closed = true := by simpa [State.readEnd, hseen] using hr
  have hread : s.reader.hasRead = true := by
    cases hs : s.reader with
    | exit | exited => rfl
    | _ =>
      rw [hs] at hclosed
      cases hclosed
  refine flows_of_writer h (by rw [hw]; rfl) nofun fun _ _ => ⟨?_, hclosed⟩
  by_contra hshort
  have hnil := (h.short hread (Nat.not_lt.mp hshort)).2
  rw [hw] at hnil
  exact hrest hnil

theorem put_flows (h : s.Flows text) {rest : List UInt8} {n : Nat} (hw : s.writer = .write rest)
    (hpos : 1 ≤ n) (hle : n ≤ rest.length) (hwhole : text.length ≤ PIPE_BUF → n = rest.length) :
    State.Flows text { s with
      data := s.data ++ rest.take n, writer := .write (rest.drop n) } := by
  have hstream := h.stream
  rw [hw] at hstream
  refine ⟨?_, fun hshort rest' hw' => ?_, nofun, h.nonempty, fun hread hshort => ?_, h.buffer,
    h.index⟩
  · show s.taken ++ (s.data ++ rest.take n) ++ rest.drop n = text
    rw [← List.append_assoc, List.append_assoc, List.take_append_drop]
    exact hstream
  · cases hw'
    rw [hwhole hshort, List.drop_length]
    exact Or.inr rfl
  · have hnil := (h.short hread hshort).2
    rw [hw] at hnil
    have hrest : rest = [] := hnil
    rw [hrest, List.length_nil] at hle
    omega

theorem writerMove_flows (h : s.Flows (cString message)) (ho : s.Opens)
    (hf : s.writeFailed = false) (hm : WriterMove cap message s t) :
    t.Flows (cString message) := by
  cases hm with
  | mkfifo hw =>
    have hflow := flows_of_writer h (w := .fork) (by rw [hw]; rfl) nofun nofun
    exact ⟨hflow.stream, hflow.whole, hflow.killed, hflow.nonempty, hflow.short, hflow.buffer,
      hflow.index⟩
  | fork hw =>
    have hu := ho.unborn (Or.inr (Or.inl hw))
    have hflow := flows_of_opening (flows_of_writer h (w := .openFifo) (by rw [hw]; rfl) nofun nofun)
      (by rw [hu]; rfl) (r := .openFifo) rfl
    exact ⟨hflow.stream, hflow.whole, hflow.killed, hflow.nonempty, hflow.short, hflow.buffer,
      hflow.index⟩
  | met hw _ | joined hw _ =>
    refine flows_of_writer h (by rw [hw]; rfl) (fun rest hrest => Or.inl ?_) nofun
    cases hrest
    rfl
  | alone hw => exact flows_of_writer h (by rw [hw]; rfl) nofun nofun
  | written rest hw hdone =>
    obtain rfl : rest = [] := hdone.resolve_left (by simp [hf])
    exact flows_of_writer h (by rw [hw]; rfl) nofun nofun
  | sigpipe rest hw _ hrest hr => exact sigpipe_flows h ho hw hf hrest hr
  | put rest n hw _ hpos hle hwhole _ => exact put_flows h hw hpos hle hwhole
  | close hw => exact flows_of_writer h (by rw [hw]; rfl) nofun nofun
  | waitpid hw _ => exact flows_of_writer h (by rw [hw]; rfl) nofun nofun
  | unlink hw =>
    have hflow := flows_of_writer h (w := .done) (by rw [hw]; rfl) nofun nofun
    exact ⟨hflow.stream, hflow.whole, hflow.killed, hflow.nonempty, hflow.short, hflow.buffer,
      hflow.index⟩

end Flows

/-! ## Whole runs -/

/-- The text flows while both `open`s succeed; `buf[-1]` is written exactly when the `open` of the
child fails. -/
structure State.Sound (message : List UInt8) (s : State) : Prop where
  opens : s.Opens
  flows : s.readFailed = false → s.writeFailed = false → s.Flows (cString message)
  minus : ∀ n, s.reader = .print n → (n = none ↔ s.readFailed = true)
  overrun : s.overrun = true → s.readFailed = true
  finished : s.reader = .close ∨ s.reader.closed = true →
    (s.readFailed = true → s.overrun = true) ∧ (s.readFailed = false → s.printed ≠ none)
  shown : s.printed ≠ none → s.reader = .close ∨ s.reader.closed = true

section Runs

variable {cap : Nat} {message : List UInt8} {s t : State}

theorem cString_no_nul (buf : List UInt8) : 0 ∉ cString buf := by
  intro h
  simpa using List.mem_takeWhile_imp h

theorem initial_sound (message : List UInt8) (buf : Vector UInt8 bufSize) :
    (State.initial buf).Sound message :=
  ⟨initial_opens buf, fun _ _ => ⟨rfl, nofun, nofun, nofun, nofun, buf.length_toList, nofun⟩, nofun,
    nofun, nofun, fun h => absurd rfl h⟩

theorem readerMove_sound (h : s.Sound message) (hm : ReaderMove s t) : t.Sound message := by
  have hopens := readerMove_opens h.opens hm
  have hflows : s.readFailed = false → s.writeFailed = false → t.Flows (cString message) :=
    fun hr hw => readerMove_flows (h.flows hr hw) h.opens (cString_no_nul message) hr hm
  -- a child that has not closed has not printed
  have hquiet : s.reader ≠ .close → s.reader.closed = false → s.printed = none := by
    intro hclose hclosed
    by_contra hp
    rcases h.shown hp with hr | hr
    · exact hclose hr
    · rw [hclosed] at hr
      cases hr
  cases hm with
  | met hr _ | joined hr _ =>
    have hnone := hquiet (by simp [hr]) (by rw [hr]; rfl)
    exact ⟨hopens, hflows, nofun, h.overrun, fun hc => by simp [Reader.closed] at hc,
      fun hp => absurd hnone hp⟩
  | alone hr =>
    have hnone := hquiet (by simp [hr]) (by rw [hr]; rfl)
    exact ⟨hopens, hflows, nofun, h.overrun, fun hc => by simp [Reader.closed] at hc,
      fun hp => absurd hnone hp⟩
  | error hr hf =>
    have hnone := hquiet (by simp [hr]) (by rw [hr]; rfl)
    refine ⟨hopens, hflows, fun n hn => ?_, h.overrun, fun hc => by simp [Reader.closed] at hc,
      fun hp => absurd hnone hp⟩
    cases hn
    exact iff_of_true rfl hf
  | data hr hf _ | eof hr hf _ _ =>
    have hnone := hquiet (by simp [hr]) (by rw [hr]; rfl)
    refine ⟨hopens, hflows, fun n hn => ?_, h.overrun, fun hc => by simp [Reader.closed] at hc,
      fun hp => absurd hnone hp⟩
    cases hn
    exact iff_of_false nofun (by simp [hf])
  | overrun hr =>
    have hfail : s.readFailed = true := (h.minus none hr).mp rfl
    refine ⟨hopens, hflows, nofun, fun _ => hfail, fun _ => ⟨fun _ => rfl, fun hf => ?_⟩,
      fun _ => Or.inl rfl⟩
    rw [hfail] at hf
    cases hf
  | printed n hr =>
    refine ⟨hopens, hflows, nofun, h.overrun, fun _ => ⟨fun hfail => ?_, fun _ => by simp⟩,
      fun _ => Or.inl rfl⟩
    exact absurd ((h.minus (some n) hr).mpr hfail) nofun
  | close hr =>
    exact ⟨hopens, hflows, nofun, h.overrun, fun _ => h.finished (Or.inl hr), fun _ => Or.inr rfl⟩
  | exit hr =>
    exact ⟨hopens, hflows, nofun, h.overrun, fun _ => h.finished (Or.inr (by rw [hr]; rfl)),
      fun _ => Or.inr rfl⟩

theorem writerMove_sound (h : s.Sound message) (hm : WriterMove cap message s t) :
    t.Sound message := by
  have hopens := writerMove_opens h.opens hm
  have hflows : s.readFailed = false → s.writeFailed = false → t.Flows (cString message) :=
    fun hr hw => writerMove_flows (h.flows hr hw) h.opens hw hm
  cases hm with
  | fork hw =>
    have hu := h.opens.unborn (Or.inr (Or.inl hw))
    refine ⟨hopens, hflows, nofun, h.overrun, fun hc => by simp [Reader.closed] at hc,
      fun hp => ?_⟩
    have hshown := h.shown hp
    simp [hu, Reader.closed] at hshown
  | _ => exact ⟨hopens, hflows, h.minus, h.overrun, h.finished, h.shown⟩

theorem step_sound {a : Act} (h : s.Sound message) (hs : step cap message a s = some t) :
    t.Sound message := by
  have hopens := step_opens h.opens hs
  cases a with
  | reader => exact readerMove_sound h (readerStep_move hs)
  | writer n => exact writerMove_sound h (writerStep_move hs)
  | readerFails =>
    obtain ⟨hr, hs⟩ := Option.ite_none_right_eq_some.mp hs
    obtain rfl := Option.some.inj hs
    refine ⟨hopens, nofun, nofun, fun _ => rfl, fun hc => by simp [Reader.closed] at hc,
      fun hp => ?_⟩
    have hshown := h.shown hp
    simp [hr, Reader.closed] at hshown
  | writerFails =>
    simp only [step] at hs
    split at hs
    next hw =>
      obtain rfl := Option.some.inj hs
      exact ⟨hopens, fun hr hf => flows_of_writer (h.flows hr hf) (by rw [hw]; rfl) nofun nofun,
        h.minus, h.overrun, h.finished, h.shown⟩
    next hw =>
      obtain rfl := Option.some.inj hs
      exact ⟨hopens, fun hr hf => flows_of_writer (h.flows hr hf) (by rw [hw]; rfl) nofun nofun,
        h.minus, h.overrun, h.finished, h.shown⟩
    next hw =>
      obtain rfl := Option.some.inj hs
      exact ⟨hopens, nofun, h.minus, h.overrun, h.finished, h.shown⟩
    next => cases hs

/-- What is printed is what was read. -/
theorem State.Sound.taken_eq (h : s.Sound message) {text : List UInt8}
    (htext : s.printed = some text) : s.reader.hasRead = true ∧ s.taken = text := by
  rcases h.shown (by rw [htext]; nofun) with hr | hc
  · exact ⟨by rw [hr]; rfl, by simp only [State.taken, hr, htext, Option.getD_some]⟩
  · cases hr : s.reader with
    | exit | exited => exact ⟨rfl, by simp only [State.taken, hr, htext, Option.getD_some]⟩
    | _ =>
      rw [hr] at hc
      cases hc

/-! ## Progress -/

/-- The calls that the child has left, at most. -/
def Reader.left : Reader → Nat
  | .unborn | .openFifo => 6
  | .opening => 5
  | .read => 4
  | .print _ => 3
  | .close => 2
  | .exit => 1
  | .exited => 0

def Writer.left (text : List UInt8) : Writer → Nat
  | .mkfifo => text.length + 8
  | .fork => text.length + 7
  | .openFifo => text.length + 6
  | .opening => text.length + 5
  | .write rest => rest.length + 4
  | .close => 3
  | .waitpid => 2
  | .unlink => 1
  | .done | .killed _ | .failed => 0

def State.left (text : List UInt8) (s : State) : Nat := s.reader.left + s.writer.left text

theorem readerMove_left (hm : ReaderMove s t) :
    t.reader.left + 1 ≤ s.reader.left ∧ t.writer = s.writer := by
  cases hm with
  | met hr _ | joined hr _ | error hr _ => exact ⟨by simp [hr, Reader.left], rfl⟩
  | data hr _ _ | eof hr _ _ _ => exact ⟨by simp [hr, Reader.left], rfl⟩
  | alone hr | overrun hr | close hr | exit hr => exact ⟨by simp [hr, Reader.left], rfl⟩
  | printed n hr => exact ⟨by simp [hr, Reader.left], rfl⟩

theorem writerMove_left (h : s.Opens) (hm : WriterMove cap message s t) :
    t.writer.left (cString message) + 1 ≤ s.writer.left (cString message) ∧
      t.reader.left = s.reader.left := by
  cases hm with
  | fork hw =>
    have hu := h.unborn (Or.inr (Or.inl hw))
    exact ⟨by simp [hw, Writer.left], by rw [hu]; rfl⟩
  | put rest n hw _ hpos hle _ _ =>
    refine ⟨?_, rfl⟩
    simp only [hw, Writer.left, List.length_drop]
    omega
  | written rest hw _ =>
    refine ⟨?_, rfl⟩
    simp only [hw, Writer.left]
    omega
  | sigpipe rest hw _ _ _ =>
    refine ⟨?_, rfl⟩
    simp only [hw, Writer.left]
    omega
  | met hw _ | joined hw _ | waitpid hw _ => exact ⟨by simp [hw, Writer.left], rfl⟩
  | mkfifo hw | alone hw | close hw | unlink hw => exact ⟨by simp [hw, Writer.left], rfl⟩

theorem step_left {a : Act} (h : s.Opens) (hs : step cap message a s = some t) :
    t.left (cString message) + 1 ≤ s.left (cString message) := by
  unfold State.left
  cases a with
  | reader =>
    obtain ⟨hleft, hw⟩ := readerMove_left (readerStep_move hs)
    rw [hw]
    omega
  | writer n =>
    obtain ⟨hleft, hr⟩ := writerMove_left h (writerStep_move hs)
    omega
  | readerFails =>
    obtain ⟨hr, hs⟩ := Option.ite_none_right_eq_some.mp hs
    obtain rfl := Option.some.inj hs
    simp only [hr, Reader.left]
    omega
  | writerFails =>
    simp only [step] at hs
    split at hs
    next hw =>
      obtain rfl := Option.some.inj hs
      simp only [hw, Writer.left]
      omega
    next hw =>
      obtain rfl := Option.some.inj hs
      simp only [hw, Writer.left]
      omega
    next hw =>
      obtain rfl := Option.some.inj hs
      simp only [hw, Writer.left]
      omega
    next => cases hs

/-- The demo has returned, or its process was killed. -/
def Writer.ended : Writer → Bool
  | .done | .killed _ | .failed => true
  | _ => false

/-- The child can go on when its `open` need not wait, and it finds bytes or no writer. -/
theorem reader_moves (cap : Nat) (message : List UInt8)
    (hr : s.reader ≠ .unborn ∧ s.reader ≠ .exited) (hopening : s.reader = .opening → s.writeSeen = true)
    (hread : s.reader = .read → s.readFailed = true ∨ s.data ≠ [] ∨ s.writeEnd = false) :
    ∃ t, step cap message .reader s = some t := by
  cases hs : s.reader with
  | unborn => exact absurd hs hr.1
  | exited => exact absurd hs hr.2
  | openFifo => exact ⟨_, by simp only [step, readerStep, hs]; rfl⟩
  | opening => exact ⟨_, by simp only [step, readerStep, hs, if_pos (hopening hs)]; rfl⟩
  | print n =>
    cases n with
    | none => exact ⟨_, by simp only [step, readerStep, hs]; rfl⟩
    | some n => exact ⟨_, by simp only [step, readerStep, hs]; rfl⟩
  | close | exit => exact ⟨_, by simp only [step, readerStep, hs]; rfl⟩
  | read =>
    simp only [step, readerStep, hs]
    by_cases hf : s.readFailed = true
    · exact ⟨_, if_pos hf⟩
    by_cases hd : s.data ≠ []
    · exact ⟨_, by rw [if_neg hf, if_pos hd]⟩
    · have hw := ((hread hs).resolve_left hf).resolve_left hd
      exact ⟨_, by rw [if_neg hf, if_neg hd, if_neg (by simp [hw])]⟩

/-- A step that is not a failing call. -/
def Act.works : Act → Bool
  | .reader | .writer _ => true
  | _ => false

/-- The parent waits for a reader only until the child has opened the FIFO. -/
theorem opening_moves (h : s.Opens) (hw : s.writer = .opening)
    (hsame : s.readFailed = s.writeFailed) :
    ∃ a t, a.works = true ∧ step cap message a s = some t := by
  have hwf : s.writeFailed = false := by
    by_contra hf
    have hp := h.writeFailed (by simpa using hf)
    rw [hw] at hp
    cases hp
  by_cases hseen : s.readSeen = true
  · exact ⟨.writer 0, _, rfl, by simp only [step, writerStep, hw, if_pos hseen]; rfl⟩
  · have hborn := h.forked (Or.inr (by rw [hw]; rfl))
    have hclosed : s.reader.opened = false := by
      simpa [State.readSeen, hsame.trans hwf] using hseen
    have hr : s.reader = .openFifo := by
      cases hs : s.reader with
      | unborn => exact absurd hs hborn
      | openFifo => rfl
      | _ =>
        rw [hs] at hclosed
        cases hclosed
    exact ⟨.reader, _, rfl, by simp only [step, readerStep, hr]; rfl⟩

/-- A `write` waits only for a child that can read. -/
theorem write_moves (hcap : PIPE_BUF ≤ cap) (h : s.Sound message) {rest : List UInt8}
    (hw : s.writer = .write rest) (hsame : s.readFailed = s.writeFailed) :
    ∃ a t, a.works = true ∧ step cap message a s = some t := by
  by_cases hdone : s.writeFailed = true ∨ rest = []
  · exact ⟨.writer 0, _, rfl, by simp only [step, writerStep, hw, if_pos hdone]; rfl⟩
  by_cases hr : s.readEnd = false
  · exact ⟨.writer 0, _, rfl, by simp only [step, writerStep, hw, if_neg hdone, if_pos hr]; rfl⟩
  obtain ⟨hwf, hrest⟩ := not_or.mp hdone
  have hwf := Bool.not_eq_true _ ▸ hwf
  have hrf : s.readFailed = false := hsame.trans hwf
  have hflow := h.flows hrf hwf
  have hpos : 1 ≤ rest.length := List.length_pos_iff.mpr hrest
  by_cases hshort : (cString message).length ≤ PIPE_BUF
  · have hall : rest = cString message := (hflow.whole hshort rest hw).resolve_right hrest
    have hdata : s.data = [] := by
      have hstream := hflow.stream
      rw [hw, hall] at hstream
      exact (List.append_eq_nil_iff.mp (List.append_left_eq_self.mp hstream)).2
    have hfit : 1 ≤ rest.length ∧ rest.length ≤ rest.length ∧ s.data.length + rest.length ≤ cap := by
      have hlen : rest.length = (cString message).length := by rw [hall]
      rw [hdata, List.length_nil]
      omega
    exact ⟨.writer 0, _, rfl,
      by simp only [step, writerStep, hw, if_neg hdone, if_neg hr, if_pos hshort, if_pos hfit]; rfl⟩
  · by_cases hroom : s.data.length + 1 ≤ cap
    · have hfit : 1 ≤ 1 ∧ 1 ≤ rest.length ∧ s.data.length + 1 ≤ cap := ⟨Nat.le_refl _, hpos, hroom⟩
      exact ⟨.writer 1, _, rfl,
        by simp only [step, writerStep, hw, if_neg hdone, if_neg hr, if_neg hshort, if_pos hfit]; rfl⟩
    · have hdata : s.data ≠ [] := by
        rintro hnil
        have hbuf : PIPE_BUF = 4096 := rfl
        rw [hnil, List.length_nil] at hroom
        omega
      have hread : s.reader.closed = false ∧ s.reader.opened = true := by
        simpa [State.readEnd, State.readSeen, and_comm, hrf] using hr
      have hborn : s.reader ≠ .unborn := by
        intro hu
        rw [hu] at hread
        cases hread.2
      have hexited : s.reader ≠ .exited := by
        intro he
        rw [he] at hread
        cases hread.1
      have hseen : s.writeSeen = true := by simp [State.writeSeen, hw, hwf, Writer.opened]
      obtain ⟨t, ht⟩ := reader_moves cap message ⟨hborn, hexited⟩ (fun _ => hseen)
        fun _ => Or.inr (Or.inl hdata)
      exact ⟨.reader, t, rfl, ht⟩

/-- The parent waits for the child only while that can go on. -/
theorem waitpid_moves (h : s.Opens) (hw : s.writer = .waitpid)
    (hsame : s.readFailed = s.writeFailed) :
    ∃ a t, a.works = true ∧ step cap message a s = some t := by
  by_cases hr : s.reader = .exited
  · exact ⟨.writer 0, _, rfl, by simp only [step, writerStep, hw, if_pos hr]; rfl⟩
  have hborn := h.forked (Or.inr (by rw [hw]; rfl))
  have hseen : s.reader = .opening → s.writeSeen = true := by
    intro hopening
    have hrf : s.readFailed = false := by
      by_contra hf
      have hp := h.readFailed (by simpa using hf)
      rw [hopening] at hp
      cases hp
    simp [State.writeSeen, hw, Writer.opened, ← hsame, hrf]
  have hend : s.writeEnd = false := by simp [State.writeEnd, hw, Writer.closed]
  obtain ⟨t, ht⟩ := reader_moves cap message ⟨hborn, hr⟩ hseen fun _ => Or.inr (Or.inr hend)
  exact ⟨.reader, t, rfl, ht⟩

theorem demo_moves (hcap : PIPE_BUF ≤ cap) (h : s.Sound message)
    (hsame : s.readFailed = s.writeFailed) (hend : s.writer.ended = false) :
    ∃ a t, a.works = true ∧ step cap message a s = some t := by
  cases hw : s.writer with
  | mkfifo | fork | openFifo | close | unlink =>
    exact ⟨.writer 0, _, rfl, by simp only [step, writerStep, hw]; rfl⟩
  | opening => exact opening_moves h.opens hw hsame
  | write rest => exact write_moves hcap h hw hsame
  | waitpid => exact waitpid_moves h.opens hw hsame
  | done | killed rest | failed =>
    rw [hw] at hend
    cases hend

/-- When one `open` has failed, that of the other process has not returned. -/
theorem State.Opens.stuck (h : s.Opens) :
    (s.readFailed = true → s.writeFailed = false →
      s.writer = .openFifo ∨ s.writer = .opening) ∧
    (s.writeFailed = true → s.readFailed = false →
      (s.reader = .openFifo ∨ s.reader = .opening) ∧ s.writer ≠ .unlink ∧ s.writer ≠ .done) := by
  constructor
  · intro hrf hwf
    have hnot : s.writer.passed ≠ true := by
      intro hp
      rcases h.writer hp with hf | hseen
      · rw [hwf] at hf
        cases hf
      · simp [State.readSeen, hrf] at hseen
    have hborn : s.reader ≠ .unborn := by
      intro hu
      have hp := h.readFailed hrf
      rw [hu] at hp
      cases hp
    cases hw : s.writer with
    | mkfifo => exact absurd (h.unborn (Or.inl hw)) hborn
    | fork => exact absurd (h.unborn (Or.inr (Or.inl hw))) hborn
    | failed => exact absurd (h.unborn (Or.inr (Or.inr hw))) hborn
    | openFifo => exact Or.inl rfl
    | opening => exact Or.inr rfl
    | _ =>
      rw [hw] at hnot
      exact absurd rfl hnot
  · intro hwf hrf
    have hpassed := h.writeFailed hwf
    have hnot : s.reader.passed ≠ true := by
      intro hp
      rcases h.reader hp with hf | hseen
      · rw [hrf] at hf
        cases hf
      · simp [State.writeSeen, hwf] at hseen
    have hexited : s.reader ≠ .exited := by
      intro he
      rw [he] at hnot
      exact hnot rfl
    refine ⟨?_, fun hw => hexited (h.reaped (Or.inl hw)), fun hw => hexited (h.reaped (Or.inr hw))⟩
    cases hr : s.reader with
    | unborn =>
      have hopened := (h.born hr).1
      cases hw : s.writer with
      | mkfifo | fork | openFifo | opening | failed =>
        rw [hw] at hpassed
        cases hpassed
      | _ =>
        rw [hw] at hopened
        cases hopened
    | openFifo => exact Or.inl rfl
    | opening => exact Or.inr rfl
    | _ =>
      rw [hr] at hnot
      exact absurd rfl hnot

end Runs

/-- **The child prints the message, cut to its buffer**, in every interleaving in which both
`open`s succeed: it prints before it ends, what it prints is a nonempty prefix of the message, and
all that fits of a message of at most `PIPE_BUF` bytes; only a longer message can kill the parent.
`buf[-1]` is written exactly when the `open` of the child fails. The demo takes a bounded number of
steps and never gets stuck while both `open`s fare alike; when one has failed, the other process is
still in its own, and the demo does not return. It returns behind the end of the child, and without
the FIFO. -/
theorem fifo_delivers (cap : Nat) (hcap : PIPE_BUF ≤ cap) (message : List UInt8)
    (buf : Vector UInt8 bufSize) (acts : List Act) (s : State)
    (hr : runList (step cap message) acts (State.initial buf) = some s) :
    (s.readFailed = false → s.writeFailed = false →
      (s.reader = .exited → ∃ text, s.printed = some text) ∧
      (∀ text, s.printed = some text → text <+: cString message ∧
        (cString message ≠ [] → text ≠ []) ∧
        ((cString message).length ≤ PIPE_BUF → text = (cString message).take (bufSize - 1))) ∧
      ∀ rest, s.writer = .killed rest → PIPE_BUF < (cString message).length) ∧
    (s.reader = .exited → (s.overrun = true ↔ s.readFailed = true)) ∧
    acts.length ≤ (cString message).length + 14 ∧
    (s.readFailed = s.writeFailed → s.writer.ended = false →
      ∃ a t, a.works = true ∧ step cap message a s = some t) ∧
    (s.readFailed = true → s.writeFailed = false →
      s.writer = .openFifo ∨ s.writer = .opening) ∧
    (s.writeFailed = true → s.readFailed = false →
      (s.reader = .openFifo ∨ s.reader = .opening) ∧ s.writer ≠ .unlink ∧ s.writer ≠ .done) ∧
    (s.writer = .done → s.reader = .exited ∧ s.fifo = false) := by
  have h := runList_invariant (fun _ _ _ => step_sound) acts (initial_sound message buf) hr
  have hstep : ∀ a s t, s.Sound message → step cap message a s = some t →
      t.Sound message ∧ t.left (cString message) + 1 ≤ s.left (cString message) :=
    fun _ _ _ hs hstep => ⟨step_sound hs hstep, step_left hs.opens hstep⟩
  have hlen := (run_rank_le hstep acts (initial_sound message buf) hr).2
  have hfinished : s.reader = .exited →
      (s.readFailed = true → s.overrun = true) ∧ (s.readFailed = false → s.printed ≠ none) :=
    fun hexit => h.finished (Or.inr (by rw [hexit]; rfl))
  refine ⟨fun hrf hwf => ?_, fun hexit => ⟨h.overrun, (hfinished hexit).1⟩, ?_, demo_moves hcap h,
    h.opens.stuck.1, h.opens.stuck.2,
    fun hw => ⟨h.opens.reaped (Or.inr hw), h.opens.gone hw⟩⟩
  · have hflow := h.flows hrf hwf
    refine ⟨fun hexit => ?_, fun text htext => ?_, fun rest hw => (hflow.killed rest hw).1⟩
    · exact Option.ne_none_iff_exists'.mp ((hfinished hexit).2 hrf)
    obtain ⟨hread, htaken⟩ := h.taken_eq htext
    have hstream := hflow.stream
    rw [htaken, List.append_assoc] at hstream
    refine ⟨⟨_, hstream⟩, fun hne => ?_, fun hshort => ?_⟩
    · rw [← htaken]
      exact hflow.nonempty hread hne
    · rw [← htaken]
      exact (hflow.short hread hshort).1
  · have hfirst : (State.initial buf).left (cString message) = (cString message).length + 14 := by
      simp only [State.left, State.initial, Reader.left, Writer.left]
      omega
    omega

/-- The message of the demo. -/
def msg : List UInt8 := bytes "FIFO message from writer!"

/-- A run in which both `open`s succeed, and one in which that of the parent fails: there the child
waits for a writer, and the parent for the child. -/
theorem fifo_delivers_or_waits :
    (∃ s, runList (step PIPE_BUF msg) [.writer 0, .writer 0, .reader, .writer 0, .writer 0, .reader,
        .reader, .writer 0, .reader, .reader, .reader, .writer 0, .writer 0, .writer 0]
        (State.initial (Vector.replicate bufSize 1)) = some s ∧
      s.writer = .done ∧ ∃ text, s.printed = some text ∧ text = (cString msg).take (bufSize - 1)) ∧
    ∃ s, runList (step PIPE_BUF msg) [.writer 0, .writer 0, .reader, .writerFails, .writer 0,
        .writer 0] (State.initial (Vector.replicate bufSize 0)) = some s ∧
      s.reader = .opening ∧ s.writer = .waitpid ∧ s.writer ≠ .done := by
  constructor
  · have hrun : runList (step PIPE_BUF msg) [.writer 0, .writer 0, .reader, .writer 0, .writer 0,
        .reader, .reader, .writer 0, .reader, .reader, .reader, .writer 0, .writer 0, .writer 0]
        (State.initial (Vector.replicate bufSize 1)) =
          some ⟨false, [], .exited, .done, false, false, msg ++ 0 :: List.replicate 102 1, some msg,
            false⟩ := by decide +kernel
    obtain ⟨hprints, htext, -⟩ := (fifo_delivers PIPE_BUF (Nat.le_refl _) _ _ _ _ hrun).1 rfl rfl
    obtain ⟨text, hprinted⟩ := hprints rfl
    exact ⟨_, hrun, rfl, text, hprinted, (htext text hprinted).2.2 (by decide +kernel)⟩
  · have hrun : runList (step PIPE_BUF msg) [.writer 0, .writer 0, .reader, .writerFails, .writer 0,
        .writer 0] (State.initial (Vector.replicate bufSize 0)) =
          some ⟨true, [], .opening, .waitpid, false, true, List.replicate bufSize 0, none,
            false⟩ := by decide +kernel
    refine ⟨_, hrun, rfl, rfl, ?_⟩
    exact ((fifo_delivers PIPE_BUF (Nat.le_refl _) _ _ _ _ hrun).2.2.2.2.2.1 rfl rfl).2.2

end LearnLinux.NamedPipe
