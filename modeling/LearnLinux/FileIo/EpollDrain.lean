import LearnLinux.Lib.CString
import LearnLinux.Lib.Transition
import Mathlib.Logic.Function.Basic

/-!
# The drain loop of `demo_epoll` in `06_file_io/fileio_demo.c`

`demo_epoll` reads the pipes that `epoll_wait` has reported into one array of 32 bytes, each
`read` behind the bytes of the one before. What is queued in the pipes and which of them are
reported, in which order, is given from outside. A `read` takes some of the queued bytes, at
most as many as were asked for; on an empty pipe it fails, which ends the inner loop. The ranges
of `buf` that are stored to are kept in a list, and a store behind the end of `buf` makes it
longer.

`drain_inside_iff`: the size passed to `read` is that of the whole array and not of the part
behind `total`, so the loop stays inside exactly when the reported pipes hold at most 31 bytes
together.
-/

namespace LearnLinux.EpollDrain

open CString Segment Transition

/-! ## The loop -/

/-- `sizeof(buf)`. -/
def bufSize : Nat := 32

/-- The read ends of the two pipes. -/
inductive Fd where
  | pipefd
  | pipefd2
  deriving DecidableEq, Repr

/-- `events[0 .. nfds)`: `epoll_wait` reports a descriptor once, in any order. -/
structure Ready where
  events : List Fd
  nodup : events.Nodup

/-- The bytes `buf[off .. off + len)`. -/
structure Range where
  off : Nat
  len : Nat
  deriving DecidableEq, Repr

inductive Line where
  | drained (fd : Fd) (n : Nat)
  | totalGet (total : Nat) (text : List UInt8)
  deriving DecidableEq, Repr

/-- The bytes queued in the pipes, the events from `i` on, the variables, the ranges stored to,
the lines printed, and whether `buf[total] = 0` is done. -/
structure State where
  queue : Fd → List UInt8
  events : List Fd
  buf : List UInt8
  total : Nat
  stores : List Range
  printed : List Line
  ended : Bool

/-- A `read` that returns `n`, one that fails with `EAGAIN`, and `buf[total] = 0` with the line
behind it. -/
inductive Act where
  | read (n : Nat)
  | again
  | terminate
  deriving DecidableEq, Repr

def step : Act → State → Option State
  | .read n, s =>
    match s.events with
    | [] => none
    | fd :: _ =>
      if 1 ≤ n ∧ n ≤ bufSize ∧ n ≤ (s.queue fd).length then
        some { s with
          queue := Function.update s.queue fd ((s.queue fd).drop n)
          buf := blit s.buf s.total ((s.queue fd).take n)
          total := s.total + n
          stores := s.stores ++ [⟨s.total, n⟩]
          printed := s.printed ++ [.drained fd n] }
      else none
  | .again, s =>
    match s.events with
    | [] => none
    | fd :: events => if s.queue fd = [] then some { s with events := events } else none
  | .terminate, s =>
    if s.events = [] ∧ s.ended = false then
      let buf := blit s.buf s.total [0]
      some { s with
        buf := buf
        stores := s.stores ++ [⟨s.total, 1⟩]
        printed := s.printed ++ [.totalGet s.total (cString buf)]
        ended := true }
    else none

/-- `queue` is queued, `ready` is reported, and `buf` has arbitrary contents. -/
def State.initial (queue : Fd → List UInt8) (ready : Ready) (buf : Vector UInt8 bufSize) : State :=
  ⟨queue, ready.events, buf.toList, 0, [], [], false⟩

def system (queue : Fd → List UInt8) (ready : Ready) : System Act State :=
  .ofStep (fun s => ∃ buf, s = State.initial queue ready buf) step

/-- What the reported pipes hold, in the order of the events. -/
def Ready.bytes (ready : Ready) (queue : Fd → List UInt8) : List UInt8 :=
  ready.events.flatMap queue

/-- Every store so far was to a byte of `buf`. -/
def State.Inside (s : State) : Prop := ∀ r ∈ s.stores, r.off + r.len ≤ bufSize

/-- The drain stays inside its buffer and gathers everything, however `read` splits the bytes. -/
def Drains (queue : Fd → List UInt8) (ready : Ready) : Prop :=
  ∀ s, (system queue ready).Reachable s →
    s.Inside ∧ (s.events = [] → s.buf.take s.total = ready.bytes queue)

/-! ## What is in the buffer -/

/-- The bytes that were queued are in `buf` or still queued, in this order, and nothing is
stored behind `total` but the final NUL. -/
structure State.Gathers (all : List UInt8) (s : State) : Prop where
  nodup : s.events.Nodup
  room : s.total ≤ s.buf.length
  bytes : s.buf.take s.total ++ s.events.flatMap s.queue = all
  stores : ∀ r ∈ s.stores, r.off + r.len ≤ s.total + if s.ended then 1 else 0
  last : s.ended = true → s.events = [] ∧ ⟨s.total, 1⟩ ∈ s.stores

section Steps

variable {queue : Fd → List UInt8} {ready : Ready} {all : List UInt8} {s t : State}

/-- The ways to go on. -/
theorem step_cases {a : Act} (hs : step a s = some t) :
    (∃ n fd events, a = .read n ∧ s.events = fd :: events ∧ 1 ≤ n ∧ n ≤ bufSize ∧
      n ≤ (s.queue fd).length ∧
      t = { s with
        queue := Function.update s.queue fd ((s.queue fd).drop n)
        buf := blit s.buf s.total ((s.queue fd).take n)
        total := s.total + n
        stores := s.stores ++ [⟨s.total, n⟩]
        printed := s.printed ++ [.drained fd n] }) ∨
    (∃ fd events, a = .again ∧ s.events = fd :: events ∧ s.queue fd = [] ∧
      t = { s with events := events }) ∨
    (a = .terminate ∧ s.events = [] ∧ s.ended = false ∧
      t = { s with
        buf := blit s.buf s.total [0]
        stores := s.stores ++ [⟨s.total, 1⟩]
        printed := s.printed ++ [.totalGet s.total (cString (blit s.buf s.total [0]))]
        ended := true }) := by
  cases a with
  | read n =>
    cases he : s.events with
    | nil => simp [step, he] at hs
    | cons fd events =>
      simp only [step, he] at hs
      split at hs
      · next hn =>
        exact Or.inl ⟨n, fd, events, rfl, rfl, hn.1, hn.2.1, hn.2.2, (Option.some.inj hs).symm⟩
      · cases hs
  | again =>
    cases he : s.events with
    | nil => simp [step, he] at hs
    | cons fd events =>
      simp only [step, he] at hs
      split at hs
      · next hq => exact Or.inr (Or.inl ⟨fd, events, rfl, rfl, hq, (Option.some.inj hs).symm⟩)
      · cases hs
  | terminate =>
    simp only [step] at hs
    split at hs
    · next hd => exact Or.inr (Or.inr ⟨rfl, hd.1, hd.2, (Option.some.inj hs).symm⟩)
    · cases hs

/-- Taking bytes from one pipe leaves the others alone. -/
theorem flatMap_update {fd : Fd} {events : List Fd} (h : fd ∉ events) (bytes : List UInt8) :
    events.flatMap (Function.update s.queue fd bytes) = events.flatMap s.queue := by
  refine List.flatMap_congr fun x hx => Function.update_of_ne ?_ _ _
  rintro rfl
  exact h hx

/-- The final NUL is not stored before the last event. -/
theorem State.Gathers.not_ended (h : s.Gathers all) {fd : Fd} {events : List Fd}
    (he : s.events = fd :: events) : s.ended = false := by
  cases hend : s.ended with
  | false => rfl
  | true =>
    rw [(h.last hend).1] at he
    cases he

theorem step_gathers {a : Act} (hs : step a s = some t) (h : s.Gathers all) : t.Gathers all := by
  have hbytes := h.bytes
  have hnodup := h.nodup
  rcases step_cases hs with
    ⟨n, fd, events, -, he, hpos, -, hle, rfl⟩ | ⟨fd, events, -, he, hq, rfl⟩ | ⟨-, he, hend, rfl⟩
  · have hend := h.not_ended he
    have htaken : ((s.queue fd).take n).length = n := List.length_take_of_le hle
    have hroom := le_length_blit s.buf ((s.queue fd).take n) s.total h.room
    have hfront := take_blit_end s.buf ((s.queue fd).take n) s.total h.room
    rw [htaken] at hroom hfront
    refine ⟨hnodup, hroom, ?_, ?_, ?_⟩
    · rw [he] at hbytes hnodup
      simp only [he, hfront, List.flatMap_cons, Function.update_self,
        flatMap_update (List.nodup_cons.mp hnodup).1]
      rw [List.append_assoc, ← List.append_assoc (List.take n _), List.take_append_drop]
      exact hbytes
    · intro r hr
      simp only [hend]
      rcases List.mem_append.mp hr with hr | hr
      · have hold := h.stores r hr
        rw [hend] at hold
        exact Nat.le_trans hold (Nat.add_le_add_right (Nat.le_add_right _ _) _)
      · rw [List.mem_singleton.mp hr]
        exact Nat.le_add_right _ _
    · intro ho
      exact absurd (hend.symm.trans ho) nofun
  · refine ⟨?_, h.room, ?_, h.stores, ?_⟩
    · rw [he] at hnodup
      exact (List.nodup_cons.mp hnodup).2
    · rwa [he, List.flatMap_cons, hq] at hbytes
    · intro ho
      exact absurd ((h.not_ended he).symm.trans ho) nofun
  · have hroom := le_length_blit s.buf [0] s.total h.room
    refine ⟨hnodup, Nat.le_of_succ_le hroom, ?_, ?_, ?_⟩
    · simp only [take_blit_of_le _ _ _ _ (Nat.le_refl _) h.room]
      exact hbytes
    · intro r hr
      rcases List.mem_append.mp hr with hr | hr
      · have hold := h.stores r hr
        rw [hend] at hold
        exact Nat.le_succ_of_le hold
      · rw [List.mem_singleton.mp hr]
        exact Nat.le_refl _
    · intro _
      exact ⟨he, List.mem_append_right _ (List.mem_singleton_self _)⟩

theorem reachable_gathers (hr : (system queue ready).Reachable s) :
    s.Gathers (ready.bytes queue) := by
  refine hr.invariant ?_ fun a s t h hs => step_gathers hs h
  rintro _ ⟨buf, rfl⟩
  exact ⟨ready.nodup, Nat.zero_le _, rfl, nofun, nofun⟩

/-- After the last event `buf` has all the bytes, and `total` is their number. -/
theorem State.Gathers.whole (h : s.Gathers all) (he : s.events = []) :
    s.buf.take s.total = all ∧ s.total = all.length := by
  have hbytes := h.bytes
  rw [he, List.flatMap_nil, List.append_nil] at hbytes
  refine ⟨hbytes, ?_⟩
  rw [← hbytes, List.length_take_of_le h.room]

theorem State.Gathers.total_le (h : s.Gathers all) : s.total ≤ all.length := by
  rw [← h.bytes, List.length_append, List.length_take_of_le h.room]
  exact Nat.le_add_right _ _

/-- With at most 31 bytes there is room for all of them and the final NUL. -/
theorem State.Gathers.inside (h : s.Gathers all) (hlen : all.length ≤ 31) : s.Inside := by
  intro r hmem
  have hstore := h.stores r hmem
  have htotal := h.total_le
  have hone : (if s.ended then 1 else 0) ≤ 1 := by split <;> decide
  unfold bufSize
  omega

end Steps

/-! ## The loops end -/

section Ending

variable {queue : Fd → List UInt8} {ready : Ready} {all : List UInt8} {s t : State}

/-- A bound on the number of steps that are left. -/
def State.work (s : State) : Nat :=
  (s.events.flatMap s.queue).length + s.events.length + if s.ended then 0 else 1

theorem step_work {a : Act} (hs : step a s = some t) (h : s.Gathers all) : t.work < s.work := by
  have hnodup := h.nodup
  rcases step_cases hs with
    ⟨n, fd, events, -, he, hpos, -, hle, rfl⟩ | ⟨fd, events, -, he, hq, rfl⟩ | ⟨-, he, hend, rfl⟩
  · rw [he] at hnodup
    simp only [State.work, he, List.flatMap_cons, List.length_append, Function.update_self,
      List.length_drop, flatMap_update (List.nodup_cons.mp hnodup).1]
    omega
  · simp only [State.work, he, List.flatMap_cons, hq, List.nil_append, List.length_cons]
    omega
  · simp only [State.work, hend]
    exact Nat.lt_succ_self _

/-- Until the end there is a step: a pipe that is not empty gives a byte. -/
theorem exists_step (ho : s.ended = false) : ∃ a t, step a s = some t := by
  cases he : s.events with
  | nil => exact ⟨.terminate, _, if_pos ⟨he, ho⟩⟩
  | cons fd events =>
    cases hq : s.queue fd with
    | nil =>
      have hs : (step .again s).isSome = true := by simp [step, he, hq]
      exact ⟨.again, Option.isSome_iff_exists.mp hs⟩
    | cons b bytes =>
      have hs : (step (.read 1) s).isSome = true := by simp [step, he, hq, bufSize]
      exact ⟨.read 1, Option.isSome_iff_exists.mp hs⟩

theorem reaches_end (hr : (system queue ready).Reachable s) :
    ∃ t, (system queue ready).Reachable t ∧ t.ended = true := by
  induction hw : s.work using Nat.strong_induction_on generalizing s with
  | _ w ih =>
    cases ho : s.ended with
    | true => exact ⟨s, hr, ho⟩
    | false =>
      obtain ⟨a, t, hs⟩ := exists_step ho
      exact ih t.work (hw ▸ step_work hs (reachable_gathers hr)) (hr.next hs) rfl

end Ending

/-- **When the drain stays inside its buffer**: exactly when the reported pipes hold at most 31
bytes together. Otherwise every way through the loops stores behind the end of `buf`. -/
theorem drain_inside_iff (queue : Fd → List UInt8) (ready : Ready) :
    (Drains queue ready ↔ (ready.bytes queue).length ≤ 31) ∧
    (31 < (ready.bytes queue).length →
      ∀ s, (system queue ready).Reachable s → s.ended = true → ¬ s.Inside) := by
  have hend : ∀ s, (system queue ready).Reachable s → s.ended = true → s.Inside →
      (ready.bytes queue).length ≤ 31 := by
    intro s hr ho hin
    have h := reachable_gathers hr
    have hnul : s.total + 1 ≤ 32 := hin _ (h.last ho).2
    have htotal := (h.whole (h.last ho).1).2
    omega
  refine ⟨⟨?_, ?_⟩, ?_⟩
  · intro hdrains
    have h0 : (system queue ready).Reachable
        (State.initial queue ready (Vector.replicate bufSize 0)) := .init ⟨_, rfl⟩
    obtain ⟨s, hr, ho⟩ := reaches_end h0
    exact hend s hr ho (hdrains s hr).1
  · intro hlen s hr
    have h := reachable_gathers hr
    exact ⟨h.inside hlen, fun he => (h.whole he).1⟩
  · intro hlen s hr ho hin
    exact absurd (hend s hr ho hin) (Nat.not_le_of_lt hlen)

/-- Twenty bytes in each pipe. -/
def twentyEach : Fd → List UInt8
  | .pipefd => List.replicate 20 65
  | .pipefd2 => List.replicate 20 66

def bothReady : Ready := ⟨[.pipefd, .pipefd2], by decide⟩

/-- One `read` for each pipe: the second one stores to `buf[20 .. 40)`. -/
theorem second_read_overflows :
    (∃ s, (system twentyEach bothReady).Reachable s ∧ s.stores = [⟨0, 20⟩, ⟨20, 20⟩] ∧
      ¬ s.Inside) ∧ ¬ Drains twentyEach bothReady := by
  have h0 : (system twentyEach bothReady).Reachable
      (State.initial twentyEach bothReady (Vector.replicate bufSize 0)) := .init ⟨_, rfl⟩
  obtain ⟨s, hr, hstores⟩ : ∃ s, (system twentyEach bothReady).Reachable s ∧
      s.stores = [⟨0, 20⟩, ⟨20, 20⟩] := ⟨_, h0.run [.read 20, .again, .read 20] rfl, rfl⟩
  have hout : ¬ s.Inside := by
    intro hin
    unfold State.Inside at hin
    rw [hstores] at hin
    exact absurd (hin ⟨20, 20⟩ (by decide)) (by decide)
  exact ⟨⟨s, hr, hstores, hout⟩, fun hd => hout (hd s hr).1⟩

end LearnLinux.EpollDrain
