import LearnLinux.Lib.CString
import LearnLinux.Lib.Transition

/-!
# The anonymous pipe of `03_ipc/pipe_demo.c`

`demo_anon_pipe` forks; the parent writes a message into the pipe and the child reads until
the end of the file. After `fork` both processes have both ends open, and each closes the end
it does not use. The pipe holds at most `cap` bytes. A `write` puts its bytes in as they fit
and returns when all are in; a `read` returns some of the bytes, or 0 once the pipe is empty
and no write end is open in either process, and waits otherwise. A `write` without an open
read end kills the parent with `SIGPIPE`.

`anon_pipe_delivers`: while no `read` fails the child prints the message piece by piece and
stops only behind its end, the parent is never killed, and some process can go on until both
are done.
-/

namespace LearnLinux.AnonPipe

open CString Segment Transition

/-! ## The two processes -/

/-- `sizeof(buf)` in the child. -/
def bufSize : Nat := 128

/-- The next call of the parent; `write rest` is the `write` with `rest` still to go. -/
inductive Parent where
  | closeRead
  | write (rest : List UInt8)
  | closeWrite
  | waitpid
  | done
  | killed
  deriving DecidableEq, Repr

/-- The next call of the child; `print n` follows a `read` that returned `n`. -/
inductive Child where
  | closeWrite
  | read
  | print (n : Nat)
  | closeRead
  | exit
  | exited
  deriving DecidableEq, Repr

/-- The bytes in the pipe, the ends that each process has open, the processes, and what the
child has printed: its chunks, and whether it said `EOF received`. -/
structure State where
  data : List UInt8
  parentRead : Bool
  parentWrite : Bool
  childRead : Bool
  childWrite : Bool
  parent : Parent
  child : Child
  buf : List UInt8
  printed : List (List UInt8)
  eof : Bool

inductive Act where
  | parent
  | child
  | fail
  deriving DecidableEq, Repr

inductive Step (cap : Nat) (message : List UInt8) : Act → State → State → Prop
  | parentClose {s : State} : s.parent = .closeRead →
      Step cap message .parent s
        { s with parentRead := false, parent := .write (cString message) }
  | write {s : State} {rest : List UInt8} {n : Nat} : s.parent = .write rest →
      s.parentRead = true ∨ s.childRead = true → 1 ≤ n → n ≤ rest.length →
      s.data.length + n ≤ cap →
      Step cap message .parent s
        { s with data := s.data ++ rest.take n, parent := .write (rest.drop n) }
  | sigpipe {s : State} {rest : List UInt8} : s.parent = .write rest → rest ≠ [] →
      s.parentRead = false → s.childRead = false →
      Step cap message .parent s
        { s with parentRead := false, parentWrite := false, parent := .killed }
  | written {s : State} : s.parent = .write [] →
      Step cap message .parent s { s with parent := .closeWrite }
  | parentEnd {s : State} : s.parent = .closeWrite →
      Step cap message .parent s { s with parentWrite := false, parent := .waitpid }
  | wait {s : State} : s.parent = .waitpid → s.child = .exited →
      Step cap message .parent s { s with parent := .done }
  | childClose {s : State} : s.child = .closeWrite →
      Step cap message .child s { s with childWrite := false, child := .read }
  | read {s : State} {n : Nat} : s.child = .read → 1 ≤ n → n ≤ bufSize - 1 → n ≤ s.data.length →
      Step cap message .child s
        { s with
          data := s.data.drop n
          buf := blit s.buf 0 (s.data.take n)
          child := .print n }
  | eof {s : State} : s.child = .read → s.data = [] → s.parentWrite = false →
      s.childWrite = false → Step cap message .child s { s with child := .closeRead, eof := true }
  | fail {s : State} : s.child = .read →
      Step cap message .fail s { s with child := .closeRead }
  | print {s : State} {n : Nat} : s.child = .print n →
      Step cap message .child s
        { s with
          buf := blit s.buf n [0]
          printed := s.printed ++ [cString (blit s.buf n [0])]
          child := .read }
  | childEnd {s : State} : s.child = .closeRead →
      Step cap message .child s { s with childRead := false, child := .exit }
  | exit {s : State} : s.child = .exit → Step cap message .child s { s with child := .exited }

/-- After `fork`, with an array of arbitrary contents in the child. -/
def system (cap : Nat) (message : List UInt8) : System Act State where
  init s := ∃ buf, buf.length = bufSize ∧
    s = ⟨[], true, true, true, true, .closeRead, .closeWrite, buf, [], false⟩
  step := Step cap message

/-- No `read` returns -1. -/
def ReadsWork (a : Act) (_ : State) : Prop := a ≠ .fail

/-! ## Where the bytes are -/

def Parent.hasRead : Parent → Bool
  | .closeRead => true
  | _ => false

def Parent.hasWrite : Parent → Bool
  | .closeRead | .write _ | .closeWrite => true
  | _ => false

def Child.hasRead : Child → Bool
  | .exit | .exited => false
  | _ => true

def Child.hasWrite : Child → Bool
  | .closeWrite => true
  | _ => false

/-- The child has left its loop. -/
def Child.ended : Child → Bool
  | .closeRead | .exit | .exited => true
  | _ => false

/-- What the parent has not written yet. -/
def Parent.unsent (message : List UInt8) : Parent → List UInt8
  | .closeRead => cString message
  | .write rest => rest
  | _ => []

/-- What the child has read and not printed yet. -/
def Child.inHand (buf : List UInt8) : Child → List UInt8
  | .print n => buf.take n
  | _ => []

/-- The ends are open as the processes have left them; the bytes of the message are
printed, in the hands of the child, in the pipe or unsent, in this order; and the child has
left its loop only behind the last of them. -/
structure State.Flows (message : List UInt8) (s : State) : Prop where
  parentEnds : s.parentRead = s.parent.hasRead ∧ s.parentWrite = s.parent.hasWrite
  childEnds : s.childRead = s.child.hasRead ∧ s.childWrite = s.child.hasWrite
  stream : s.printed.flatten ++ s.child.inHand s.buf ++ s.data ++ s.parent.unsent message = message
  buffer : s.buf.length = bufSize
  read : ∀ n, s.child = .print n → n ≤ bufSize - 1
  ended : s.child.ended = true → s.data = [] ∧ (s.parent = .waitpid ∨ s.parent = .done)
  eof : s.eof = true → s.child.ended = true
  alive : s.parent ≠ .killed

section Steps

variable {cap : Nat} {message : List UInt8} {s : State}

/-- While the parent has its write end the child is in its loop. -/
theorem State.Flows.looping (h : s.Flows message) (hp : s.parent.hasWrite = true) :
    s.child.ended ≠ true := by
  intro hended
  rcases (h.ended hended).2 with hw | hd
  · rw [hw] at hp
    cases hp
  · rw [hd] at hp
    cases hp

/-- In its loop the child has not seen the end of the file. -/
theorem State.Flows.no_eof (h : s.Flows message) (hc : s.child.ended ≠ true) : s.eof ≠ true :=
  fun he => hc (h.eof he)

/-- The read end is open while the parent writes. -/
theorem State.Flows.reader (h : s.Flows message) (hp : s.parent.hasWrite = true) :
    s.childRead = true := by
  have hloop := h.looping hp
  rw [h.childEnds.1]
  cases hc : s.child with
  | exit | exited =>
    rw [hc] at hloop
    exact absurd rfl hloop
  | closeWrite | read | print n | closeRead => rfl

/-- A chunk of a message without NUL is printed as it is. -/
theorem State.Flows.chunk (h : s.Flows message) (h0 : 0 ∉ message) {n : Nat}
    (hc : s.child = .print n) :
    (blit s.buf n [0]).length = bufSize ∧ cString (blit s.buf n [0]) = s.buf.take n := by
  have hn := h.read n hc
  have hbuf := h.buffer
  have hpos : 0 < bufSize := by decide
  constructor
  · rw [length_blit _ _ _ (by rw [List.length_singleton]; omega), hbuf]
  · have hnul : 0 ∉ s.buf.take n := by
      intro hmem
      apply h0
      rw [← h.stream, hc]
      simp only [Child.inHand, List.mem_append]
      exact Or.inl (Or.inl (Or.inr hmem))
    rw [blit, List.append_assoc, List.singleton_append, cString_append_nul,
      cString_eq_self_iff.mpr hnul]

theorem step_flows {a : Act} {t : State} (h0 : 0 ∉ message) (hs : Step cap message a s t)
    (ha : a ≠ .fail) (h : s.Flows message) : t.Flows message := by
  have hstream := h.stream
  cases hs with
  | parentClose hp =>
    have hloop := h.looping (by rw [hp]; rfl)
    rw [hp] at hstream
    refine ⟨⟨rfl, ?_⟩, h.childEnds, hstream, h.buffer, h.read, fun he => absurd he hloop, h.eof,
      nofun⟩
    rw [h.parentEnds.2, hp]
    rfl
  | @write _ rest n hp _ hn hle hfit =>
    have hloop := h.looping (by rw [hp]; rfl)
    have hends := h.parentEnds
    rw [hp] at hstream hends
    refine ⟨hends, h.childEnds, ?_, h.buffer, h.read, fun he => absurd he hloop, h.eof, nofun⟩
    simp only [Parent.unsent, List.append_assoc, List.take_append_drop] at hstream ⊢
    exact hstream
  | sigpipe hp _ _ hclosed =>
    rw [h.reader (by rw [hp]; rfl)] at hclosed
    cases hclosed
  | written hp =>
    have hloop := h.looping (by rw [hp]; rfl)
    have hends := h.parentEnds
    rw [hp] at hstream hends
    exact ⟨hends, h.childEnds, hstream, h.buffer, h.read, fun he => absurd he hloop, h.eof, nofun⟩
  | parentEnd hp =>
    have hloop := h.looping (by rw [hp]; rfl)
    have hends := h.parentEnds
    rw [hp] at hstream hends
    exact ⟨⟨hends.1, rfl⟩, h.childEnds, hstream, h.buffer, h.read, fun he => absurd he hloop, h.eof,
      nofun⟩
  | wait hp hc =>
    have hends := h.parentEnds
    rw [hp] at hstream hends
    refine ⟨hends, h.childEnds, hstream, h.buffer, h.read, ?_, h.eof, nofun⟩
    intro hended
    exact ⟨(h.ended hended).1, Or.inr rfl⟩
  | childClose hc =>
    have hends := h.childEnds
    rw [hc] at hstream hends
    have hno := h.no_eof (by rw [hc]; nofun)
    exact ⟨h.parentEnds, ⟨hends.1, rfl⟩, hstream, h.buffer, nofun, nofun, fun he => absurd he hno,
      h.alive⟩
  | @read _ n hc hpos hsize hle =>
    have hends := h.childEnds
    rw [hc] at hstream hends
    have htaken : (s.data.take n).length = n := List.length_take_of_le hle
    have hbuf := h.buffer
    have hin : (blit s.buf 0 (s.data.take n)).take n = s.data.take n := by
      have hend := take_blit_end s.buf (s.data.take n) 0 (Nat.zero_le _)
      rwa [Nat.zero_add, htaken, List.take_zero, List.nil_append] at hend
    have hno := h.no_eof (by rw [hc]; nofun)
    refine ⟨h.parentEnds, hends, ?_, ?_, ?_, nofun, fun he => absurd he hno, h.alive⟩
    · simp only [Child.inHand, hin, List.append_assoc, List.append_nil] at hstream ⊢
      rw [← List.append_assoc (s.data.take n), List.take_append_drop]
      exact hstream
    · have hpos : 0 < bufSize := by decide
      simp only
      rw [length_blit _ _ _ (by rw [htaken]; omega), hbuf]
    · rintro m ⟨⟩
      exact hsize
  | eof hc hdata hpw hcw =>
    have hends := h.childEnds
    rw [hc] at hstream hends
    refine ⟨h.parentEnds, hends, hstream, h.buffer, nofun, fun _ => ⟨hdata, ?_⟩, fun _ => rfl,
      h.alive⟩
    rw [h.parentEnds.2] at hpw
    cases hp : s.parent with
    | waitpid => exact Or.inl rfl
    | done => exact Or.inr rfl
    | killed => exact absurd hp h.alive
    | closeRead | write rest | closeWrite =>
      rw [hp] at hpw
      cases hpw
  | fail hc => exact absurd rfl ha
  | @print _ n hc =>
    obtain ⟨hlen, hchunk⟩ := h.chunk h0 hc
    have hends := h.childEnds
    rw [hc] at hstream hends
    have hno := h.no_eof (by rw [hc]; nofun)
    refine ⟨h.parentEnds, hends, ?_, hlen, nofun, nofun, fun he => absurd he hno, h.alive⟩
    simp only [Child.inHand, hchunk, List.flatten_append, List.flatten_singleton,
      List.append_nil] at hstream ⊢
    exact hstream
  | childEnd hc =>
    have hends := h.childEnds
    rw [hc] at hstream hends
    have hended := h.ended (by rw [hc]; rfl)
    exact ⟨h.parentEnds, ⟨rfl, hends.2⟩, hstream, h.buffer, nofun, fun _ => hended, fun _ => rfl,
      h.alive⟩
  | exit hc =>
    have hends := h.childEnds
    rw [hc] at hstream hends
    have hended := h.ended (by rw [hc]; rfl)
    exact ⟨h.parentEnds, hends, hstream, h.buffer, nofun, fun _ => hended, fun _ => rfl, h.alive⟩

theorem reachable_flows (h0 : 0 ∉ message)
    (hr : ((system cap message).guarded ReadsWork).Reachable s) : s.Flows message := by
  induction hr with
  | init hi =>
    obtain ⟨buf, hbuf, rfl⟩ := hi
    exact ⟨⟨rfl, rfl⟩, ⟨rfl, rfl⟩, cString_eq_self_iff.mpr h0, hbuf, nofun, nofun, nofun, nofun⟩
  | next _ hs ih => exact step_flows h0 hs.2 hs.1 ih

end Steps

/-! ## Progress and termination -/

section Progress

variable {cap : Nat} {message : List UInt8} {s : State}

/-- The parent can go on when the pipe is empty, until it has closed its write end. -/
theorem parent_moves (hcap : 1 ≤ cap) (h : s.Flows message) (hdata : s.data = [])
    (hp : s.parent.hasWrite = true) : ∃ t, Step cap message .parent s t := by
  cases hpar : s.parent with
  | closeRead => exact ⟨_, .parentClose hpar⟩
  | write rest =>
    cases rest with
    | nil => exact ⟨_, .written hpar⟩
    | cons b rest =>
      refine ⟨_, .write (n := 1) hpar (Or.inr (h.reader hp)) (Nat.le_refl _) (by simp) ?_⟩
      rw [hdata]
      exact hcap
  | closeWrite => exact ⟨_, .parentEnd hpar⟩
  | waitpid | done | killed =>
    rw [hpar] at hp
    cases hp

theorem some_process_moves (hcap : 1 ≤ cap) (h : s.Flows message)
    (hd : ¬ (s.parent = .done ∧ s.child = .exited)) :
    (∃ t, Step cap message .parent s t) ∨ ∃ t, Step cap message .child s t := by
  cases hc : s.child with
  | closeWrite => exact Or.inr ⟨_, .childClose hc⟩
  | print n => exact Or.inr ⟨_, .print hc⟩
  | closeRead => exact Or.inr ⟨_, .childEnd hc⟩
  | exit => exact Or.inr ⟨_, .exit hc⟩
  | read =>
    cases hdata : s.data with
    | cons b data =>
      refine Or.inr ⟨_, .read (n := 1) hc (Nat.le_refl _) (by decide) ?_⟩
      rw [hdata]
      exact Nat.le_add_left 1 _
    | nil =>
      cases hp : s.parent.hasWrite with
      | true => exact Or.inl (parent_moves hcap h hdata hp)
      | false =>
        refine Or.inr ⟨_, .eof hc hdata (h.parentEnds.2.trans hp) ?_⟩
        rw [h.childEnds.2, hc]
        rfl
  | exited =>
    rcases (h.ended (by rw [hc]; rfl)).2 with hw | hdone
    · exact Or.inl ⟨_, .wait hw hc⟩
    · exact absurd ⟨hdone, hc⟩ hd

/-- The calls that a process has in front of it, apart from the loops. -/
def Parent.stage : Parent → Nat
  | .closeRead => 4
  | .write _ => 3
  | .closeWrite => 2
  | .waitpid => 1
  | .done => 0
  | .killed => 0

def Child.stage : Child → Nat
  | .closeWrite => 4
  | .print _ => 4
  | .read => 3
  | .closeRead => 2
  | .exit => 1
  | .exited => 0

/-- A bound on the number of steps that are left. -/
def State.work (message : List UInt8) (s : State) : Nat :=
  3 * (s.parent.unsent message).length + 2 * s.data.length + s.parent.stage + s.child.stage

theorem step_work {a : Act} {t : State} (hs : Step cap message a s t) :
    t.work message < s.work message := by
  cases hs with
  | write hp _ hn hle _ =>
    simp only [State.work, hp, Parent.unsent, Parent.stage, List.length_append, List.length_take,
      List.length_drop]
    omega
  | read hc hn _ hle =>
    simp only [State.work, hc, Child.stage, List.length_drop]
    omega
  | sigpipe hp _ _ _ =>
    simp only [State.work, hp, Parent.unsent, Parent.stage, List.length_nil]
    omega
  | parentClose hp | written hp | parentEnd hp | wait hp _ =>
    simp only [State.work, hp, Parent.unsent, Parent.stage]
    omega
  | childClose hc | eof hc _ _ _ | fail hc | print hc | childEnd hc | exit hc =>
    simp only [State.work, hc, Child.stage]
    omega

end Progress

/-- **The transfer is complete and ends**, for every capacity, every message without NUL and
every interleaving. -/
theorem anon_pipe_delivers (cap : Nat) (hcap : 1 ≤ cap) (message : List UInt8) (h0 : 0 ∉ message)
    {s : State} (hr : ((system cap message).guarded ReadsWork).Reachable s) :
    s.printed.flatten <+: message ∧
    (s.eof = true → s.printed.flatten = message) ∧
    (s.parent ≠ .killed ∧ ∀ rest, s.parent = .write rest →
      s.parentRead = true ∨ s.childRead = true) ∧
    (¬ (s.parent = .done ∧ s.child = .exited) →
      (∃ t, Step cap message .parent s t) ∨ ∃ t, Step cap message .child s t) ∧
    ∀ a t, Step cap message a s t → t.work message < s.work message := by
  have h := reachable_flows h0 hr
  have hstream := h.stream
  refine ⟨?_, ?_, ⟨h.alive, ?_⟩, some_process_moves hcap h, fun a t => step_work⟩
  · rw [← hstream, List.append_assoc, List.append_assoc]
    exact List.prefix_append _ _
  · intro he
    have hended := h.eof he
    obtain ⟨hdata, hp⟩ := h.ended hended
    have hunsent : s.parent.unsent message = [] := by
      rcases hp with hp | hp <;> rw [hp] <;> rfl
    have hhand : s.child.inHand s.buf = [] := by
      cases hc : s.child with
      | print n =>
        rw [hc] at hended
        cases hended
      | closeWrite | read | closeRead | exit | exited => rfl
    rwa [hdata, hunsent, hhand, List.append_nil, List.append_nil, List.append_nil] at hstream
  · intro rest hp
    exact Or.inr (h.reader (by rw [hp]; rfl))

/-- Two bytes through a pipe of one: the second is written when the child has read the first. -/
theorem hi_through_one_byte :
    ∃ s, ((system 1 [104, 105]).guarded ReadsWork).Reachable s ∧ s.eof = true ∧
      s.printed = [[104], [105]] ∧ s.printed.flatten = [104, 105] := by
  have h0 : ((system 1 [104, 105]).guarded ReadsWork).Reachable
      ⟨[], true, true, true, true, .closeRead, .closeWrite, List.replicate bufSize 0, [], false⟩ :=
    .init ⟨_, rfl, rfl⟩
  have h1 := h0.nextGuarded (.parentClose rfl) nofun
  have h2 := h1.nextGuarded (.write (n := 1) rfl (Or.inr rfl) (by decide) (by decide) (by decide))
    nofun
  have h3 := h2.nextGuarded (.childClose rfl) nofun
  have h4 := h3.nextGuarded (.read (n := 1) rfl (by decide) (by decide) (by decide)) nofun
  have h5 := h4.nextGuarded (.write (n := 1) rfl (Or.inr rfl) (by decide) (by decide) (by decide))
    nofun
  have h6 := h5.nextGuarded (.print rfl) nofun
  have h7 := h6.nextGuarded (.written rfl) nofun
  have h8 := h7.nextGuarded (.parentEnd rfl) nofun
  have h9 := h8.nextGuarded (.read (n := 1) rfl (by decide) (by decide) (by decide)) nofun
  have h10 := h9.nextGuarded (.print rfl) nofun
  have h11 := h10.nextGuarded (.eof rfl rfl rfl rfl) nofun
  exact ⟨_, h11, rfl, by decide, (anon_pipe_delivers 1 (by decide) _ (by decide) h11).2.1 rfl⟩

end LearnLinux.AnonPipe
