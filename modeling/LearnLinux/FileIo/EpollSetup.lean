import LearnLinux.FileIo.EpollDrain
import LearnLinux.Lib.Epoll

/-!
# Edge- and level-triggered pipes in `06_file_io/fileio_demo.c`

`demo_epoll` registers the read ends of two empty pipes, writes to the pipes, calls `epoll_wait`,
writes again without having read anything, and calls `epoll_wait` once more. Only what the second
call reports is drained, by the loop of `EpollDrain`. What is written in the two rounds, in which
order and to which pipes, is given from outside.

`second_wait_reports`: edge-triggered, the second call reports the pipes that the second round has
written to, and what the first round has put into the others stays there; level-triggered, it
reports every pipe that is not empty. The drain of the reported pipes is described where they hold
at most 31 bytes together: with more it leaves its buffer.
-/

namespace LearnLinux.EpollSetup

open Epoll EpollDrain Transition

/-! ## The two rounds -/

/-- What a pipe holds at most. -/
def pipeCapacity : Nat := 65536

/-- The bytes queued in each pipe, and its place in the epoll set. -/
structure Pipes where
  queue : Fd → List UInt8
  item : Fd → Item

/-- A `write` of some bytes to a pipe. A full pipe makes it wait, and nobody reads. -/
abbrev Write := Fd × List UInt8

def write (w : Write) (p : Pipes) : Option Pipes :=
  if (p.queue w.1).length + w.2.length ≤ pipeCapacity then
    some {
      queue := Function.update p.queue w.1 (p.queue w.1 ++ w.2)
      item := if w.2 = [] then p.item else Function.update p.item w.1 (p.item w.1).wake }
  else none

def Pipes.readable (p : Pipes) (fd : Fd) : Bool := p.queue fd ≠ []

/-- Whether `epoll_wait` reports the pipe; it has room for four events. -/
def Pipes.reported (p : Pipes) (fd : Fd) : Bool := (p.item fd).reported (p.readable fd)

/-- After `epoll_wait`. -/
def Pipes.wait (p : Pipes) : Pipes :=
  { p with item := fun fd => (p.item fd).taken (p.readable fd) }

/-- Both pipes are empty when they are registered. -/
def registered (edge : Bool) : Pipes := ⟨fun _ => [], fun _ => .add edge false⟩

/-- The bytes that a round writes to a pipe. -/
def bytesTo (fd : Fd) (ws : List Write) : List UInt8 := (ws.filter fun w => w.1 = fd).flatMap Prod.snd

/-! ## What a round does -/

section Round

variable {p p' : Pipes}

theorem bytesTo_cons (fd : Fd) (w : Write) (ws : List Write) :
    bytesTo fd (w :: ws) = (if w.1 = fd then w.2 else []) ++ bytesTo fd ws := by
  by_cases h : w.1 = fd
  · simp [bytesTo, h]
  · simp [bytesTo, h]

theorem write_queue {w : Write} (hw : write w p = some p') (fd : Fd) :
    p'.queue fd = p.queue fd ++ if w.1 = fd then w.2 else [] := by
  obtain ⟨-, hw⟩ := Option.ite_none_right_eq_some.mp hw
  obtain rfl := Option.some.inj hw
  by_cases h : w.1 = fd
  · subst h
    simp
  · simp [h, Function.update_of_ne (Ne.symm h)]

/-- A pipe goes on the ready list when bytes are written to it, and never leaves it. -/
theorem write_item {w : Write} (hw : write w p = some p') (fd : Fd) :
    p'.item fd =
      ⟨(p.item fd).edge, (p.item fd).queued || decide ((if w.1 = fd then w.2 else []) ≠ [])⟩ := by
  obtain ⟨-, hw⟩ := Option.ite_none_right_eq_some.mp hw
  obtain rfl := Option.some.inj hw
  by_cases hnil : w.2 = []
  · simp [hnil]
  · by_cases h : w.1 = fd
    · subst h
      simp [hnil, Item.wake]
    · simp [hnil, h, Function.update_of_ne (Ne.symm h)]

theorem round_spec (ws : List Write) (hr : runList write ws p = some p') (fd : Fd) :
    p'.queue fd = p.queue fd ++ bytesTo fd ws ∧
      p'.item fd = ⟨(p.item fd).edge, (p.item fd).queued || decide (bytesTo fd ws ≠ [])⟩ := by
  induction ws generalizing p with
  | nil =>
    cases hr
    simp [bytesTo]
  | cons w ws ih =>
    obtain ⟨u, hu, hr⟩ := Option.bind_eq_some_iff.mp hr
    obtain ⟨hqueue, hitem⟩ := ih hr
    rw [hqueue, hitem, write_queue hu, write_item hu, bytesTo_cons]
    refine ⟨List.append_assoc .., ?_⟩
    by_cases hnil : (if w.1 = fd then w.2 else []) = [] <;> simp [hnil]

end Round

/-! ## What is left behind -/

/-- The drain empties what is reported and leaves the rest alone. -/
structure Leaves (queue : Fd → List UInt8) (ready : Ready) (s : State) : Prop where
  events : ∀ fd ∈ s.events, fd ∈ ready.events
  drained : ∀ fd ∈ ready.events, fd ∉ s.events → s.queue fd = []
  others : ∀ fd, fd ∉ ready.events → s.queue fd = queue fd

theorem reachable_leaves {queue : Fd → List UInt8} {ready : Ready} {s : State}
    (hr : (system queue ready).Reachable s) : Leaves queue ready s := by
  refine hr.invariant ?_ fun a s t h hs => ?_
  · rintro _ ⟨buf, rfl⟩
    exact ⟨fun fd hfd => hfd, fun fd hfd hn => absurd hfd hn, fun _ _ => rfl⟩
  rcases step_cases hs with
    ⟨n, fd, events, -, he, -, -, -, rfl⟩ | ⟨fd, events, -, he, hq, rfl⟩ | ⟨-, he, -, rfl⟩
  · have hmem : fd ∈ s.events := by
      rw [he]
      exact List.mem_cons_self
    refine ⟨h.events, fun x hx hn => ?_, fun x hx => ?_⟩
    · have hne : x ≠ fd := fun heq => hn (heq ▸ hmem)
      exact (Function.update_of_ne hne _ _).trans (h.drained x hx hn)
    · have hne : x ≠ fd := fun heq => hx (h.events x (heq ▸ hmem))
      exact (Function.update_of_ne hne _ _).trans (h.others x hx)
  · refine ⟨fun x hx => ?_, fun x hx hn => ?_, h.others⟩
    · exact h.events x (by rw [he]; exact List.mem_cons_of_mem fd hx)
    · by_cases hx' : x = fd
      · rw [hx']
        exact hq
      · refine h.drained x hx fun hmem => ?_
        rw [he] at hmem
        rcases List.mem_cons.mp hmem with heq | hmem
        · exact hx' heq
        · exact hn hmem
  · exact ⟨h.events, h.drained, h.others⟩

/-- **What the second `epoll_wait` reports**, for all writes of the two rounds that do not wait,
and what the drain of it gathers and leaves behind when that fits its buffer. -/
theorem second_wait_reports (edge : Bool) (first second : List Write) (p₁ p₂ : Pipes)
    (h₁ : runList write first (registered edge) = some p₁)
    (h₂ : runList write second p₁.wait = some p₂) (ready : Ready)
    (hready : ∀ fd, fd ∈ ready.events ↔ p₂.reported fd = true) :
    (∀ fd, p₁.reported fd = true ↔ bytesTo fd first ≠ []) ∧
    (∀ fd, fd ∈ ready.events ↔
      bytesTo fd second ≠ [] ∨ edge = false ∧ bytesTo fd first ≠ []) ∧
    ((ready.events.flatMap fun fd => bytesTo fd first ++ bytesTo fd second).length ≤ 31 →
      (∃ s, (system p₂.queue ready).Reachable s ∧ s.ended = true) ∧
      ∀ s, (system p₂.queue ready).Reachable s →
        s.Inside ∧
        (s.ended = true →
          s.buf.take s.total =
            ready.events.flatMap (fun fd => bytesTo fd first ++ bytesTo fd second) ∧
          (∀ fd ∈ ready.events, s.queue fd = []) ∧
          ∀ fd, fd ∉ ready.events → s.queue fd = bytesTo fd first)) := by
  have hfirst : ∀ fd, p₁.reported fd = decide (bytesTo fd first ≠ []) := by
    intro fd
    obtain ⟨hqueue, hitem⟩ := round_spec first h₁ fd
    rw [Pipes.reported, Pipes.readable, hqueue, hitem]
    exact Bool.and_self _
  have hqueue₁ : ∀ fd, p₁.queue fd = bytesTo fd first := fun fd => (round_spec first h₁ fd).1
  have hqueue₂ : ∀ fd, p₂.queue fd = bytesTo fd first ++ bytesTo fd second := by
    intro fd
    rw [(round_spec second h₂ fd).1]
    exact congrArg (· ++ bytesTo fd second) (hqueue₁ fd)
  have hitem : ∀ fd, (p₂.item fd).queued =
      (decide (bytesTo fd first ≠ []) && !edge || decide (bytesTo fd second ≠ [])) := by
    intro fd
    rw [(round_spec second h₂ fd).2, ← hfirst fd]
    have hedge : (p₁.item fd).edge = edge := by
      rw [(round_spec first h₁ fd).2]
      rfl
    simp only [Pipes.wait, Item.taken, hedge]
    rfl
  have hreported : ∀ fd, fd ∈ ready.events ↔
      bytesTo fd second ≠ [] ∨ edge = false ∧ bytesTo fd first ≠ [] := by
    intro fd
    rw [hready fd, Pipes.reported, Item.reported, hitem, Pipes.readable, hqueue₂]
    cases edge <;> simp <;> tauto
  have hbytes : ready.bytes p₂.queue =
      ready.events.flatMap fun fd => bytesTo fd first ++ bytesTo fd second :=
    List.flatMap_congr fun fd _ => hqueue₂ fd
  rw [← hbytes]
  refine ⟨fun fd => by rw [hfirst fd, decide_eq_true_iff], hreported, fun hlen => ⟨?_, ?_⟩⟩
  · exact reaches_end (.init ⟨Vector.replicate bufSize 0, rfl⟩)
  intro s hr
  have hgathers := reachable_gathers hr
  refine ⟨hgathers.inside hlen, fun hend => ?_⟩
  have hleaves := reachable_leaves hr
  have hdone := (hgathers.last hend).1
  refine ⟨(hgathers.whole hdone).1, fun fd hfd => ?_, fun fd hfd => ?_⟩
  · exact hleaves.drained fd hfd (by rw [hdone]; exact List.not_mem_nil)
  · have hnil : bytesTo fd second = [] := by
      by_contra hne
      exact hfd ((hreported fd).mpr (.inl hne))
    rw [hleaves.others fd hfd, hqueue₂ fd, hnil, List.append_nil]

/-- The writes of the demo itself: edge-triggered, the ten bytes of the first pipe are read and
the six bytes of the second one are not. -/
theorem second_wait_reports_hello :
    ∃ p₁ p₂, runList write [(.pipefd, [72, 101, 108, 108, 111]),
        (.pipefd2, [72, 101, 108, 108, 111, 50])] (registered true) = some p₁ ∧
      runList write [(.pipefd, [87, 111, 114, 108, 100])] p₁.wait = some p₂ ∧
      ∃ s, (system p₂.queue ⟨[.pipefd], by decide⟩).Reachable s ∧ s.Inside ∧
        s.buf.take s.total = [72, 101, 108, 108, 111, 87, 111, 114, 108, 100] ∧
        s.queue .pipefd2 = [72, 101, 108, 108, 111, 50] := by
  refine ⟨_, _, rfl, rfl, ?_⟩
  obtain ⟨⟨s, hr, hend⟩, hall⟩ := (second_wait_reports true [(.pipefd, [72, 101, 108, 108, 111]),
    (.pipefd2, [72, 101, 108, 108, 111, 50])] [(.pipefd, [87, 111, 114, 108, 100])] _ _ rfl rfl
    ⟨[.pipefd], by decide⟩ (fun fd => by cases fd <;> decide)).2.2 (by decide)
  obtain ⟨hin, hcontents⟩ := hall s hr
  obtain ⟨hbuf, -, hothers⟩ := hcontents hend
  exact ⟨s, hr, hin, hbuf, hothers .pipefd2 (by decide)⟩

end LearnLinux.EpollSetup
