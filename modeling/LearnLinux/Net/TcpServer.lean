import LearnLinux.Lib.CString
import LearnLinux.Lib.Handles
import LearnLinux.Lib.Transition

/-!
# The epoll server of `07_networking/tcp_server.c`

`main` waits for a batch of events and handles them one after another. Handling an
event may close its descriptor, and `accept4` may hand the same number out again
before the rest of the batch is done. The model has the descriptor table, where a
file has an identity of its own, the interest list, and the results of the system
calls as inputs. Every `recv`, `send`, `epoll_ctl(DEL)` and `close` is recorded with
the event it was made for and with the file the descriptor denoted at that moment.
What the server prints is left out.

* `no_stale_descriptor`: the two always agree.
* `no_descriptor_leak`: the open client descriptors are the watched ones as long as
  every accepted connection is registered.
-/

namespace LearnLinux.TcpServer

open CString Handles Transition

/-! ## Data -/

/-- `MAX_EVENTS`. -/
def maxEvents : Nat := 64

/-- `BUF_SIZE`. -/
def bufSize : Nat := 1024

def EPOLLERR : UInt32 := 0x008
def EPOLLHUP : UInt32 := 0x010
def EPOLLRDHUP : UInt32 := 0x2000

/-- What a descriptor denotes. Connections are numbered in the order of `accept4`. -/
inductive File where
  | listener
  | conn (id : Nat)
  | other
  deriving DecidableEq, Repr

/-- An `epoll_event`; `file` is what `fd` denoted when `epoll_wait` reported it. -/
structure Event where
  fd : Nat
  events : UInt32
  file : File
  deriving DecidableEq, Repr

/-- The result of `accept4` with that of the `epoll_ctl(ADD)` that follows. -/
inductive Accept where
  | ok (cfd : Nat) (added : Bool)
  | error (errno : Nat)
  deriving DecidableEq, Repr

inductive Recv where
  | data (chunk : List UInt8)
  | eof
  | error (errno : Nat)
  deriving DecidableEq, Repr

inductive Send where
  | accepted (n : Nat)
  | error (errno : Nat)
  deriving DecidableEq, Repr

/-- The system calls on the descriptor of an event. -/
inductive Op where
  | recv (r : Recv)
  | send (data : List UInt8) (r : Send)
  | del (ok : Bool)
  | close
  deriving DecidableEq, Repr

/-- A system call, the event it was made for, and what the descriptor denoted. -/
structure Access where
  op : Op
  fd : Nat
  event : Event
  target : Option File
  deriving DecidableEq, Repr

/-- The descriptor table, the interest list, the number of the next connection, and
the record of the calls. -/
structure World where
  files : Nat → Option File
  interest : Nat → Bool
  nextConn : Nat
  trace : List Access

/-! ## System calls -/

def World.access (w : World) (op : Op) (fd : Nat) (e : Event) : World :=
  { w with trace := w.trace ++ [⟨op, fd, e, w.files fd⟩] }

/-- `epoll_ctl(epfd, EPOLL_CTL_DEL, fd, NULL)`; `ok` is whether it succeeds. -/
def World.epollDel (w : World) (fd : Nat) (e : Event) (ok : Bool) : World :=
  { w.access (.del ok) fd e with
    interest := if ok then Function.update w.interest fd false else w.interest }

/-- `close(fd)`, which also takes `fd` off the interest list. -/
def World.close (w : World) (fd : Nat) (e : Event) : World :=
  { w.access .close fd e with
    files := Function.update w.files fd none
    interest := Function.update w.interest fd false }

/-! ## The handlers -/

def handleNewConnection (w : World) : Accept → World
  | .error _ => w
  | .ok cfd added =>
    { w with
      files := Function.update w.files cfd (some (.conn w.nextConn))
      interest := Function.update w.interest cfd added
      nextConn := w.nextConn + 1 }

/-- What `handle_client` sends for the bytes received: `%s` reads `buf` up to the
first NUL, and `rlen` counts the whole text. -/
def reply (chunk : List UInt8) : List UInt8 :=
  let buf := chunk ++ [0]
  let text := bytes "ECHO: " ++ cString buf
  let resp := snprintf (List.replicate (bufSize + 16) 0) (bufSize + 16) text
  resp.take text.length

def handleClient (w : World) (cfd : Nat) (e : Event) (r : Recv) (sent : Send) (del : Bool) :
    World :=
  let w := w.access (.recv r) cfd e
  match r with
  | .data chunk => w.access (.send (reply chunk) sent) cfd e
  | .eof => (w.epollDel cfd e del).close cfd e
  | .error _ => (w.epollDel cfd e del).close cfd e

/-- The results of the system calls made for one event. -/
structure Outcome where
  accept : Accept
  recv : Recv
  send : Send
  del : Bool

/-- The body of the `for` loop of `main`. -/
def loopBody (sfd : Nat) (w : World) (e : Event) (o : Outcome) : World :=
  if e.fd = sfd then handleNewConnection w o.accept
  else if e.events &&& (EPOLLRDHUP ||| EPOLLHUP ||| EPOLLERR) ≠ 0 then
    (w.epollDel e.fd e o.del).close e.fd e
  else handleClient w e.fd e o.recv o.send o.del

/-! ## Runs of the event loop -/

/-- The world and the events of the batch that are still to be handled. -/
structure State where
  world : World
  pending : List Event

/-- What the kernel promises: `accept4` returns a number that is not open, and `recv`
between one byte and the size it was given. -/
def World.Permits (w : World) (o : Outcome) : Prop :=
  (∀ cfd added, o.accept = .ok cfd added → w.files cfd = none) ∧
    ∀ chunk, o.recv = .data chunk → 1 ≤ chunk.length ∧ chunk.length ≤ bufSize - 1

inductive Act where
  | wait (batch : List Event)
  | handle (o : Outcome)

inductive Step (sfd : Nat) : Act → State → State → Prop
  | wait {s : State} {batch : List Event} : s.pending = [] → batch.length ≤ maxEvents →
      (batch.map Event.fd).Nodup →
      (∀ e ∈ batch, s.world.interest e.fd = true ∧ s.world.files e.fd = some e.file) →
      Step sfd (.wait batch) s { s with pending := batch }
  | handle {s : State} {e : Event} {rest : List Event} {o : Outcome} : s.pending = e :: rest →
      s.world.Permits o → Step sfd (.handle o) s ⟨loopBody sfd s.world e o, rest⟩

/-- The loop starts with the listening socket, on the interest list or not, and with
descriptors that are no sockets. -/
def system (sfd : Nat) : System Act State where
  init s := s.world.files sfd = some .listener ∧ (∀ fd, s.world.interest fd = true → fd = sfd) ∧
    (∀ fd id, s.world.files fd ≠ some (.conn id)) ∧ s.world.trace = [] ∧ s.pending = []
  step := Step sfd

/-! ## What handling one event can do -/

/-- The files closed so far, in order. -/
def closedFiles (trace : List Access) : List File :=
  trace.filterMap fun a => if a.op = .close then a.target else none

theorem closedFiles_append (s t : List Access) :
    closedFiles (s ++ t) = closedFiles s ++ closedFiles t :=
  List.filterMap_append

/-- The calls made for an event whose descriptor denotes `target`. -/
def callsFor (sfd : Nat) (e : Event) (o : Outcome) (target : Option File) : List Access :=
  if e.fd = sfd then []
  else if e.events &&& (EPOLLRDHUP ||| EPOLLHUP ||| EPOLLERR) ≠ 0 then
    [⟨.del o.del, e.fd, e, target⟩, ⟨.close, e.fd, e, target⟩]
  else match o.recv with
    | .data chunk =>
      [⟨.recv (.data chunk), e.fd, e, target⟩, ⟨.send (reply chunk) o.send, e.fd, e, target⟩]
    | r => [⟨.recv r, e.fd, e, target⟩, ⟨.del o.del, e.fd, e, target⟩, ⟨.close, e.fd, e, target⟩]

theorem loopBody_trace (sfd : Nat) (w : World) (e : Event) (o : Outcome) :
    (loopBody sfd w e o).trace = w.trace ++ callsFor sfd e o (w.files e.fd) := by
  unfold loopBody callsFor
  split
  · rw [List.append_nil]
    cases o.accept <;> rfl
  · split
    · exact List.append_assoc _ _ _
    · unfold handleClient
      cases o.recv with
      | data chunk => exact List.append_assoc _ _ _
      | eof => exact (List.append_assoc _ _ _).trans (List.append_assoc _ _ _)
      | error errno => exact (List.append_assoc _ _ _).trans (List.append_assoc _ _ _)

/-- The calls are made on the descriptor of `e`, for `e`. -/
def MadeFor (w : World) (e : Event) (calls : List Access) : Prop :=
  ∀ a ∈ calls, a.fd = e.fd ∧ a.event = e ∧ a.target = w.files e.fd

/-- Nothing, a new connection, calls on the descriptor of the event, or such calls
with a `close` as the last one. -/
inductive Effect (sfd : Nat) (w : World) (e : Event) : World → Prop
  | idle : Effect sfd w e w
  | opened (cfd : Nat) (added : Bool) : w.files cfd = none →
      Effect sfd w e { w with
        files := Function.update w.files cfd (some (.conn w.nextConn))
        interest := Function.update w.interest cfd added
        nextConn := w.nextConn + 1 }
  | served (calls : List Access) : e.fd ≠ sfd → MadeFor w e calls → closedFiles calls = [] →
      Effect sfd w e { w with trace := w.trace ++ calls }
  | closed (calls : List Access) : e.fd ≠ sfd → MadeFor w e calls →
      closedFiles calls = (w.files e.fd).toList →
      Effect sfd w e { w with
        files := Function.update w.files e.fd none
        interest := Function.update w.interest e.fd false
        trace := w.trace ++ calls }

/-- `epoll_ctl(DEL)` and `close`, after `calls` that closed nothing. -/
theorem close_effect {sfd : Nat} (w : World) (e : Event) (calls : List Access) (del : Bool)
    (hne : e.fd ≠ sfd) (hc : MadeFor w e calls) (hn : closedFiles calls = []) :
    Effect sfd w e
      ((World.epollDel { w with trace := w.trace ++ calls } e.fd e del).close e.fd e) := by
  have hcalls : MadeFor w e
      (calls ++ [⟨.del del, e.fd, e, w.files e.fd⟩, ⟨.close, e.fd, e, w.files e.fd⟩]) := by
    intro a ha
    rcases List.mem_append.mp ha with ha | ha
    · exact hc a ha
    · simp only [List.mem_cons, List.not_mem_nil, or_false] at ha
      rcases ha with rfl | rfl <;> exact ⟨rfl, rfl, rfl⟩
  have hclosed : closedFiles
      (calls ++ [⟨.del del, e.fd, e, w.files e.fd⟩, ⟨.close, e.fd, e, w.files e.fd⟩]) =
        (w.files e.fd).toList := by
    rw [closedFiles_append, hn]
    cases hf : w.files e.fd with
    | none => rfl
    | some f => rfl
  -- a failed `epoll_ctl(DEL)` makes no difference, `close` takes the descriptor off the list
  have hint : Function.update (if del then Function.update w.interest e.fd false else w.interest)
      e.fd false = Function.update w.interest e.fd false := by
    cases del <;> simp
  simpa [World.epollDel, World.close, World.access, hint] using Effect.closed _ hne hcalls hclosed

theorem handleClient_effect {sfd : Nat} (w : World) (e : Event) (r : Recv) (sent : Send)
    (del : Bool) (hne : e.fd ≠ sfd) : Effect sfd w e (handleClient w e.fd e r sent del) := by
  have hrecv : MadeFor w e [⟨.recv r, e.fd, e, w.files e.fd⟩] := by
    intro a ha
    rw [List.mem_singleton.mp ha]
    exact ⟨rfl, rfl, rfl⟩
  cases r with
  | data chunk =>
    have hcalls : MadeFor w e [⟨.recv (.data chunk), e.fd, e, w.files e.fd⟩,
        ⟨.send (reply chunk) sent, e.fd, e, w.files e.fd⟩] := by
      intro a ha
      simp only [List.mem_cons, List.not_mem_nil, or_false] at ha
      rcases ha with rfl | rfl <;> exact ⟨rfl, rfl, rfl⟩
    simpa [handleClient, World.access] using Effect.served _ hne hcalls rfl
  | eof => exact close_effect w e _ del hne hrecv rfl
  | error errno => exact close_effect w e _ del hne hrecv rfl

theorem loopBody_effect (sfd : Nat) (w : World) (e : Event) (o : Outcome) (ho : w.Permits o) :
    Effect sfd w e (loopBody sfd w e o) := by
  unfold loopBody
  split
  · cases ha : o.accept with
    | error errno => exact .idle
    | ok cfd added => exact .opened cfd added (ho.1 cfd added ha)
  · rename_i hne
    split
    · have h := close_effect w e [] o.del hne (by intro a ha; cases ha) rfl
      simpa using h
    · exact handleClient_effect w e o.recv o.send o.del hne

/-- Only the descriptor of the event is closed, and only free ones are taken. -/
theorem Effect.keeps {sfd : Nat} {w w' : World} {e : Event} (h : Effect sfd w e w') :
    ∀ fd, fd ≠ e.fd → w.files fd ≠ none → w'.files fd = w.files fd := by
  intro fd hne hopen
  cases h with
  | idle => rfl
  | opened cfd added hfree =>
    refine Function.update_of_ne ?_ _ _
    rintro rfl
    exact hopen hfree
  | served calls _ _ _ => rfl
  | closed calls _ _ _ => exact Function.update_of_ne hne _ _

/-! ## The invariant -/

structure World.Sound (sfd : Nat) (w : World) : Prop where
  listener : w.files sfd = some .listener
  watched : ∀ fd, w.interest fd = true → fd = sfd ∨ ∃ id, w.files fd = some (.conn id)
  numbered : ∀ fd id, w.files fd = some (.conn id) → id < w.nextConn
  once : ∀ fd fd' id, w.files fd = some (.conn id) → w.files fd' = some (.conn id) → fd = fd'
  trace : ∀ a ∈ w.trace, a.fd = a.event.fd ∧ a.target = some a.event.file ∧
    ∃ id, a.event.file = .conn id
  nodup : (closedFiles w.trace).Nodup
  gone : ∀ f ∈ closedFiles w.trace, ∃ id < w.nextConn, f = .conn id ∧
    ∀ fd, w.files fd ≠ some (.conn id)

/-- The calls made for an event of an open connection. -/
theorem trace_served {w : World} {e : Event} {id : Nat} {calls : List Access}
    (he : w.files e.fd = some e.file) (hid : e.file = .conn id) (hc : MadeFor w e calls)
    (h : ∀ a ∈ w.trace, a.fd = a.event.fd ∧ a.target = some a.event.file ∧
      ∃ id, a.event.file = .conn id) :
    ∀ a ∈ w.trace ++ calls, a.fd = a.event.fd ∧ a.target = some a.event.file ∧
      ∃ id, a.event.file = .conn id := by
  intro a ha
  rcases List.mem_append.mp ha with ha | ha
  · exact h a ha
  · obtain ⟨hfd, hev, htarget⟩ := hc a ha
    rw [hev, hfd, htarget, he]
    exact ⟨rfl, rfl, id, hid⟩

theorem opened_sound {sfd : Nat} {w : World} (h : w.Sound sfd) {cfd : Nat} {added : Bool}
    (hfree : w.files cfd = none) :
    World.Sound sfd { w with
      files := Function.update w.files cfd (some (.conn w.nextConn))
      interest := Function.update w.interest cfd added
      nextConn := w.nextConn + 1 } := by
  -- an open connection is the new one, or it was open before
  have hcases : ∀ fd id, Function.update w.files cfd (some (.conn w.nextConn)) fd =
      some (.conn id) → fd = cfd ∧ id = w.nextConn ∨ fd ≠ cfd ∧ w.files fd = some (.conn id) := by
    intro fd id hf
    by_cases hfd : fd = cfd
    · subst hfd
      rw [Function.update_self] at hf
      cases hf
      exact Or.inl ⟨rfl, rfl⟩
    · rw [Function.update_of_ne hfd] at hf
      exact Or.inr ⟨hfd, hf⟩
  refine ⟨?_, ?_, ?_, ?_, h.trace, h.nodup, ?_⟩
  · have hne : sfd ≠ cfd := by
      rintro rfl
      rw [h.listener] at hfree
      cases hfree
    exact (Function.update_of_ne hne _ _).trans h.listener
  · intro fd hw
    simp only at hw ⊢
    by_cases hfd : fd = cfd
    · subst hfd
      exact Or.inr ⟨w.nextConn, Function.update_self _ _ _⟩
    · rw [Function.update_of_ne hfd] at hw ⊢
      exact h.watched fd hw
  · intro fd id hf
    rcases hcases fd id hf with ⟨-, rfl⟩ | ⟨-, hold⟩
    · exact Nat.lt_succ_self _
    · exact Nat.lt_succ_of_lt (h.numbered fd id hold)
  · intro fd fd' id hf hf'
    rcases hcases fd id hf with ⟨rfl, rfl⟩ | ⟨-, hold⟩
    · rcases hcases fd' _ hf' with ⟨rfl, -⟩ | ⟨-, hold'⟩
      · rfl
      · exact absurd (h.numbered fd' _ hold') (Nat.lt_irrefl _)
    · rcases hcases fd' id hf' with ⟨-, rfl⟩ | ⟨-, hold'⟩
      · exact absurd (h.numbered fd _ hold) (Nat.lt_irrefl _)
      · exact h.once fd fd' id hold hold'
  · intro f hf
    obtain ⟨id, hid, rfl, hgone⟩ := h.gone f hf
    refine ⟨id, Nat.lt_succ_of_lt hid, rfl, ?_⟩
    intro fd hopen
    rcases hcases fd id hopen with ⟨-, rfl⟩ | ⟨-, hold⟩
    · exact Nat.lt_irrefl _ hid
    · exact hgone fd hold

theorem closed_sound {sfd : Nat} {w : World} (h : w.Sound sfd) {e : Event} {id : Nat}
    {calls : List Access} (hne : e.fd ≠ sfd) (he : w.files e.fd = some e.file)
    (hid : e.file = .conn id) (hc : MadeFor w e calls)
    (hclosed : closedFiles calls = (w.files e.fd).toList) :
    World.Sound sfd { w with
      files := Function.update w.files e.fd none
      interest := Function.update w.interest e.fd false
      trace := w.trace ++ calls } := by
  rw [hid] at he
  have hlist : closedFiles (w.trace ++ calls) = closedFiles w.trace ++ [.conn id] := by
    rw [closedFiles_append, hclosed, he]
    rfl
  have hopen : ∀ fd f, Function.update w.files e.fd none fd = some f →
      fd ≠ e.fd ∧ w.files fd = some f := by
    intro fd f hf
    by_cases hfd : fd = e.fd
    · subst hfd
      rw [Function.update_self] at hf
      cases hf
    · rw [Function.update_of_ne hfd] at hf
      exact ⟨hfd, hf⟩
  refine ⟨?_, ?_, ?_, ?_, ?_, ?_, ?_⟩
  · exact (Function.update_of_ne hne.symm _ _).trans h.listener
  · intro fd hw
    simp only at hw ⊢
    by_cases hfd : fd = e.fd
    · subst hfd
      rw [Function.update_self] at hw
      cases hw
    · rw [Function.update_of_ne hfd] at hw ⊢
      exact h.watched fd hw
  · intro fd id' hf
    exact h.numbered fd id' (hopen fd _ hf).2
  · intro fd fd' id' hf hf'
    exact h.once fd fd' id' (hopen fd _ hf).2 (hopen fd' _ hf').2
  · exact trace_served (by rw [he, hid]) hid hc h.trace
  · rw [hlist]
    refine List.nodup_append.mpr ⟨h.nodup, List.nodup_singleton _, ?_⟩
    intro f hf g hg hfg
    rw [List.mem_singleton.mp hg] at hfg
    obtain ⟨id', -, rfl, hgone⟩ := h.gone f hf
    exact hgone e.fd (by rw [he, hfg])
  · intro f hf
    rw [hlist] at hf
    rcases List.mem_append.mp hf with hf | hf
    · obtain ⟨id', hlt, rfl, hgone⟩ := h.gone f hf
      exact ⟨id', hlt, rfl, fun fd hf' => hgone fd (hopen fd _ hf').2⟩
    · refine ⟨id, h.numbered e.fd id he, List.mem_singleton.mp hf, ?_⟩
      intro fd hf'
      obtain ⟨hfd, hold⟩ := hopen fd _ hf'
      exact hfd (h.once fd e.fd id hold he)

/-- The world is sound and the events of the batch that are left denote what they were
reported for. -/
structure State.Sound (sfd : Nat) (s : State) : Prop where
  world : s.world.Sound sfd
  valid : Valid Event.fd Event.file s.world.files s.pending
  conns : ∀ e ∈ s.pending, e.fd = sfd ∨ ∃ id, e.file = .conn id

theorem step_sound {sfd : Nat} {a : Act} {s t : State} (hs : Step sfd a s t) (h : s.Sound sfd) :
    t.Sound sfd := by
  cases hs with
  | @wait _ batch _ _ hnodup hbatch =>
    refine ⟨h.world, ⟨hnodup, fun e he => (hbatch e he).2⟩, ?_⟩
    intro e he
    obtain ⟨hint, hfile⟩ := hbatch e he
    rcases h.world.watched e.fd hint with hfd | ⟨id, hid⟩
    · exact Or.inl hfd
    · rw [hfile] at hid
      exact Or.inr ⟨id, Option.some.inj hid⟩
  | @handle _ e rest o hp ho =>
    obtain ⟨hw, hvalid, hconns⟩ := h
    rw [hp] at hvalid hconns
    have heff := loopBody_effect sfd s.world e o ho
    refine ⟨?_, hvalid.tail heff.keeps, fun e' he' => hconns e' (List.mem_cons_of_mem _ he')⟩
    have he : s.world.files e.fd = some e.file := hvalid.head
    have hconn : e.fd ≠ sfd → ∃ id, e.file = .conn id := fun hne =>
      (hconns e List.mem_cons_self).resolve_left hne
    generalize loopBody sfd s.world e o = w' at heff ⊢
    cases heff with
    | idle => exact hw
    | opened cfd added hfree => exact opened_sound hw hfree
    | served calls hne hc hn =>
      obtain ⟨id, hid⟩ := hconn hne
      have hlist : closedFiles (s.world.trace ++ calls) = closedFiles s.world.trace := by
        rw [closedFiles_append, hn, List.append_nil]
      exact ⟨hw.listener, hw.watched, hw.numbered, hw.once, trace_served he hid hc hw.trace,
        by rw [hlist]; exact hw.nodup, by rw [hlist]; exact hw.gone⟩
    | closed calls hne hc hn =>
      obtain ⟨id, hid⟩ := hconn hne
      exact closed_sound hw hne he hid hc hn

theorem reachable_sound {sfd : Nat} {s : State} (hr : (system sfd).Reachable s) : s.Sound sfd := by
  induction hr with
  | @init s hi =>
    obtain ⟨hlisten, hint, hnone, htrace, hpend⟩ := hi
    refine ⟨⟨hlisten, fun fd hw => Or.inl (hint fd hw), ?_, ?_, ?_, ?_, ?_⟩, ?_, ?_⟩
    · intro fd id hf
      exact absurd hf (hnone fd id)
    · intro fd fd' id hf
      exact absurd hf (hnone fd id)
    · rw [htrace]
      intro a ha
      cases ha
    · rw [htrace]
      exact List.nodup_nil
    · rw [htrace]
      intro f hf
      cases hf
    · rw [hpend]
      exact ⟨List.nodup_nil, fun e he => by cases he⟩
    · rw [hpend]
      intro e he
      cases he
  | next _ hs ih => exact step_sound hs ih

/-- **The server never acts on a stale descriptor.** Every call made for an event is
made on its descriptor while that is open and denotes the connection of the event;
no connection is closed twice, the listening socket stays open, and no event of a
closed connection is left in the batch. -/
theorem no_stale_descriptor (sfd : Nat) {s : State} (hr : (system sfd).Reachable s) :
    (∀ a ∈ s.world.trace, a.fd = a.event.fd ∧ a.target = some a.event.file ∧
      ∃ id, a.event.file = .conn id) ∧
    (closedFiles s.world.trace).Nodup ∧
    s.world.files sfd = some .listener ∧
    (∀ e ∈ s.pending, e.file ∉ closedFiles s.world.trace) := by
  obtain ⟨hw, hvalid, -⟩ := reachable_sound hr
  refine ⟨hw.trace, hw.nodup, hw.listener, ?_⟩
  intro e he hclosed
  obtain ⟨id, -, hid, hgone⟩ := hw.gone e.file hclosed
  exact hgone e.fd (by rw [hvalid.2 e he, hid])

/-- The loop at its start, with the listening socket at 3. -/
def State.listening : State :=
  ⟨⟨fun fd => if fd = 3 then some .listener else none, fun fd => fd == 3, 0, []⟩, []⟩

theorem listening_init : (system 3).init State.listening := by
  refine ⟨rfl, by simp [State.listening], ?_, rfl, rfl⟩
  intro fd id
  simp only [State.listening]
  split <;> simp

/-- Descriptor 5 is closed and handed out again in one batch; the next batch is about
the new connection. -/
theorem reused_descriptor :
    ∃ s, (system 3).Reachable s ∧ closedFiles s.world.trace = [.conn 0] ∧
      s.world.files 5 = some (.conn 1) ∧ s.world.trace.length = 4 ∧
      ∀ a ∈ s.world.trace, a.fd = a.event.fd ∧ a.target = some a.event.file ∧
        ∃ id, a.event.file = .conn id := by
  have h0 : (system 3).Reachable State.listening := .init listening_init
  have h1 := h0.next (@Step.wait 3 _ [⟨3, 1, .listener⟩] rfl (by decide) (by decide) (by decide))
  have h2 := h1.next (@Step.handle 3 _ _ _ ⟨.ok 5 true, .eof, .accepted 0, true⟩ rfl
    ⟨by rintro _ _ ⟨⟩; rfl, by rintro _ ⟨⟩⟩)
  have h3 := h2.next (@Step.wait 3 _ [⟨5, EPOLLRDHUP, .conn 0⟩, ⟨3, 1, .listener⟩] rfl (by decide)
    (by decide) (by decide))
  have h4 := h3.next (@Step.handle 3 _ _ _ ⟨.error 11, .eof, .accepted 0, true⟩ rfl
    ⟨by rintro _ _ ⟨⟩, by rintro _ ⟨⟩⟩)
  have h5 := h4.next (@Step.handle 3 _ _ _ ⟨.ok 5 true, .eof, .accepted 0, true⟩ rfl
    ⟨by rintro _ _ ⟨⟩; rfl, by rintro _ ⟨⟩⟩)
  have h6 := h5.next (@Step.wait 3 _ [⟨5, 1, .conn 1⟩] rfl (by decide) (by decide) (by decide))
  have h7 := h6.next (@Step.handle 3 _ _ _ ⟨.error 11, .data [104, 105], .accepted 8, true⟩ rfl
    ⟨by rintro _ _ ⟨⟩, by rintro _ ⟨⟩; decide⟩)
  exact ⟨_, h7, rfl, rfl, rfl, (no_stale_descriptor 3 h7).1⟩

/-! ## Open and watched descriptors -/

/-- The open client descriptors are the ones on the interest list. -/
def World.Watches (sfd : Nat) (w : World) : Prop :=
  ∀ fd, (∃ id, w.files fd = some (.conn id)) ↔ fd ≠ sfd ∧ w.interest fd = true

/-- A new connection is also put on the interest list. -/
def Registers (sfd : Nat) : Act → State → Prop
  | .wait _, _ => True
  | .handle o, s => ∀ e rest, s.pending = e :: rest → e.fd = sfd →
      ∀ cfd added, o.accept = .ok cfd added → added = true

/-- An event of a client changes neither table, or takes its descriptor out of both. -/
theorem loopBody_client {sfd : Nat} (w : World) {e : Event} (o : Outcome) (hne : e.fd ≠ sfd) :
    ((loopBody sfd w e o).files = w.files ∧ (loopBody sfd w e o).interest = w.interest) ∨
      ((loopBody sfd w e o).files = Function.update w.files e.fd none ∧
        (loopBody sfd w e o).interest = Function.update w.interest e.fd false) := by
  have hclose : ∀ w' : World, w'.files = w.files → w'.interest = w.interest →
      ((w'.epollDel e.fd e o.del).close e.fd e).files = Function.update w.files e.fd none ∧
        ((w'.epollDel e.fd e o.del).close e.fd e).interest =
          Function.update w.interest e.fd false := by
    intro w' hf hi
    refine ⟨by simp only [World.close, World.epollDel, World.access, hf], ?_⟩
    simp only [World.close, World.epollDel, hi]
    cases o.del <;> simp
  rw [loopBody, if_neg hne]
  split
  · exact Or.inr (hclose w rfl rfl)
  · unfold handleClient
    cases o.recv with
    | data chunk => exact Or.inl ⟨rfl, rfl⟩
    | eof => exact Or.inr (hclose _ rfl rfl)
    | error errno => exact Or.inr (hclose _ rfl rfl)

theorem client_watches {sfd : Nat} {w w' : World} (h : w.Watches sfd) {fd : Nat}
    (ht : (w'.files = w.files ∧ w'.interest = w.interest) ∨
      (w'.files = Function.update w.files fd none ∧
        w'.interest = Function.update w.interest fd false)) : w'.Watches sfd := by
  intro fd'
  rcases ht with ⟨hf, hi⟩ | ⟨hf, hi⟩
  · rw [hf, hi]
    exact h fd'
  · rw [hf, hi]
    by_cases hfd : fd' = fd
    · subst hfd
      simp
    · rw [Function.update_of_ne hfd, Function.update_of_ne hfd]
      exact h fd'

/-- An accepted connection is watched exactly when `epoll_ctl(ADD)` succeeds. -/
theorem accept_watches {sfd : Nat} {w : World} (h : w.Watches sfd) {cfd : Nat} {added : Bool}
    (hne : cfd ≠ sfd) :
    (handleNewConnection w (.ok cfd added)).Watches sfd ↔ added = true := by
  constructor
  · intro hw
    have hcfd := (hw cfd).mp ⟨w.nextConn, Function.update_self _ _ _⟩
    simpa [handleNewConnection] using hcfd.2
  · rintro rfl fd
    simp only [handleNewConnection]
    by_cases hfd : fd = cfd
    · subst hfd
      simp [hne]
    · rw [Function.update_of_ne hfd, Function.update_of_ne hfd]
      exact h fd

/-- A step keeps the two sets equal exactly when it meets the condition. -/
theorem step_watches {sfd : Nat} {a : Act} {s t : State} (hsound : s.Sound sfd)
    (hs : Step sfd a s t) (h : s.world.Watches sfd) :
    t.world.Watches sfd ↔ Registers sfd a s := by
  cases hs with
  | wait => exact ⟨fun _ => trivial, fun _ => h⟩
  | @handle _ e rest o hp ho =>
    by_cases hfd : e.fd = sfd
    · simp only [loopBody, if_pos hfd]
      cases ha : o.accept with
      | error errno =>
        refine ⟨fun _ => ?_, fun _ => h⟩
        rintro e' rest' - - cfd added hok
        rw [ha] at hok
        cases hok
      | ok cfd added =>
        have hne : cfd ≠ sfd := by
          rintro rfl
          have hfree := ho.1 cfd added ha
          rw [hsound.world.listener] at hfree
          cases hfree
        rw [accept_watches h hne]
        constructor
        · rintro rfl e' rest' - - cfd' added' hok
          rw [ha] at hok
          cases hok
          rfl
        · intro hreg
          exact hreg e rest hp hfd cfd added ha
    · refine ⟨fun _ => ?_, fun _ => client_watches h (loopBody_client s.world o hfd)⟩
      intro e' rest' hp' hfd'
      rw [hp] at hp'
      cases hp'
      exact absurd hfd' hfd

theorem reachable_watches {sfd : Nat} {s : State}
    (hr : ((system sfd).guarded (Registers sfd)).Reachable s) : s.world.Watches sfd := by
  induction hr with
  | init hi =>
    obtain ⟨-, hint, hnone, -, -⟩ := hi
    intro fd
    constructor
    · rintro ⟨id, hf⟩
      exact absurd hf (hnone fd id)
    · rintro ⟨hne, hw⟩
      exact absurd (hint fd hw) hne
  | next hr hs ih =>
    exact (step_watches (reachable_sound (System.reachable_of_guarded hr)) hs.2 ih).mpr hs.1

/-- **No client descriptor is lost** in a run in which every accepted connection is
registered: the open client descriptors are the watched ones, and each can be
reported and closed once the batch is done. A step that accepts a connection and
fails to register it loses the descriptor. -/
theorem no_descriptor_leak (sfd : Nat) {s : State}
    (hr : ((system sfd).guarded (Registers sfd)).Reachable s) :
    s.world.Watches sfd ∧
    (∀ fd id, s.world.files fd = some (.conn id) → s.pending = [] →
      ∃ batch o t u, Step sfd (.wait batch) s t ∧ Step sfd (.handle o) t u ∧
        u.world.files fd = none) ∧
    ∀ a t, Step sfd a s t → (t.world.Watches sfd ↔ Registers sfd a s) := by
  have hsound := reachable_sound (System.reachable_of_guarded hr)
  have hw := reachable_watches hr
  refine ⟨hw, ?_, fun a t hs => step_watches hsound hs hw⟩
  intro fd id hf hpend
  obtain ⟨hne, hint⟩ := (hw fd).mp ⟨id, hf⟩
  refine ⟨[⟨fd, EPOLLRDHUP, .conn id⟩], ⟨.error 11, .eof, .accepted 0, true⟩, _, _,
    .wait hpend (show 1 ≤ 64 by decide) (List.nodup_singleton _) ?_, .handle rfl ?_, ?_⟩
  · intro e he
    rw [List.mem_singleton.mp he]
    exact ⟨hint, hf⟩
  · exact ⟨by rintro _ _ ⟨⟩, by rintro _ ⟨⟩⟩
  · have hmask : EPOLLRDHUP &&& (EPOLLRDHUP ||| EPOLLHUP ||| EPOLLERR) ≠ 0 := by decide
    simp only [loopBody, if_neg hne, if_pos hmask, World.close]
    exact Function.update_self _ _ _

/-- A connection is accepted on descriptor 5 and registered. -/
theorem registered_watches :
    ∃ s, ((system 3).guarded (Registers 3)).Reachable s ∧ s.world.files 5 = some (.conn 0) ∧
      s.world.Watches 3 := by
  have h0 : ((system 3).guarded (Registers 3)).Reachable State.listening := .init listening_init
  have h1 := h0.nextGuarded (@Step.wait 3 _ [⟨3, 1, .listener⟩] rfl (by decide) (by decide)
    (by decide)) trivial
  have h2 := h1.nextGuarded (@Step.handle 3 _ _ _ ⟨.ok 5 true, .eof, .accepted 0, true⟩ rfl
    ⟨by rintro _ _ ⟨⟩; rfl, by rintro _ ⟨⟩⟩) (by rintro _ _ _ _ _ _ ⟨⟩; rfl)
  exact ⟨_, h2, rfl, (no_descriptor_leak 3 h2).1⟩

/-- `epoll_ctl(ADD)` fails for descriptor 5, which stays open and is never reported. -/
theorem unregistered_leaks :
    ∃ s, (system 3).Reachable s ∧ s.world.files 5 = some (.conn 0) ∧
      s.world.interest 5 = false ∧ s.pending = [] ∧ ¬ s.world.Watches 3 := by
  have h0 : (system 3).Reachable State.listening := .init listening_init
  have h1 := h0.next (@Step.wait 3 _ [⟨3, 1, .listener⟩] rfl (by decide) (by decide) (by decide))
  have h2 := h1.next (@Step.handle 3 _ _ _ ⟨.ok 5 false, .eof, .accepted 0, true⟩ rfl
    ⟨by rintro _ _ ⟨⟩; rfl, by rintro _ ⟨⟩⟩)
  refine ⟨_, h2, rfl, rfl, rfl, ?_⟩
  intro hw
  have h5 := ((hw 5).mp ⟨0, rfl⟩).2
  cases h5

end LearnLinux.TcpServer
