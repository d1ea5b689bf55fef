import LearnLinux.Net.Replies

/-!
# Disconnecting clients of the epoll server

The event loop of `07_networking/tcp_server.c` together with the byte streams of its
clients. A client sends bytes and then shuts its side down; the bytes and at last the
FIN arrive at the server in order, at any time between the steps of the loop, also
before the connection is accepted. A transport error may befall any connection.

The loop closes a connection in two places: `main` does so when the event says that the
peer hung up, and `handle_client` when `recv` returns no data. Bytes that have arrived
and are not read then are lost. `graceful_disconnect` says when no run loses any.
-/

namespace LearnLinux.Disconnect

open TcpServer Transition

/-! ## The streams of the clients -/

def EPOLLIN : UInt32 := 0x001

def EINTR : Nat := 4
def EAGAIN : Nat := 11

/-- One connection: what the client has sent, what of it has not arrived and what has
arrived and was not read, whether the client has shut its side down, whether its FIN
has arrived, and whether there was a transport error. -/
structure Wire where
  sent : List UInt8
  inFlight : List UInt8
  unread : List UInt8
  shut : Bool
  fin : Bool
  failed : Bool
  deriving DecidableEq, Repr

/-- What the client and the network can do. -/
inductive Peer where
  | send (bs : List UInt8)
  | shutdown
  | arrive (n : Nat)
  | fin
  | reset
  deriving DecidableEq, Repr

/-- The steps that reach the socket of the server. -/
def Peer.reachesServer : Peer → Bool
  | .send _ => false
  | .shutdown => false
  | .arrive _ => true
  | .fin => true
  | .reset => true

def Wire.peer (w : Wire) : Peer → Option Wire
  | .send bs =>
    if w.shut then none else some { w with sent := w.sent ++ bs, inFlight := w.inFlight ++ bs }
  | .shutdown => some { w with shut := true }
  | .arrive n =>
    some { w with unread := w.unread ++ w.inFlight.take n, inFlight := w.inFlight.drop n }
  | .fin => if w.shut ∧ w.inFlight = [] then some { w with fin := true } else none
  | .reset => some { w with failed := true }

/-- The bytes that a call of `recv` returns. -/
def returned : Option Recv → List UInt8
  | some (.data chunk) => chunk
  | _ => []

def Wire.read (w : Wire) (r : Option Recv) : Wire :=
  { w with unread := w.unread.drop (returned r).length }

/-- What `epoll_wait` reports for a connection without transport error: `EPOLLIN` while
there are unread bytes or the end of the stream, `EPOLLRDHUP` from the FIN on. -/
def Wire.Reports (w : Wire) (events : UInt32) : Prop :=
  w.failed = false → (events &&& EPOLLRDHUP ≠ 0 ↔ w.fin = true) ∧
    events &&& (EPOLLHUP ||| EPOLLERR) = 0 ∧
    (w.unread ≠ [] ∨ w.fin = true → events &&& EPOLLIN ≠ 0)

/-- What `recv` returns: a prefix of the unread bytes, the end of the stream once all are
read, or `EAGAIN` or `EINTR` while there is neither. -/
def Wire.Delivers (w : Wire) : Recv → Prop
  | .data chunk => chunk <+: w.unread
  | .eof => w.failed = false → w.unread = [] ∧ w.fin = true
  | .error errno => w.failed = false →
    (errno = EAGAIN ∨ errno = EINTR) ∧ w.unread = [] ∧ w.fin = false

/-! ## The event loop with its clients -/

/-- The event says that the peer hung up, in the eyes of `main`. -/
def HangsUp (e : Event) : Prop := e.events &&& (EPOLLRDHUP ||| EPOLLHUP ||| EPOLLERR) ≠ 0

instance (e : Event) : Decidable (HangsUp e) :=
  inferInstanceAs (Decidable (e.events &&& (EPOLLRDHUP ||| EPOLLHUP ||| EPOLLERR) ≠ 0))

/-- The result of the `recv` made for an event, if one is made. -/
def recvCall (sfd : Nat) (e : Event) (o : Outcome) : Option Recv :=
  if e.fd = sfd ∨ HangsUp e then none else some o.recv

/-- The server, and the connections in the order of `accept4`. -/
structure State where
  server : TcpServer.State
  wire : Nat → Wire

def State.trace (s : State) : List Access := s.server.world.trace

/-- The bytes that `recv` has returned on a connection. -/
def State.received (s : State) (id : Nat) : List UInt8 := (chunks (.conn id) s.trace).flatten

def State.Closed (s : State) (id : Nat) : Prop := .conn id ∈ closedFiles s.trace

instance (s : State) (id : Nat) : Decidable (s.Closed id) :=
  inferInstanceAs (Decidable (File.conn id ∈ closedFiles s.trace))

/-- The streams after the call made for `e`. -/
def State.read (s : State) (e : Event) (r : Option Recv) : Nat → Wire :=
  match e.file with
  | .conn id => Function.update s.wire id ((s.wire id).read r)
  | _ => s.wire

inductive Act where
  | peer (id : Nat) (p : Peer)
  | server (a : TcpServer.Act)

inductive Step (sfd : Nat) : Act → State → State → Prop
  | peer {s : State} {id : Nat} {p : Peer} {w : Wire} :
      (p.reachesServer = true → ¬ s.Closed id) → (s.wire id).peer p = some w →
      Step sfd (.peer id p) s { s with wire := Function.update s.wire id w }
  | wait {s : State} {batch : List Event} {t : TcpServer.State} :
      TcpServer.Step sfd (.wait batch) s.server t →
      (∀ e ∈ batch, ∀ id, e.file = .conn id → (s.wire id).Reports e.events) →
      Step sfd (.server (.wait batch)) s { s with server := t }
  | handle {s : State} {e : Event} {rest : List Event} {o : Outcome} :
      s.server.pending = e :: rest → s.server.world.Permits o →
      (∀ id r, e.file = .conn id → recvCall sfd e o = some r → (s.wire id).Delivers r) →
      Step sfd (.server (.handle o)) s
        ⟨⟨loopBody sfd s.server.world e o, rest⟩, s.read e (recvCall sfd e o)⟩

def system (sfd : Nat) : System Act State where
  init s := (TcpServer.system sfd).init s.server ∧ ∀ id, s.wire id = ⟨[], [], [], false, false, false⟩
  step := Step sfd

/-- The server of the session is the server on its own. -/
theorem server_simulation (sfd : Nat) :
    Simulation (system sfd) (TcpServer.system sfd) State.server where
  init _ hi := hi.1
  step _ _ _ _ hs := by
    cases hs with
    | peer => exact Or.inr rfl
    | wait hw _ => exact Or.inl ⟨_, hw⟩
    | handle hp ho _ => exact Or.inl ⟨_, .handle hp ho⟩

theorem server_sound {sfd : Nat} {s : State} (hr : (system sfd).Reachable s) :
    s.server.Sound sfd :=
  reachable_sound ((server_simulation sfd).reachable hr)

/-! ## The streams keep their bytes -/

/-- The bytes are received, unread or under way, and behind the FIN there is nothing. -/
structure Wire.Keeps (w : Wire) (received : List UInt8) : Prop where
  stream : received ++ w.unread ++ w.inFlight = w.sent
  fin : w.fin = true → w.inFlight = [] ∧ w.shut = true

theorem Wire.peer_keeps {w w' : Wire} {p : Peer} {received : List UInt8}
    (hp : w.peer p = some w') (h : w.Keeps received) : w'.Keeps received := by
  obtain ⟨hstream, hfin⟩ := h
  cases p with
  | send bs =>
    simp only [Wire.peer] at hp
    split at hp
    · cases hp
    · next hshut =>
      cases hp
      refine ⟨by simp only [← hstream, List.append_assoc], fun hf => ?_⟩
      exact absurd (hfin hf).2 hshut
  | shutdown =>
    cases hp
    exact ⟨hstream, fun hf => ⟨(hfin hf).1, rfl⟩⟩
  | arrive n =>
    cases hp
    refine ⟨?_, fun hf => ⟨by simp only [(hfin hf).1, List.drop_nil], (hfin hf).2⟩⟩
    rw [← hstream]
    simp only [List.append_assoc, List.take_append_drop]
  | fin =>
    simp only [Wire.peer] at hp
    split at hp
    · next hshut =>
      cases hp
      exact ⟨hstream, fun _ => ⟨hshut.2, hshut.1⟩⟩
    · cases hp
  | reset =>
    cases hp
    exact ⟨hstream, hfin⟩

/-- A FIN that has arrived and an error that has happened stay so. -/
theorem Wire.peer_mono {w w' : Wire} {p : Peer} (hp : w.peer p = some w') :
    (w.fin = true → w'.fin = true) ∧ (w'.failed = false → w.failed = false) := by
  cases p with
  | send bs =>
    simp only [Wire.peer] at hp
    split at hp
    · cases hp
    · cases hp
      exact ⟨id, id⟩
  | fin =>
    simp only [Wire.peer] at hp
    split at hp
    · cases hp
      exact ⟨fun _ => rfl, id⟩
    · cases hp
  | reset =>
    cases hp
    exact ⟨id, nofun⟩
  | shutdown | arrive =>
    cases hp
    exact ⟨id, id⟩

/-- Reading a prefix of the unread bytes. -/
theorem Wire.read_keeps {w : Wire} {r : Option Recv} {received : List UInt8}
    (hr : returned r <+: w.unread) (h : w.Keeps received) :
    (w.read r).Keeps (received ++ returned r) := by
  obtain ⟨rest, hrest⟩ := hr
  refine ⟨?_, h.fin⟩
  simp only [Wire.read, ← hrest, List.drop_left]
  rw [← h.stream, ← hrest, List.append_assoc received]

theorem Wire.Delivers.returned {w : Wire} {r : Recv} (h : w.Delivers r) :
    returned (some r) <+: w.unread := by
  cases r with
  | data chunk => exact h
  | eof => exact List.nil_prefix
  | error errno => exact List.nil_prefix

/-! ## One handled event -/

section Event

variable {sfd : Nat} {e : Event} {o : Outcome} {id : Nat}

/-- The event makes the loop close its connection. -/
def Closes (sfd : Nat) (e : Event) (o : Outcome) : Prop :=
  e.fd ≠ sfd ∧ (HangsUp e ∨ ∀ chunk, o.recv ≠ .data chunk)

theorem closedFiles_callsFor (f : File) :
    f ∈ closedFiles (callsFor sfd e o (some e.file)) ↔ e.file = f ∧ Closes sfd e o := by
  unfold callsFor Closes HangsUp
  split
  · next h => simp [closedFiles, h]
  · next h =>
    split
    · next hmask => simp [closedFiles, h, hmask, eq_comm]
    · next hmask =>
      cases o.recv with
      | data chunk => simp [closedFiles, hmask]
      | eof => simp [closedFiles, h, eq_comm]
      | error errno => simp [closedFiles, h, eq_comm]

theorem chunks_callsFor :
    (chunks (.conn id) (callsFor sfd e o (some e.file))).flatten =
      if e.file = .conn id then returned (recvCall sfd e o) else [] := by
  unfold callsFor recvCall HangsUp
  by_cases hfd : e.fd = sfd
  · simp [hfd, chunks, returned]
  · by_cases hmask : e.events &&& (EPOLLRDHUP ||| EPOLLHUP ||| EPOLLERR) = 0
    · cases o.recv with
      | data chunk => by_cases hf : e.file = .conn id <;> simp [hfd, hmask, chunks, hf, returned]
      | eof => simp [hfd, hmask, chunks, returned]
      | error errno => simp [hfd, hmask, chunks, returned]
    · simp [hfd, hmask, chunks, returned]

end Event

/-! ## The accounts of all connections -/

structure State.Accounts (s : State) : Prop where
  wires : ∀ id, (s.wire id).Keeps (s.received id)
  hangup : ∀ e ∈ s.server.pending, ∀ id, e.file = .conn id → (s.wire id).failed = false →
    HangsUp e → (s.wire id).fin = true

/-- Without `EPOLLHUP` and `EPOLLERR` a hang-up is an `EPOLLRDHUP`. -/
theorem Wire.Reports.fin {w : Wire} {e : Event} (h : w.Reports e.events) (hf : w.failed = false)
    (hup : HangsUp e) : w.fin = true := by
  obtain ⟨hrd, hother, -⟩ := h hf
  refine hrd.mp fun h0 => hup ?_
  rw [← UInt32.toBitVec_inj] at h0 hother ⊢
  simp only [UInt32.toBitVec_and, UInt32.toBitVec_or] at h0 hother ⊢
  rw [BitVec.or_assoc, BitVec.and_or_distrib_left, h0, hother]
  rfl

theorem handle_received {sfd : Nat} {s : State} {e : Event} {rest : List Event} {o : Outcome}
    {wire : Nat → Wire} (he : s.server.world.files e.fd = some e.file) (id : Nat) :
    State.received ⟨⟨loopBody sfd s.server.world e o, rest⟩, wire⟩ id =
      s.received id ++ (chunks (.conn id) (callsFor sfd e o (some e.file))).flatten := by
  simp only [State.received, State.trace, loopBody_trace, he, chunks_append, List.flatten_append]

theorem read_self {s : State} {e : Event} {r : Option Recv} {id : Nat} (h : e.file = .conn id) :
    s.read e r id = (s.wire id).read r := by
  simp only [State.read, h, Function.update_self]

theorem read_other {s : State} {e : Event} {r : Option Recv} {id : Nat} (h : e.file ≠ .conn id) :
    s.read e r id = s.wire id := by
  cases hf : e.file with
  | conn id' =>
    have hne : id ≠ id' := by
      rintro rfl
      exact h hf
    simp only [State.read, hf, Function.update_of_ne hne]
  | listener => simp only [State.read, hf]
  | other => simp only [State.read, hf]

/-- Reading changes neither what was sent nor the state of the connection. -/
theorem read_flags (s : State) (e : Event) (r : Option Recv) (id : Nat) :
    (s.read e r id).sent = (s.wire id).sent ∧ (s.read e r id).fin = (s.wire id).fin ∧
      (s.read e r id).failed = (s.wire id).failed := by
  by_cases h : e.file = .conn id
  · rw [read_self h]
    exact ⟨rfl, rfl, rfl⟩
  · rw [read_other h]
    exact ⟨rfl, rfl, rfl⟩

theorem step_accounts {sfd : Nat} {a : Act} {s t : State} (hsound : s.server.Sound sfd)
    (hs : Step sfd a s t) (h : s.Accounts) : t.Accounts := by
  obtain ⟨hwires, hhup⟩ := h
  cases hs with
  | @peer _ id p w _ hp =>
    obtain ⟨hfin, hfail⟩ := Wire.peer_mono hp
    constructor
    · exact (Function.forall_update_iff s.wire fun id' w => w.Keeps (s.received id')).mpr
        ⟨Wire.peer_keeps hp (hwires id), fun id' _ => hwires id'⟩
    · intro e he id' hfile hf hup
      by_cases hid : id' = id
      · subst hid
        simp only [Function.update_self] at hf ⊢
        exact hfin (hhup e he id' hfile (hfail hf) hup)
      · simp only [Function.update_of_ne hid] at hf ⊢
        exact hhup e he id' hfile hf hup
  | @wait _ batch t hw hreport =>
    cases hw
    exact ⟨hwires, fun e he id hfile hf hup => (hreport e he id hfile).fin hf hup⟩
  | @handle _ e rest o hp ho hdel =>
    have hvalid := hsound.valid
    rw [hp] at hvalid hhup
    have he := hvalid.head
    constructor
    · intro id
      rw [handle_received he, chunks_callsFor]
      by_cases hfile : e.file = .conn id
      · simp only [read_self hfile, if_pos hfile]
        refine Wire.read_keeps ?_ (hwires id)
        cases hr : recvCall sfd e o with
        | none => exact List.nil_prefix
        | some r => exact (hdel id r hfile hr).returned
      · simp only [read_other hfile, if_neg hfile, List.append_nil]
        exact hwires id
    · intro e' he' id hfile hf hup
      obtain ⟨-, hfin, hfail⟩ := read_flags s e (recvCall sfd e o) id
      simp only [hfin, hfail] at hf ⊢
      exact hhup e' (List.mem_cons_of_mem _ he') id hfile hf hup

theorem reachable_accounts {sfd : Nat} {s : State} (hr : (system sfd).Reachable s) :
    s.Accounts := by
  induction hr with
  | @init s hi =>
    obtain ⟨⟨-, -, -, htrace, hpend⟩, hwire⟩ := hi
    constructor
    · intro id
      rw [hwire id, State.received, State.trace, htrace]
      exact ⟨rfl, nofun⟩
    · rw [hpend]
      intro e he
      cases he
  | next hr hs ih => exact step_accounts (server_sound hr) hs ih

/-! ## When no bytes are lost -/

/-- Every connection that was closed without a transport error was closed after its FIN
had arrived and all that the client sent was received. -/
def State.Graceful (s : State) : Prop :=
  ∀ id, s.Closed id → (s.wire id).failed = false →
    (s.wire id).fin = true ∧ s.received id = (s.wire id).sent

/-- A hang-up is handled when the bytes in front of it are read, and `recv` does not fail
with `EAGAIN` or `EINTR`, which are the only errors it has without a transport error. -/
def Patient (sfd : Nat) : Act → State → Prop
  | .server (.handle o), s => ∀ e rest id, s.server.pending = e :: rest → e.fd ≠ sfd →
      e.file = .conn id → (s.wire id).failed = false →
      (HangsUp e → (s.wire id).unread = []) ∧ (¬ HangsUp e → ∀ errno, o.recv ≠ .error errno)
  | _, _ => True

theorem peer_graceful {s : State} {id : Nat} {p : Peer} {w : Wire} (ha : s.Accounts)
    (hopen : p.reachesServer = true → ¬ s.Closed id) (hp : (s.wire id).peer p = some w)
    (h : s.Graceful) : State.Graceful { s with wire := Function.update s.wire id w } := by
  intro id' hclosed hf
  by_cases hid : id' = id
  · subst hid
    simp only [Function.update_self] at hf ⊢
    obtain ⟨hfin, hsent⟩ := h id' hclosed ((Wire.peer_mono hp).2 hf)
    -- the FIN was the last the client sent, and nothing reaches a closed socket
    cases p with
    | send bs =>
      have hshut := ((ha.wires id').fin hfin).2
      simp [Wire.peer, hshut] at hp
    | shutdown =>
      cases hp
      exact ⟨hfin, hsent⟩
    | arrive n => exact absurd hclosed (hopen rfl)
    | fin => exact absurd hclosed (hopen rfl)
    | reset => exact absurd hclosed (hopen rfl)
  · simp only [Function.update_of_ne hid] at hf ⊢
    exact h id' hclosed hf

section Handle

variable {sfd : Nat} {s : State} {e : Event} {rest : List Event} {o : Outcome}

/-- The state after an event is handled. -/
def State.handled (sfd : Nat) (s : State) (e : Event) (rest : List Event) (o : Outcome) : State :=
  ⟨⟨loopBody sfd s.server.world e o, rest⟩, s.read e (recvCall sfd e o)⟩

theorem handled_closed (he : s.server.world.files e.fd = some e.file) (id : Nat) :
    (s.handled sfd e rest o).Closed id ↔ s.Closed id ∨ e.file = .conn id ∧ Closes sfd e o := by
  simp only [State.Closed, State.trace, State.handled, loopBody_trace, he, closedFiles_append,
    List.mem_append, closedFiles_callsFor]

/-- The calls that close a connection return no bytes. -/
theorem handled_received_of_closes (he : s.server.world.files e.fd = some e.file)
    (hc : Closes sfd e o) (id : Nat) : (s.handled sfd e rest o).received id = s.received id := by
  have hnone : returned (recvCall sfd e o) = [] := by
    unfold recvCall
    split
    · rfl
    · next hup =>
      cases hr : o.recv with
      | data chunk => exact absurd hr ((hc.2.resolve_left fun h => hup (Or.inr h)) chunk)
      | eof => rfl
      | error errno => rfl
  rw [State.handled, handle_received he, chunks_callsFor, hnone]
  simp

theorem patient_graceful (hsound : s.server.Sound sfd) (ha : s.Accounts)
    (hp : s.server.pending = e :: rest)
    (hdel : ∀ id r, e.file = .conn id → recvCall sfd e o = some r → (s.wire id).Delivers r)
    (hg : Patient sfd (.server (.handle o)) s) (h : s.Graceful) :
    (s.handled sfd e rest o).Graceful := by
  have hvalid := hsound.valid
  rw [hp] at hvalid
  have he := hvalid.head
  intro id hclosed hf
  obtain ⟨hsent, hfin, hfail⟩ := read_flags s e (recvCall sfd e o) id
  simp only [State.handled] at hf ⊢
  rw [hfin, hsent]
  rw [hfail] at hf
  rcases (handled_closed he id).mp hclosed with hold | ⟨hfile, hc⟩
  · -- no event is left for a closed connection
    have hne : e.file ≠ .conn id := by
      intro hfile
      obtain ⟨id', -, hid', hgone⟩ := hsound.world.gone _ hold
      exact hgone e.fd (by rw [he, hfile, hid'])
    rw [handle_received he, chunks_callsFor, if_neg hne, List.append_nil]
    exact h id hold hf
  · obtain ⟨hup, hrecv⟩ := hg e rest id hp hc.1 hfile hf
    have hdone : (s.wire id).fin = true ∧ (s.wire id).unread = [] := by
      by_cases hhup : HangsUp e
      · refine ⟨ha.hangup e ?_ id hfile hf hhup, hup hhup⟩
        rw [hp]
        exact List.mem_cons_self
      · have hcall : recvCall sfd e o = some o.recv :=
          if_neg (not_or.mpr ⟨hc.1, hhup⟩)
        have hd := hdel id _ hfile hcall
        cases hr : o.recv with
        | data chunk => exact absurd hr ((hc.2.resolve_left hhup) chunk)
        | eof =>
          rw [hr] at hd
          exact ⟨(hd hf).2, (hd hf).1⟩
        | error errno => exact absurd hr (hrecv hhup errno)
    have hkeeps := ha.wires id
    have hstream := hkeeps.stream
    rw [hdone.2, (hkeeps.fin hdone.1).1, List.append_nil, List.append_nil] at hstream
    exact ⟨hdone.1, (handled_received_of_closes he hc id).trans hstream⟩

theorem graceful_patient (hsound : s.server.Sound sfd) (ha : s.Accounts)
    (hp : s.server.pending = e :: rest)
    (hdel : ∀ id r, e.file = .conn id → recvCall sfd e o = some r → (s.wire id).Delivers r)
    (h : (s.handled sfd e rest o).Graceful) : Patient sfd (.server (.handle o)) s := by
  have hvalid := hsound.valid
  rw [hp] at hvalid
  have he := hvalid.head
  intro e' rest' id hp' hne hfile hf
  rw [hp] at hp'
  cases hp'
  obtain ⟨hsent, hfin, hfail⟩ := read_flags s e (recvCall sfd e o) id
  have hgrace : Closes sfd e o → (s.wire id).fin = true ∧ s.received id = (s.wire id).sent := by
    intro hc
    have hclosed : (s.handled sfd e rest o).Closed id :=
      (handled_closed he id).mpr (Or.inr ⟨hfile, hc⟩)
    have hg := h id hclosed (hfail.trans hf)
    rw [handled_received_of_closes he hc id] at hg
    exact ⟨hfin.symm.trans hg.1, hg.2.trans hsent⟩
  constructor
  · intro hhup
    have hstream := (ha.wires id).stream
    rw [← (hgrace ⟨hne, Or.inl hhup⟩).2, List.append_assoc] at hstream
    exact (List.append_eq_nil_iff.mp (List.append_right_eq_self.mp hstream)).1
  · intro hhup errno hr
    have hcall : recvCall sfd e o = some o.recv := if_neg (not_or.mpr ⟨hne, hhup⟩)
    have hd := hdel id _ hfile hcall
    rw [hr] at hd
    have hg := hgrace ⟨hne, Or.inr fun chunk hc => by rw [hr] at hc; cases hc⟩
    rw [(hd hf).2.2] at hg
    cases hg.1

end Handle

/-- A step loses no bytes exactly when it meets the condition. -/
theorem step_graceful {sfd : Nat} {a : Act} {s t : State} (hsound : s.server.Sound sfd)
    (ha : s.Accounts) (hs : Step sfd a s t) (h : s.Graceful) : t.Graceful ↔ Patient sfd a s := by
  cases hs with
  | peer hopen hp => exact ⟨fun _ => trivial, fun _ => peer_graceful ha hopen hp h⟩
  | wait hw _ =>
    cases hw
    exact ⟨fun _ => trivial, fun _ => h⟩
  | handle hp _ hdel =>
    exact ⟨graceful_patient hsound ha hp hdel, fun hg => patient_graceful hsound ha hp hdel hg h⟩

theorem reachable_graceful {sfd : Nat} {s : State}
    (hr : ((system sfd).guarded (Patient sfd)).Reachable s) : s.Graceful := by
  induction hr with
  | init hi =>
    obtain ⟨⟨-, -, -, htrace, -⟩, -⟩ := hi
    intro id hclosed
    rw [State.Closed, State.trace, htrace] at hclosed
    cases hclosed
  | next hr hs ih =>
    have hr' := System.reachable_of_guarded hr
    exact (step_graceful (server_sound hr') (reachable_accounts hr') hs.2 ih).mpr hs.1

/-- **A graceful disconnect loses no data** in every run that meets the condition, however
the bytes, the FINs and the batches are interleaved; and a step that does not meet it
closes a connection with bytes unread or without a FIN. -/
theorem graceful_disconnect (sfd : Nat) {s : State}
    (hr : ((system sfd).guarded (Patient sfd)).Reachable s) :
    s.Graceful ∧ ∀ a t, Step sfd a s t → (t.Graceful ↔ Patient sfd a s) := by
  have hr' := System.reachable_of_guarded hr
  have h := reachable_graceful hr
  exact ⟨h, fun a t hs => step_graceful (server_sound hr') (reachable_accounts hr') hs h⟩

/-- The server on descriptor 3 has accepted connection 0 on descriptor 5; the client has
sent `hi`, which has arrived. -/
def State.greeted : State :=
  ⟨⟨⟨Function.update State.listening.world.files 5 (some (.conn 0)),
    Function.update State.listening.world.interest 5 true, 1, []⟩, []⟩,
    Function.update (fun _ => ⟨[], [], [], false, false, false⟩) 0
      ⟨[104, 105], [], [104, 105], false, false, false⟩⟩

theorem greeted_reachable : ((system 3).guarded (Patient 3)).Reachable State.greeted := by
  have h0 : ((system 3).guarded (Patient 3)).Reachable
      ⟨State.listening, fun _ => ⟨[], [], [], false, false, false⟩⟩ :=
    .init ⟨listening_init, fun _ => rfl⟩
  have h1 := h0.nextGuarded (@Step.wait 3 _ [⟨3, 1, .listener⟩] _
    (.wait rfl (by decide) (by decide) (by decide))
    (by rintro e he id hfile; rw [List.mem_singleton.mp he] at hfile; cases hfile)) trivial
  have h2 := h1.nextGuarded (@Step.handle 3 _ _ _ ⟨.ok 5 true, .eof, .accepted 0, true⟩ rfl
    ⟨by rintro _ _ ⟨⟩; rfl, by rintro _ ⟨⟩⟩ (by rintro _ _ ⟨⟩))
    (by rintro _ _ _ ⟨⟩ hne; exact absurd rfl hne)
  have h3 := h2.nextGuarded (@Step.peer 3 _ 0 (.send [104, 105]) _ nofun rfl) trivial
  have h4 := h3.nextGuarded (@Step.peer 3 _ 0 (.arrive 2) _ (fun _ => List.not_mem_nil) rfl)
    trivial
  simp only [Function.update_idem] at h4
  exact h4

/-- `epoll_wait` reports what it should for the only connection of a batch. -/
theorem reports_single {wire : Nat → Wire} {e : Event} (h : (wire 0).Reports e.events)
    (hf : e.file = .conn 0) : ∀ e' ∈ [e], ∀ id, e'.file = .conn id →
      (wire id).Reports e'.events := by
  intro e' he' id hfile
  rw [List.mem_singleton.mp he'] at hfile ⊢
  rw [hf] at hfile
  cases hfile
  exact h

/-- `hi` is received, then the FIN arrives, and the connection is closed. -/
theorem read_before_fin :
    ∃ s, ((system 3).guarded (Patient 3)).Reachable s ∧ s.Closed 0 ∧ s.received 0 = [104, 105] ∧
      s.Graceful := by
  have h1 := greeted_reachable.nextGuarded (@Step.wait 3 _ [⟨5, EPOLLIN, .conn 0⟩] _
    (.wait rfl (by decide) (by decide) (by decide))
    (reports_single (fun _ => by decide) rfl)) trivial
  have h2 := h1.nextGuarded (@Step.handle 3 _ _ _
    ⟨.error 11, .data [104, 105], .accepted 8, true⟩ rfl
    ⟨by rintro _ _ ⟨⟩, by rintro _ ⟨⟩; decide⟩
    (by rintro _ _ ⟨⟩ ⟨⟩; exact List.prefix_rfl))
    (by rintro _ _ _ ⟨⟩ _ ⟨⟩ _; exact ⟨fun h => absurd h (by decide), nofun⟩)
  have h3 := h2.nextGuarded (@Step.peer 3 _ 0 .shutdown _ nofun rfl) trivial
  have h4 := h3.nextGuarded (@Step.peer 3 _ 0 .fin _ (fun _ => by decide) rfl) trivial
  have h5 := h4.nextGuarded (@Step.wait 3 _ [⟨5, EPOLLIN ||| EPOLLRDHUP, .conn 0⟩] _
    (.wait rfl (by decide) (by decide) (by decide))
    (reports_single (fun _ => by decide) rfl)) trivial
  have h6 := h5.nextGuarded (@Step.handle 3 _ _ _ ⟨.error 11, .eof, .accepted 0, true⟩ rfl
    ⟨by rintro _ _ ⟨⟩, by rintro _ ⟨⟩⟩ (by rintro _ _ ⟨⟩ ⟨⟩))
    (by rintro _ _ _ ⟨⟩ _ ⟨⟩ _; exact ⟨fun _ => rfl, fun h => absurd (by decide) h⟩)
  exact ⟨_, h6, by decide, rfl, (graceful_disconnect 3 h6).1⟩

/-- `hi` and the FIN arrive before the next `epoll_wait`. The event says `EPOLLIN` and
`EPOLLRDHUP`, and `main` closes the connection without a `recv`. -/
theorem closed_unread :
    ∃ s, (system 3).Reachable s ∧ s.Closed 0 ∧ (s.wire 0).failed = false ∧
      (s.wire 0).sent = [104, 105] ∧ s.received 0 = [] ∧ ¬ s.Graceful := by
  have h0 := System.reachable_of_guarded greeted_reachable
  have h1 := h0.next (@Step.peer 3 _ 0 .shutdown _ nofun rfl)
  have h2 := h1.next (@Step.peer 3 _ 0 .fin _ (fun _ => by decide) rfl)
  have h3 := h2.next (@Step.wait 3 _ [⟨5, EPOLLIN ||| EPOLLRDHUP, .conn 0⟩] _
    (.wait rfl (by decide) (by decide) (by decide))
    (reports_single (fun _ => by decide) rfl))
  have h4 := h3.next (@Step.handle 3 _ _ _ ⟨.error 11, .eof, .accepted 0, true⟩ rfl
    ⟨by rintro _ _ ⟨⟩, by rintro _ ⟨⟩⟩ (by rintro _ _ ⟨⟩ ⟨⟩))
  refine ⟨_, h4, by decide, rfl, rfl, rfl, ?_⟩
  intro h
  cases (h 0 (by decide) rfl).2

end LearnLinux.Disconnect
