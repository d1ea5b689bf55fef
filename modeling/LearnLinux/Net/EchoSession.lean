import LearnLinux.Net.Replies

/-!
# The echo client and the epoll server in one session

The message loop of `07_networking/tcp_client.c` sends a message, calls `recv` once and
prints what it got. `handle_client` of `07_networking/tcp_server.c` calls `recv` once and
sends one reply for it. Between them are two reliable byte streams, and a `recv`
returns any non-empty prefix of the bytes that are there, up to the size it was given.

`session_in_step`: as long as every `recv` returns all it can and the reply fits the
buffer of the client, the i-th reply printed is the echo of the i-th message. One `recv`
that returns less is enough to break this, see `split_message`.
-/

namespace LearnLinux.EchoSession

open CString Segment TcpServer Transition

/-! ## The session -/

/-- `BUF_SIZE` of the client. -/
def bufSize : Nat := 1024

/-- Where the client is in its loop; `left` is the `break` after a failed `recv`. -/
inductive Phase where
  | sending
  | receiving
  | left
  deriving DecidableEq, Repr

/-- The loop variable and phase of the client, the bytes sent and not yet received in
each direction, and what the client has printed. -/
structure State where
  i : Nat
  phase : Phase
  up : List UInt8
  down : List UInt8
  printed : List (List UInt8)
  deriving DecidableEq, Repr

/-- The client sends, receives `n` bytes or fails to; the server handles `n` bytes. -/
inductive Act where
  | send
  | recv (n : Nat)
  | fail
  | serve (n : Nat)
  deriving DecidableEq, Repr

/-- A `recv` with room for `size` bytes returns `n` of the bytes in `stream`. -/
def Returns (stream : List UInt8) (size n : Nat) : Prop :=
  1 ≤ n ∧ n ≤ size ∧ n ≤ stream.length

instance (stream : List UInt8) (size n : Nat) : Decidable (Returns stream size n) :=
  inferInstanceAs (Decidable (1 ≤ n ∧ n ≤ size ∧ n ≤ stream.length))

def step (messages : List (List UInt8)) : Act → State → Option State
  | .send, s =>
    match s.phase, messages[s.i]? with
    | .sending, some m => some { s with phase := .receiving, up := s.up ++ cString m }
    | _, _ => none
  | .recv n, s =>
    if s.phase = .receiving ∧ Returns s.down (bufSize - 1) n then
      let buf := s.down.take n ++ [0]
      some
        { s with
          i := s.i + 1
          phase := .sending
          down := s.down.drop n
          printed := s.printed ++ [cString buf] }
    else none
  | .fail, s => if s.phase = .receiving then some { s with phase := .left } else none
  | .serve n, s =>
    if Returns s.up (TcpServer.bufSize - 1) n then
      some { s with up := s.up.drop n, down := s.down ++ reply (s.up.take n) }
    else none

/-- What a step can do. -/
theorem step_cases {messages : List (List UInt8)} {a : Act} {s t : State}
    (hs : step messages a s = some t) :
    (∃ m, a = .send ∧ s.phase = .sending ∧ messages[s.i]? = some m ∧
      t = { s with phase := .receiving, up := s.up ++ cString m }) ∨
    (∃ n, a = .recv n ∧ s.phase = .receiving ∧ Returns s.down (bufSize - 1) n ∧
      t = { s with
        i := s.i + 1
        phase := .sending
        down := s.down.drop n
        printed := s.printed ++ [cString (s.down.take n ++ [0])] }) ∨
    (a = .fail ∧ s.phase = .receiving ∧ t = { s with phase := .left }) ∨
    (∃ n, a = .serve n ∧ Returns s.up (TcpServer.bufSize - 1) n ∧
      t = { s with up := s.up.drop n, down := s.down ++ reply (s.up.take n) }) := by
  cases a with
  | send =>
    simp only [step] at hs
    split at hs
    · next m hphase hmsg => exact Or.inl ⟨m, rfl, hphase, hmsg, (Option.some.inj hs).symm⟩
    · cases hs
  | recv n =>
    simp only [step] at hs
    split at hs
    · next h => exact Or.inr (Or.inl ⟨n, rfl, h.1, h.2, (Option.some.inj hs).symm⟩)
    · cases hs
  | fail =>
    simp only [step] at hs
    split at hs
    · next h => exact Or.inr (Or.inr (Or.inl ⟨rfl, h, (Option.some.inj hs).symm⟩))
    · cases hs
  | serve n =>
    simp only [step] at hs
    split at hs
    · next h => exact Or.inr (Or.inr (Or.inr ⟨n, rfl, h, (Option.some.inj hs).symm⟩))
    · cases hs

def State.initial : State := ⟨0, .sending, [], [], []⟩

def system (messages : List (List UInt8)) : System Act State :=
  .ofStep (fun s => s = State.initial) (step messages)

/-! ## In step -/

/-- The text the client expects for a message. -/
def echo (m : List UInt8) : List UInt8 := bytes "ECHO: " ++ m

/-- Every `recv` returns all the bytes there are, up to its size, and a message leaves
room for the six bytes in front of it. -/
def Unsplit (messages : List (List UInt8)) : Act → State → Prop
  | .send, s => ∀ m, messages[s.i]? = some m → m.length + 6 ≤ bufSize - 1
  | .recv n, s => n = min s.down.length (bufSize - 1)
  | .fail, _ => True
  | .serve n, s => n = min s.up.length (TcpServer.bufSize - 1)

/-- The messages of the client: C strings that fit its buffer. -/
def Valid (messages : List (List UInt8)) : Prop :=
  ∀ m ∈ messages, m ≠ [] ∧ 0 ∉ m ∧ m.length ≤ bufSize - 1

/-- Where the message that is under way can be: nowhere, at the server, or on its way
back. -/
structure State.InStep (messages : List (List UInt8)) (s : State) : Prop where
  printed : s.printed = (messages.take s.i).map echo
  idle : s.phase = .sending → s.up = [] ∧ s.down = []
  busy : s.phase ≠ .sending → ∃ m, messages[s.i]? = some m ∧ m.length + 6 ≤ bufSize - 1 ∧
    ((s.up = m ∧ s.down = []) ∨ (s.up = [] ∧ s.down = echo m))

theorem length_echo (m : List UInt8) : (echo m).length = m.length + 6 := by
  have hlen : (bytes "ECHO: ").length = 6 := by decide +kernel
  rw [echo, List.length_append, hlen, Nat.add_comm]

theorem echo_ne_zero {m : List UInt8} (h : 0 ∉ m) : 0 ∉ echo m := by
  have hbytes : (0 : UInt8) ∉ bytes "ECHO: " := by decide +kernel
  rw [echo, List.mem_append]
  rintro (h0 | h0)
  · exact hbytes h0
  · exact h h0

theorem reply_echo {m : List UInt8} (h0 : 0 ∉ m) (hlen : m.length ≤ TcpServer.bufSize - 1) :
    reply m = echo m := by
  rw [reply_eq hlen, cString_eq_self_iff.mpr h0, echo]

/-- A `recv` returns nothing while its stream is empty. -/
theorem not_returns_nil (size n : Nat) : ¬ Returns [] size n := by
  rintro ⟨hpos, -, hle⟩
  rw [List.length_nil] at hle
  omega

theorem step_inStep {messages : List (List UInt8)} (hm : Valid messages) {a : Act} {s t : State}
    (hs : step messages a s = some t) (hg : Unsplit messages a s) (h : s.InStep messages) :
    t.InStep messages := by
  obtain ⟨hprinted, hidle, hbusy⟩ := h
  rcases step_cases hs with ⟨m, rfl, hphase, hmsg, rfl⟩ | ⟨n, rfl, hphase, hret, rfl⟩ |
    ⟨rfl, hphase, rfl⟩ | ⟨n, rfl, hret, rfl⟩
  · obtain ⟨hup, hdown⟩ := hidle hphase
    have h0 := (hm m (List.mem_of_getElem? hmsg)).2.1
    refine ⟨hprinted, nofun, fun _ => ⟨m, hmsg, hg m hmsg, Or.inl ⟨?_, hdown⟩⟩⟩
    simp only [hup, cString_eq_self_iff.mpr h0, List.nil_append]
  · obtain ⟨m, hmsg, hlen, ⟨-, hdown⟩ | ⟨hup, hdown⟩⟩ := hbusy (by rw [hphase]; decide)
    · rw [hdown] at hret
      exact absurd hret (not_returns_nil _ _)
    · -- the reply is all there is, and it fits
      have hn : n = (echo m).length := by
        have hmin : n = min s.down.length (bufSize - 1) := hg
        rw [hdown, length_echo] at hmin
        rw [length_echo]
        omega
      have h0 := echo_ne_zero (hm m (List.mem_of_getElem? hmsg)).2.1
      refine ⟨?_, fun _ => ⟨hup, ?_⟩, fun he => absurd rfl he⟩
      · simp only
        rw [hdown, hn, List.take_length, cString_terminated, cString_eq_self_iff.mpr h0, hprinted,
          List.take_add_one, hmsg, List.map_append]
        rfl
      · simp only
        rw [hdown, hn, List.drop_length]
  · exact ⟨hprinted, nofun, fun _ => hbusy (by rw [hphase]; decide)⟩
  · by_cases hphase : s.phase = .sending
    · rw [(hidle hphase).1] at hret
      exact absurd hret (not_returns_nil _ _)
    obtain ⟨m, hmsg, hlen, ⟨hup, hdown⟩ | ⟨hup, -⟩⟩ := hbusy hphase
    · obtain ⟨-, h0, hfits⟩ := hm m (List.mem_of_getElem? hmsg)
      have hn : n = m.length := by
        have hmin : n = min s.up.length (TcpServer.bufSize - 1) := hg
        rw [hup] at hmin
        simp only [bufSize, TcpServer.bufSize] at *
        omega
      refine ⟨hprinted, fun he => absurd he hphase, fun _ => ⟨m, hmsg, hlen, Or.inr ⟨?_, ?_⟩⟩⟩
      · simp only
        rw [hup, hn, List.drop_length]
      · simp only
        rw [hup, hn, List.take_length, hdown, List.nil_append, reply_echo h0 hfits]
    · rw [hup] at hret
      exact absurd hret (not_returns_nil _ _)

theorem reachable_inStep {messages : List (List UInt8)} (hm : Valid messages) {s : State}
    (hr : ((system messages).guarded (Unsplit messages)).Reachable s) : s.InStep messages := by
  induction hr with
  | init hi =>
    cases hi
    exact ⟨rfl, fun _ => ⟨rfl, rfl⟩, fun he => absurd rfl he⟩
  | next _ hs ih => exact step_inStep hm hs.2 hs.1 ih

/-- Without any condition: the client prints at most as much as its buffer holds. -/
theorem reachable_printed_le {messages : List (List UInt8)} {s : State}
    (hr : (system messages).Reachable s) : ∀ p ∈ s.printed, p.length ≤ bufSize - 1 := by
  induction hr with
  | init hi =>
    cases hi
    intro p hp
    cases hp
  | next _ hs ih =>
    rcases step_cases hs with ⟨m, rfl, -, -, rfl⟩ | ⟨n, rfl, -, hret, rfl⟩ | ⟨rfl, -, rfl⟩ |
      ⟨n, rfl, -, rfl⟩
    · exact ih
    · intro p hp
      rcases List.mem_append.mp hp with hp | hp
      · exact ih p hp
      · rw [List.mem_singleton.mp hp, cString_terminated]
        refine Nat.le_trans (length_cString_le _) ?_
        exact Nat.le_trans (List.length_take_le n _) hret.2.1
    · exact ih
    · exact ih

/-- **Client and server stay in step** in every run that meets the condition: the i-th
reply printed is the echo of the i-th message. In no run at all is the echo of a message
printed that leaves no room for the prefix. -/
theorem session_in_step (messages : List (List UInt8)) (hm : Valid messages) :
    (∀ s, ((system messages).guarded (Unsplit messages)).Reachable s →
      ∀ (i : Nat) p, s.printed[i]? = some p → ∃ m, messages[i]? = some m ∧ p = echo m) ∧
    ∀ s, (system messages).Reachable s →
      ∀ m, echo m ∈ s.printed → m.length + 6 ≤ bufSize - 1 := by
  constructor
  · intro s hr i p hp
    rw [(reachable_inStep hm hr).printed] at hp
    exact getElem?_map_take hp
  · intro s hr m hp
    rw [← length_echo]
    exact reachable_printed_le hr _ hp

theorem valid_hi : Valid [[104, 105]] := List.forall_mem_singleton.mpr (by decide)

theorem valid_hi_you : Valid [[104, 105], [121, 111, 117]] :=
  List.forall_mem_cons.mpr ⟨by decide, List.forall_mem_singleton.mpr (by decide)⟩

/-- The messages `hi` and `you`, each answered as a whole. -/
theorem whole_message :
    ∃ s, ((system [[104, 105], [121, 111, 117]]).guarded
        (Unsplit [[104, 105], [121, 111, 117]])).Reachable s ∧
      s.printed = [echo [104, 105], echo [121, 111, 117]] ∧
      ∀ (i : Nat) p, s.printed[i]? = some p →
        ∃ m, [[104, 105], [121, 111, 117]][i]? = some m ∧ p = echo m := by
  let messages : List (List UInt8) := [[104, 105], [121, 111, 117]]
  have h0 : ((system messages).guarded (Unsplit messages)).Reachable State.initial := .init rfl
  have h1 := h0.nextGuarded (show step messages .send _ = some _ from rfl)
    (by rintro m ⟨⟩; decide)
  have h2 := h1.nextGuarded (show step messages (.serve 2) _ = some _ from rfl) rfl
  have h3 := h2.nextGuarded (show step messages (.recv 8) _ = some _ from rfl) rfl
  have h4 := h3.nextGuarded (show step messages .send _ = some _ from rfl)
    (by rintro m ⟨⟩; decide)
  have h5 := h4.nextGuarded (show step messages (.serve 3) _ = some _ from rfl) rfl
  have h6 := h5.nextGuarded (show step messages (.recv 9) _ = some _ from rfl) rfl
  exact ⟨_, h6, by decide +kernel, (session_in_step messages valid_hi_you).1 _ h6⟩

/-- The server receives `h` and `i` apart, and the client prints the reply to `h`. -/
theorem split_message :
    Valid [[104, 105]] ∧ ∃ s, (system [[104, 105]]).Reachable s ∧
      s.printed[0]? = some (echo [104]) ∧ s.printed[0]? ≠ some (echo [104, 105]) := by
  have h0 : (system [[104, 105]]).Reachable State.initial := .init rfl
  have h3 := h0.run [.send, .serve 1, .recv 7] rfl
  exact ⟨valid_hi, _, h3, by decide +kernel, by decide +kernel⟩

end LearnLinux.EchoSession
