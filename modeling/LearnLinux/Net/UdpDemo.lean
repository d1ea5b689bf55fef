import LearnLinux.Lib.CString
import LearnLinux.Lib.Transition
import Mathlib.Data.List.Count

/-!
# The datagram exchange of `07_networking/udp_demo.c`

The child sends a message and waits for its echo, again and again; the parent sends
every datagram it gets back to where it came from, using one buffer and one peer
address for all of them. The network loses and delays datagrams, and other processes
send to the server whatever they like. There are no sequence numbers and no
timeouts: a lost datagram leaves the client waiting for ever. The parent keeps its
socket open until the child has ended, so the child's `recv` returns only with a datagram.

`echoes_matched`: the replies are the messages in order, the server answers whom it
got the content from, and at most one datagram of the exchange is in flight.
-/

namespace LearnLinux.UdpDemo

open CString Segment Transition

/-! ## The two processes and the network -/

/-- `BUF_SZ`. -/
def bufSz : Nat := 512

structure Datagram (A : Type*) where
  src : A
  dst : A
  payload : List UInt8
  deriving DecidableEq, Repr

/-- What the client sends for a text: the string in `msg` with its terminator. -/
def message (text : List UInt8) : List UInt8 :=
  let msg := snprintf (List.replicate bufSz 0) bufSz text
  msg.take ((cString msg).length + 1)

/-- The loop of the child: the loop variable, whether it is in `recv`, what it received,
and the echoes it printed. -/
structure Client where
  i : Nat
  waiting : Bool
  replies : List (List UInt8)
  printed : List (List UInt8)

/-- Where the parent is in its loop; `left` is the `break`. -/
inductive Phase where
  | receiving
  | sending
  | left
  deriving DecidableEq, Repr

/-- The loop of the parent with its variables. `last` is the datagram it got last, and
`log` what it sent for which. -/
structure Server (A : Type*) where
  i : Nat
  phase : Phase
  buf : List UInt8
  n : Nat
  peer : A
  last : Datagram A
  log : List (Datagram A × Datagram A)

structure State (A : Type*) where
  net : List (Datagram A)
  client : Client
  server : Server A

inductive Act where
  | clientSend
  | clientRecv
  | serverRecv
  | serverFail
  | serverSend
  | lose
  | foreign

section Exchange

variable {A : Type*} [DecidableEq A] (clientAddr serverAddr : A) (messages : List (List UInt8))

/-- The variables of the server after `recvfrom` returned `d`. -/
def Server.recvfrom (v : Server A) (d : Datagram A) : Server A :=
  let data := d.payload.take (bufSz - 1)
  { v with
    phase := .sending
    buf := blit (blit v.buf 0 data) data.length [0]
    n := data.length
    peer := d.src
    last := d }

/-- The datagram of `sendto(srv, buf, n, 0, &peer, plen)`. -/
def Server.reply (v : Server A) : Datagram A := ⟨serverAddr, v.peer, v.buf.take v.n⟩

/-- The child after `recv` returned `data`. -/
def Client.recv (c : Client) (payload : List UInt8) : Client :=
  let data := payload.take (bufSz - 1)
  { i := c.i + 1
    waiting := false
    replies := c.replies ++ [data]
    printed := if 0 < data.length then c.printed ++ [cString (data ++ [0])] else c.printed }

inductive Step : Act → State A → State A → Prop
  | clientSend {s : State A} {text : List UInt8} : s.client.waiting = false →
      messages[s.client.i]? = some text →
      Step .clientSend s
        { s with
          net := ⟨clientAddr, serverAddr, message text⟩ :: s.net
          client := { s.client with waiting := true } }
  | clientRecv {s : State A} {d : Datagram A} {net : List (Datagram A)} :
      s.client.waiting = true → s.net.Perm (d :: net) → d.src = serverAddr → d.dst = clientAddr →
      Step .clientRecv s { s with net := net, client := s.client.recv d.payload }
  | serverRecv {s : State A} {d : Datagram A} {net : List (Datagram A)} :
      s.server.phase = .receiving → s.server.i < messages.length → s.net.Perm (d :: net) →
      d.dst = serverAddr →
      Step .serverRecv s { s with net := net, server := s.server.recvfrom d }
  | serverFail {s : State A} : s.server.phase = .receiving → s.server.i < messages.length →
      Step .serverFail s { s with server := { s.server with phase := .left } }
  | serverSend {s : State A} : s.server.phase = .sending →
      Step .serverSend s
        { s with
          net := s.server.reply serverAddr :: s.net
          server :=
            { s.server with
              i := s.server.i + 1
              phase := .receiving
              log := s.server.log ++ [(s.server.last, s.server.reply serverAddr)] } }
  | lose {s : State A} {d : Datagram A} {net : List (Datagram A)} : s.net.Perm (d :: net) →
      Step .lose s { s with net := net }
  | foreign {s : State A} {d : Datagram A} : d.src ≠ clientAddr →
      (d.dst = clientAddr → d.src ≠ serverAddr) →
      Step .foreign s { s with net := d :: s.net }

/-- Both loops start with nothing in flight; the variables of the server are not
initialised. -/
def system : System Act (State A) where
  init s := s.net = [] ∧ s.client = ⟨0, false, [], []⟩ ∧ s.server.i = 0 ∧
    s.server.phase = .receiving ∧ s.server.buf.length = bufSz ∧ s.server.log = []
  step := Step clientAddr serverAddr messages

/-- The datagram belongs to the exchange of the two processes. -/
def Exchanged (d : Datagram A) : Bool :=
  (d.src = clientAddr ∧ d.dst = serverAddr) ∨ (d.src = serverAddr ∧ d.dst = clientAddr)

/-! ## The invariant -/

/-- The server holds a datagram of the client, between `recvfrom` and `sendto`. -/
def Server.Holds (v : Server A) : Prop := v.phase = .sending ∧ v.peer = clientAddr

instance (v : Server A) : Decidable (v.Holds clientAddr) :=
  inferInstanceAs (Decidable (v.phase = .sending ∧ v.peer = clientAddr))

/-- The bytes are those of the message that the client waits for. -/
def Client.Awaits (c : Client) (payload : List UInt8) : Prop :=
  ∃ text, messages[c.i]? = some text ∧ payload = message text

/-- The server between `recvfrom` and `sendto` has in its variables what it got, and
every datagram of the log is an answer. -/
structure Server.Honest (v : Server A) : Prop where
  size : v.buf.length = bufSz
  content : v.phase = .sending → v.peer = v.last.src ∧
    v.buf.take v.n = v.last.payload.take (bufSz - 1)
  answers : ∀ x ∈ v.log, x.2.src = serverAddr ∧ x.2.dst = x.1.src ∧
    x.2.payload = x.1.payload.take (bufSz - 1)

/-- At most one datagram of the exchange is in flight or at the server, none unless the
client waits, and it is the message the client waits for. -/
structure State.Matched (s : State A) : Prop where
  replies : s.client.replies = (messages.take s.client.i).map message
  printed : s.client.printed = (messages.take s.client.i).map fun text => cString (message text)
  honest : s.server.Honest serverAddr
  single : s.net.countP (Exchanged clientAddr serverAddr) +
    (if s.server.Holds clientAddr then 1 else 0) ≤ s.client.waiting.toNat
  flying : ∀ d ∈ s.net, Exchanged clientAddr serverAddr d = true → s.client.Awaits messages d.payload
  held : s.server.Holds clientAddr → s.client.Awaits messages (s.server.buf.take s.server.n)

end Exchange

theorem length_message_pos (text : List UInt8) : 0 < (message text).length := by
  simp only [message, snprintf, blit, List.length_take, List.length_append, List.length_singleton]
  omega

section Server

variable {A : Type*} {serverAddr : A}

/-- `recvfrom` stores the bytes it got at the front of `buf`. -/
theorem recvfrom_content {v : Server A} (hsize : v.buf.length = bufSz) (d : Datagram A) :
    (v.recvfrom d).buf.length = bufSz ∧
      (v.recvfrom d).buf.take (v.recvfrom d).n = d.payload.take (bufSz - 1) := by
  have hlen : (d.payload.take (bufSz - 1)).length ≤ bufSz - 1 := List.length_take_le _ _
  have hpos : 0 < bufSz := by decide
  have hfirst : (blit v.buf 0 (d.payload.take (bufSz - 1))).length = bufSz := by
    rw [length_blit _ _ _ (by omega), hsize]
  refine ⟨?_, ?_⟩
  · simp only [Server.recvfrom]
    rw [length_blit _ _ _ (by rw [hfirst, List.length_singleton]; omega), hfirst]
  · simp only [Server.recvfrom]
    rw [take_blit_of_le _ _ _ _ (Nat.le_refl _) (by omega)]
    have hend := take_blit_end v.buf (d.payload.take (bufSz - 1)) 0 (Nat.zero_le _)
    rwa [Nat.zero_add, List.take_zero, List.nil_append] at hend

theorem recvfrom_honest {v : Server A} (h : v.Honest serverAddr) (d : Datagram A) :
    (v.recvfrom d).Honest serverAddr := by
  obtain ⟨hsize, hcontent⟩ := recvfrom_content h.size d
  exact ⟨hsize, fun _ => ⟨rfl, hcontent⟩, h.answers⟩

/-- `sendto` answers the datagram that is in the variables. -/
theorem reply_answers {v : Server A} (h : v.Honest serverAddr) (hp : v.phase = .sending) :
    ∀ x ∈ v.log ++ [(v.last, v.reply serverAddr)], x.2.src = serverAddr ∧ x.2.dst = x.1.src ∧
      x.2.payload = x.1.payload.take (bufSz - 1) := by
  intro x hx
  rcases List.mem_append.mp hx with hx | hx
  · exact h.answers x hx
  · obtain ⟨hpeer, hcontent⟩ := h.content hp
    rw [List.mem_singleton.mp hx]
    exact ⟨rfl, hpeer, hcontent⟩

end Server

section Steps

variable {A : Type*} [DecidableEq A] {clientAddr serverAddr : A} {messages : List (List UInt8)}
  {s : State A} {d : Datagram A} {net : List (Datagram A)}

theorem exchanged_to_server (hne : clientAddr ≠ serverAddr) (hdst : d.dst = serverAddr) :
    Exchanged clientAddr serverAddr d = true ↔ d.src = clientAddr := by
  simp [Exchanged, hdst, hne.symm]

theorem exchanged_from_server (hne : clientAddr ≠ serverAddr) (hsrc : d.src = serverAddr) :
    Exchanged clientAddr serverAddr d = true ↔ d.dst = clientAddr := by
  simp [Exchanged, hsrc, hne.symm]

/-- While nothing of the exchange is in flight, every claim about such a datagram
holds. -/
theorem none_flying (h : net.countP (Exchanged clientAddr serverAddr) = 0) :
    ∀ d ∈ net, Exchanged clientAddr serverAddr d = true → False := by
  intro d hd hex
  exact absurd hex (List.countP_eq_zero.mp h d hd)

theorem clientSend_matched {text : List UInt8} (hne : clientAddr ≠ serverAddr)
    (h : s.Matched clientAddr serverAddr messages) (hw : s.client.waiting = false)
    (htext : messages[s.client.i]? = some text) :
    State.Matched clientAddr serverAddr messages
      { s with
        net := ⟨clientAddr, serverAddr, message text⟩ :: s.net
        client := { s.client with waiting := true } } := by
  obtain ⟨hreplies, hprinted, hhonest, hsingle, hflying, hheld⟩ := h
  rw [hw, Bool.toNat_false] at hsingle
  have hex : Exchanged clientAddr serverAddr ⟨clientAddr, serverAddr, message text⟩ = true :=
    (exchanged_to_server hne rfl).mpr rfl
  refine ⟨hreplies, hprinted, hhonest, ?_, ?_, hheld⟩
  · simp only [List.countP_cons_of_pos hex, Bool.toNat_true]
    omega
  · intro d hd hdex
    rcases List.mem_cons.mp hd with rfl | hd
    · exact ⟨text, htext, rfl⟩
    · exact absurd hdex (List.countP_eq_zero.mp (by omega) d hd)

theorem clientRecv_matched (hne : clientAddr ≠ serverAddr)
    (hm : ∀ text ∈ messages, (message text).length ≤ bufSz - 1)
    (h : s.Matched clientAddr serverAddr messages) (hw : s.client.waiting = true)
    (hnet : s.net.Perm (d :: net)) (hsrc : d.src = serverAddr) (hdst : d.dst = clientAddr) :
    State.Matched clientAddr serverAddr messages
      { s with net := net, client := s.client.recv d.payload } := by
  obtain ⟨hreplies, hprinted, hhonest, hsingle, hflying, hheld⟩ := h
  have hex := (exchanged_from_server hne hsrc).mpr hdst
  rw [hw, Bool.toNat_true, hnet.countP_eq, List.countP_cons_of_pos hex] at hsingle
  obtain ⟨text, htext, hpayload⟩ := hflying d (hnet.mem_iff.mpr List.mem_cons_self) hex
  have hnone : net.countP (Exchanged clientAddr serverAddr) = 0 := by omega
  have hfree : ¬ s.server.Holds clientAddr := by
    intro hh
    rw [if_pos hh] at hsingle
    omega
  have hdata : d.payload.take (bufSz - 1) = message text := by
    rw [hpayload, List.take_of_length_le (hm text (List.mem_of_getElem? htext))]
  refine ⟨?_, ?_, hhonest, ?_, fun d' hd' hex' => (none_flying hnone d' hd' hex').elim,
    fun hh => absurd hh hfree⟩
  · simp only [Client.recv]
    rw [hdata, hreplies, List.take_add_one, htext, List.map_append]
    rfl
  · simp only [Client.recv]
    rw [hdata, if_pos (length_message_pos text), hprinted, List.take_add_one, htext,
      List.map_append, cString_terminated]
    rfl
  · simp only [Client.recv, hnone, if_neg hfree]
    exact Nat.le_refl _

theorem serverRecv_matched (hne : clientAddr ≠ serverAddr)
    (hm : ∀ text ∈ messages, (message text).length ≤ bufSz - 1)
    (h : s.Matched clientAddr serverAddr messages) (hphase : s.server.phase = .receiving)
    (hnet : s.net.Perm (d :: net)) (hdst : d.dst = serverAddr) :
    State.Matched clientAddr serverAddr messages
      { s with net := net, server := s.server.recvfrom d } := by
  obtain ⟨hreplies, hprinted, hhonest, hsingle, hflying, -⟩ := h
  have hfree : ¬ s.server.Holds clientAddr := by
    rintro ⟨hp, -⟩
    rw [hphase] at hp
    cases hp
  have hholds : (s.server.recvfrom d).Holds clientAddr ↔ d.src = clientAddr :=
    ⟨fun hh => hh.2, fun hsrc => ⟨rfl, hsrc⟩⟩
  have hmem : ∀ d' ∈ net, d' ∈ s.net := fun d' hd' =>
    hnet.mem_iff.mpr (List.mem_cons_of_mem _ hd')
  rw [if_neg hfree, hnet.countP_eq, List.countP_cons] at hsingle
  refine ⟨hreplies, hprinted, recvfrom_honest hhonest d, ?_, fun d' hd' => hflying d' (hmem d' hd'), ?_⟩
  · simp only [hholds]
    simp only [exchanged_to_server hne hdst] at hsingle
    exact hsingle
  · intro hh
    have hex := (exchanged_to_server hne hdst).mpr (hholds.mp hh)
    obtain ⟨text, htext, hpayload⟩ := hflying d (hnet.mem_iff.mpr List.mem_cons_self) hex
    refine ⟨text, htext, ?_⟩
    simp only
    rw [(recvfrom_content hhonest.size d).2, hpayload,
      List.take_of_length_le (hm text (List.mem_of_getElem? htext))]

theorem serverSend_matched (hne : clientAddr ≠ serverAddr)
    (h : s.Matched clientAddr serverAddr messages) (hphase : s.server.phase = .sending) :
    State.Matched clientAddr serverAddr messages
      { s with
        net := s.server.reply serverAddr :: s.net
        server :=
          { s.server with
            i := s.server.i + 1
            phase := .receiving
            log := s.server.log ++ [(s.server.last, s.server.reply serverAddr)] } } := by
  obtain ⟨hreplies, hprinted, hhonest, hsingle, hflying, hheld⟩ := h
  have hex : Exchanged clientAddr serverAddr (s.server.reply serverAddr) = true ↔
      s.server.Holds clientAddr :=
    (exchanged_from_server hne rfl).trans ⟨fun hp => ⟨hphase, hp⟩, fun hh => hh.2⟩
  refine ⟨hreplies, hprinted, ⟨hhonest.size, nofun, reply_answers hhonest hphase⟩, ?_, ?_, nofun⟩
  · have hfree : ¬ Server.Holds clientAddr
        { s.server with
          i := s.server.i + 1
          phase := .receiving
          log := s.server.log ++ [(s.server.last, s.server.reply serverAddr)] } := nofun
    simp only [if_neg hfree, List.countP_cons, hex]
    exact hsingle
  · intro d hd hdex
    rcases List.mem_cons.mp hd with rfl | hd
    · exact hheld (hex.mp hdex)
    · exact hflying d hd hdex

theorem step_matched {a : Act} {t : State A} (hne : clientAddr ≠ serverAddr)
    (hm : ∀ text ∈ messages, (message text).length ≤ bufSz - 1)
    (hs : Step clientAddr serverAddr messages a s t)
    (h : s.Matched clientAddr serverAddr messages) : t.Matched clientAddr serverAddr messages := by
  cases hs with
  | clientSend hw htext => exact clientSend_matched hne h hw htext
  | clientRecv hw hnet hsrc hdst => exact clientRecv_matched hne hm h hw hnet hsrc hdst
  | serverRecv hphase _ hnet hdst => exact serverRecv_matched hne hm h hphase hnet hdst
  | serverFail hphase _ =>
    obtain ⟨hreplies, hprinted, hhonest, hsingle, hflying, -⟩ := h
    have hle := Nat.le_trans (Nat.le_add_right _ _) hsingle
    exact ⟨hreplies, hprinted, ⟨hhonest.size, nofun, hhonest.answers⟩, hle, hflying, nofun⟩
  | serverSend hphase => exact serverSend_matched hne h hphase
  | @lose _ d net hnet =>
    obtain ⟨hreplies, hprinted, hhonest, hsingle, hflying, hheld⟩ := h
    refine ⟨hreplies, hprinted, hhonest, ?_, ?_, hheld⟩
    · rw [hnet.countP_eq, List.countP_cons] at hsingle
      simp only
      omega
    · intro d' hd'
      exact hflying d' (hnet.mem_iff.mpr (List.mem_cons_of_mem _ hd'))
  | @foreign _ d hsrc hdst =>
    obtain ⟨hreplies, hprinted, hhonest, hsingle, hflying, hheld⟩ := h
    have hex : ¬ Exchanged clientAddr serverAddr d = true := by
      simp only [Exchanged, decide_eq_true_eq]
      rintro (⟨hc, -⟩ | ⟨hsv, hc⟩)
      · exact hsrc hc
      · exact hdst hc hsv
    refine ⟨hreplies, hprinted, hhonest, ?_, ?_, hheld⟩
    · rw [List.countP_cons_of_neg hex]
      exact hsingle
    · intro d' hd' hdex
      rcases List.mem_cons.mp hd' with rfl | hd'
      · exact absurd hdex hex
      · exact hflying d' hd' hdex

theorem reachable_matched (hne : clientAddr ≠ serverAddr)
    (hm : ∀ text ∈ messages, (message text).length ≤ bufSz - 1)
    (hr : (system clientAddr serverAddr messages).Reachable s) :
    s.Matched clientAddr serverAddr messages := by
  induction hr with
  | @init s hi =>
    obtain ⟨hnet, hclient, -, hphase, hsize, hlog⟩ := hi
    have hfree : ¬ s.server.Holds clientAddr := by
      rintro ⟨hp, -⟩
      rw [hphase] at hp
      cases hp
    refine ⟨by rw [hclient]; rfl, by rw [hclient]; rfl, ⟨hsize, ?_, ?_⟩, ?_, ?_,
      fun hh => absurd hh hfree⟩
    · intro hp
      rw [hphase] at hp
      cases hp
    · rw [hlog]
      intro x hx
      cases hx
    · rw [hnet, hclient, if_neg hfree]
      exact Nat.le_refl _
    · rw [hnet]
      intro d hd
      cases hd
  | next _ hs ih => exact step_matched hne hm hs ih

/-- **Echoes are never mismatched**, over every loss and delay, and whatever other
processes send. -/
theorem echoes_matched (hne : clientAddr ≠ serverAddr) (messages : List (List UInt8))
    (hm : ∀ text ∈ messages, (message text).length ≤ bufSz - 1)
    (hr : (system clientAddr serverAddr messages).Reachable s) :
    (∀ (i : Nat) r, s.client.replies[i]? = some r →
      ∃ text, messages[i]? = some text ∧ r = message text) ∧
    s.client.printed = s.client.replies.map cString ∧
    (∀ x ∈ s.server.log, x.2.src = serverAddr ∧ x.2.dst = x.1.src ∧
      x.2.payload = x.1.payload.take (bufSz - 1)) ∧
    s.net.countP (Exchanged clientAddr serverAddr) ≤ 1 := by
  obtain ⟨hreplies, hprinted, hhonest, hsingle, -, -⟩ := reachable_matched hne hm hr
  refine ⟨?_, by rw [hprinted, hreplies, List.map_map]; rfl, hhonest.answers, ?_⟩
  · intro i r hr
    rw [hreplies] at hr
    exact getElem?_map_take hr
  · have hle := Bool.toNat_le s.client.waiting
    omega

end Steps

/-- Another process, with address 7, is served before the client, whose address is 1. -/
theorem foreign_first :
    ∃ s, (system 1 0 [[104, 105], [104]]).Reachable s ∧ s.server.log.length = 2 ∧
      s.client.replies.length = 1 ∧
      (∀ (i : Nat) r, s.client.replies[i]? = some r →
        ∃ text, [[104, 105], [104]][i]? = some text ∧ r = message text) := by
  have h0 : (system 1 0 [[104, 105], [104]]).Reachable
      ⟨[], ⟨0, false, [], []⟩, ⟨0, .receiving, List.replicate bufSz 0, 0, 0, ⟨0, 0, []⟩, []⟩⟩ :=
    .init ⟨rfl, rfl, rfl, rfl, List.length_replicate, rfl⟩
  have h1 := h0.next (.clientSend rfl rfl)
  have h2 := h1.next (.foreign (d := ⟨7, 0, [120]⟩) (by decide) (by decide))
  have h3 := h2.next (.serverRecv rfl (by decide) (List.Perm.refl _) rfl)
  have h4 := h3.next (.serverSend rfl)
  have h5 := h4.next (.serverRecv rfl (by decide) (List.Perm.swap _ _ _) rfl)
  have h6 := h5.next (.serverSend rfl)
  have h7 := h6.next (.clientRecv rfl (List.Perm.refl _) rfl rfl)
  have hm : ∀ text ∈ [[104, 105], [104]], (message text).length ≤ bufSz - 1 := by decide +kernel
  exact ⟨_, h7, rfl, rfl, (echoes_matched (by decide) _ hm h7).1⟩

end LearnLinux.UdpDemo
