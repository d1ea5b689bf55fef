import LearnLinux.Net.TcpServer
import Mathlib.Data.List.TakeDrop

/-!
# The replies of the epoll server

`handle_client` of `07_networking/tcp_server.c` answers every chunk it receives with one
`send` on a socket that does not block, and does not look at the result. The
reply is built in a local array, so what `send` does not take is gone.

* `echo_faithful_iff` says for every chunk when the reply is the chunk behind `"ECHO: "`.
* `replies_whole_iff` says for every run and every connection when the bytes taken by
  the socket are the replies in order.
-/

namespace LearnLinux.TcpServer

open CString Segment Transition

/-! ## What the calls on a connection carried -/

/-- The chunks received from `f`. -/
def chunks (f : File) (trace : List Access) : List (List UInt8) :=
  trace.filterMap fun a =>
    match a.op with
    | .recv (.data chunk) => if a.target = some f then some chunk else none
    | _ => none

/-- The `send` calls on `f` with their results. -/
def sends (f : File) (trace : List Access) : List (List UInt8 × Send) :=
  trace.filterMap fun a =>
    match a.op with
    | .send data r => if a.target = some f then some (data, r) else none
    | _ => none

/-- The bytes that one `send` hands to the socket. -/
def taken : List UInt8 × Send → List UInt8
  | (data, .accepted n) => data.take n
  | (_, .error _) => []

/-- `send` takes all of its bytes. -/
def Whole (x : List UInt8 × Send) : Prop := ∃ n, x.2 = .accepted n ∧ x.1.length ≤ n

/-- The bytes taken by the socket of `f`, in order. -/
def accepted (f : File) (trace : List Access) : List UInt8 := (sends f trace).flatMap taken

/-- The bytes that the server keeps for a later `send` on `f`. The program has no place
for any: `buf` and `resp` are local to `handle_client`. -/
def World.held (_ : World) (_ : File) : List UInt8 := []

theorem chunks_append (f : File) (s t : List Access) :
    chunks f (s ++ t) = chunks f s ++ chunks f t :=
  List.filterMap_append

theorem sends_append (f : File) (s t : List Access) :
    sends f (s ++ t) = sends f s ++ sends f t :=
  List.filterMap_append

/-! ## One reply for each chunk -/

/-- The text fits the array of `handle_client`. -/
theorem reply_eq {chunk : List UInt8} (h : chunk.length ≤ bufSize - 1) :
    reply chunk = bytes "ECHO: " ++ cString chunk := by
  have hprefix : (bytes "ECHO: ").length = 6 := by decide +kernel
  have hlen : (bytes "ECHO: " ++ cString chunk).length ≤ bufSize + 16 - 1 := by
    have hle := length_cString_le chunk
    rw [List.length_append, hprefix]
    simp only [bufSize] at *
    omega
  simp only [reply, cString_terminated]
  exact take_snprintf _ hlen

theorem reply_ne_nil {chunk : List UInt8} (h : chunk.length ≤ bufSize - 1) :
    reply chunk ≠ [] := by
  rw [reply_eq h]
  exact List.append_ne_nil_of_left_ne_nil (by decide +kernel) _

theorem taken_eq_iff {x : List UInt8 × Send} (h : x.1 ≠ []) : taken x = x.1 ↔ Whole x := by
  obtain ⟨data, r⟩ := x
  cases r with
  | accepted n =>
    rw [taken]
    constructor
    · intro he
      exact ⟨n, rfl, (List.take_eq_self_iff data).mp he⟩
    · rintro ⟨n', he, hle⟩
      cases he
      exact List.take_of_length_le hle
  | error errno =>
    constructor
    · intro he
      exact absurd he.symm h
    · rintro ⟨n, he, -⟩
      cases he

theorem length_taken_le (x : List UInt8 × Send) : (taken x).length ≤ x.1.length := by
  obtain ⟨data, r⟩ := x
  cases r with
  | accepted n => exact List.length_take_le' n data
  | error errno => exact Nat.zero_le _

theorem length_taken_reply_le {chunk : List UInt8} {r : Send} (h : chunk.length ≤ bufSize - 1) :
    (taken (reply chunk, r)).length ≤ (bytes "ECHO: " ++ chunk).length := by
  refine Nat.le_trans (length_taken_le (reply chunk, r)) ?_
  have hle := length_cString_le chunk
  simp only [reply_eq h, List.length_append]
  omega

/-- One `send` takes `"ECHO: "` and the whole chunk. -/
theorem taken_echo_iff {chunk : List UInt8} {r : Send} (h : chunk.length ≤ bufSize - 1) :
    taken (reply chunk, r) = bytes "ECHO: " ++ chunk ↔ Whole (reply chunk, r) ∧ 0 ∉ chunk := by
  have hreply := reply_eq h
  have hne := reply_ne_nil h
  constructor
  · intro he
    -- the socket takes no more than the reply, which is no longer than the text
    have hself : cString chunk = chunk := by
      have hle := length_taken_le (reply chunk, r)
      rw [he] at hle
      simp only [hreply, List.length_append] at hle
      have hlen : (cString chunk).length = chunk.length :=
        Nat.le_antisymm (length_cString_le chunk) (by omega)
      exact (List.takeWhile_prefix _).eq_of_length hlen
    rw [hself] at hreply
    rw [← hreply] at he
    exact ⟨(taken_eq_iff hne).mp he, cString_eq_self_iff.mp hself⟩
  · rintro ⟨hw, h0⟩
    rw [(taken_eq_iff hne).mpr hw, hreply, cString_eq_self_iff.mpr h0]

/-! ## The echo of one chunk -/

/-- What `snprintf` is asked to print for a chunk in `buf`. -/
def echoText (chunk : List UInt8) : List UInt8 := bytes "ECHO: " ++ cString (chunk ++ [0])

/-- The array `resp` that `send` is given. -/
def resp (chunk : List UInt8) : List UInt8 :=
  snprintf (List.replicate (bufSize + 16) 0) (bufSize + 16) (echoText chunk)

/-- The length `rlen` that `send` is given: what `snprintf` returns is the length of the
whole text, also when it does not fit. -/
def rlen (chunk : List UInt8) : Nat := (echoText chunk).length

theorem rlen_eq (chunk : List UInt8) : rlen chunk = (cString chunk).length + 6 := by
  have hprefix : (bytes "ECHO: ").length = 6 := by decide +kernel
  rw [rlen, echoText, cString_terminated, List.length_append, hprefix, Nat.add_comm]

/-- **When the echo is faithful**: `handle_client` gives `send` the first `rlen` bytes of
`resp`, the text always fits the array, and it is `"ECHO: "` with all bytes received exactly
when none of them is a NUL. -/
theorem echo_faithful_iff (w : World) (cfd : Nat) (e : Event) (chunk : List UInt8) (sent : Send)
    (del : Bool) (hle : chunk.length ≤ bufSize - 1) :
    (handleClient w cfd e (.data chunk) sent del).trace =
      w.trace ++ [⟨.recv (.data chunk), cfd, e, w.files cfd⟩,
        ⟨.send ((resp chunk).take (rlen chunk)) sent, cfd, e, w.files cfd⟩] ∧
    rlen chunk < bufSize + 16 ∧
    (rlen chunk = chunk.length + 6 ∧ (resp chunk).take (rlen chunk) = bytes "ECHO: " ++ chunk ↔
      0 ∉ chunk) := by
  have hlen := length_cString_le chunk
  refine ⟨List.append_assoc _ _ _, ?_, ?_⟩
  · rw [rlen_eq]
    simp only [bufSize] at *
    omega
  · have hsent : (resp chunk).take (rlen chunk) = bytes "ECHO: " ++ cString chunk := reply_eq hle
    rw [hsent, rlen_eq, List.append_right_inj, cString_eq_self_iff]
    constructor
    · rintro ⟨-, h0⟩
      exact h0
    · intro h0
      exact ⟨by rw [cString_eq_self_iff.mpr h0], h0⟩

/-- `a`, a NUL and `b` are received, and `b` is not sent back. -/
theorem echo_stops_at_nul :
    rlen [97, 0, 98] = 7 ∧
      ¬ (rlen [97, 0, 98] = [97, 0, 98].length + 6 ∧
        (resp [97, 0, 98]).take (rlen [97, 0, 98]) = bytes "ECHO: " ++ [97, 0, 98]) := by
  decide +kernel

/-- The chunk `hi` is echoed on descriptor 5. -/
theorem hi_echoed :
    [104, 105].length ≤ bufSize - 1 ∧ rlen [104, 105] = 8 ∧
      (resp [104, 105]).take (rlen [104, 105]) = bytes "ECHO: " ++ [104, 105] := by
  have hle : [(104 : UInt8), 105].length ≤ bufSize - 1 := by decide
  have h := echo_faithful_iff State.listening.world 5 ⟨5, 1, .conn 0⟩ [104, 105] (.accepted 8) true
    hle
  obtain ⟨hlen, htext⟩ := h.2.2.mpr (by decide)
  exact ⟨hle, hlen, htext⟩

/-! ## The replies of a run -/

/-- The calls on `f` are one `send` of the reply for each chunk. -/
def Answered (f : File) (calls : List Access) (xs : List (List UInt8 × Send)) : Prop :=
  chunks f calls = xs.map Prod.fst ∧ sends f calls = xs.map (fun x => (reply x.1, x.2)) ∧
    ∀ x ∈ xs, x.1.length ≤ bufSize - 1

theorem Answered.append {f : File} {s t : List Access} {xs ys : List (List UInt8 × Send)}
    (hs : Answered f s xs) (ht : Answered f t ys) : Answered f (s ++ t) (xs ++ ys) := by
  refine ⟨?_, ?_, ?_⟩
  · rw [chunks_append, hs.1, ht.1, List.map_append]
  · rw [sends_append, hs.2.1, ht.2.1, List.map_append]
  · intro x hx
    rcases List.mem_append.mp hx with hx | hx
    · exact hs.2.2 x hx
    · exact ht.2.2 x hx

theorem answered_none {f : File} {calls : List Access} (hc : chunks f calls = [])
    (hs : sends f calls = []) : Answered f calls [] :=
  ⟨hc, hs, fun x hx => by cases hx⟩

/-- The calls made for one event. -/
theorem callsFor_answered (sfd : Nat) (f : File) (w : World) (e : Event) (o : Outcome)
    (ho : w.Permits o) : ∃ xs, Answered f (callsFor sfd e o (w.files e.fd)) xs := by
  unfold callsFor
  split
  · exact ⟨[], answered_none rfl rfl⟩
  · split
    · exact ⟨[], answered_none rfl rfl⟩
    · cases hr : o.recv with
      | eof => exact ⟨[], answered_none rfl rfl⟩
      | error errno => exact ⟨[], answered_none rfl rfl⟩
      | data chunk =>
        refine ⟨if w.files e.fd = some f then [(chunk, o.send)] else [], ?_, ?_, ?_⟩
        · by_cases hf : w.files e.fd = some f <;> simp [chunks, hf]
        · by_cases hf : w.files e.fd = some f <;> simp [sends, hf]
        · intro x hx
          split at hx
          · rw [List.mem_singleton.mp hx]
            exact (ho.2 chunk hr).2
          · cases hx

theorem reachable_answered {sfd : Nat} {s : State} (hr : (system sfd).Reachable s) (f : File) :
    ∃ xs, Answered f s.world.trace xs := by
  induction hr with
  | init hi =>
    obtain ⟨-, -, -, htrace, -⟩ := hi
    rw [htrace]
    exact ⟨[], answered_none rfl rfl⟩
  | next _ hs ih =>
    obtain ⟨xs, hxs⟩ := ih
    cases hs with
    | wait => exact ⟨xs, hxs⟩
    | @handle _ e rest o hp ho =>
      obtain ⟨ys, hys⟩ := callsFor_answered sfd f _ e o ho
      refine ⟨xs ++ ys, ?_⟩
      rw [loopBody_trace]
      exact hxs.append hys

/-! ## When the replies are whole -/

/-- **When the replies reach the socket whole.** On every connection, what the socket
took and the server holds is `"ECHO: "` and the chunk, for all chunks in order, exactly
when every `send` took its whole reply and no chunk has a NUL. With the replies as
`handle_client` computes them, which end at the first NUL, only the first matters. -/
theorem replies_whole_iff (sfd : Nat) {s : State} (hr : (system sfd).Reachable s) (id : Nat) :
    (accepted (.conn id) s.world.trace ++ s.world.held (.conn id) =
        (chunks (.conn id) s.world.trace).flatMap (fun chunk => bytes "ECHO: " ++ chunk) ↔
      (∀ x ∈ sends (.conn id) s.world.trace, Whole x) ∧
        ∀ chunk ∈ chunks (.conn id) s.world.trace, 0 ∉ chunk) ∧
    (accepted (.conn id) s.world.trace ++ s.world.held (.conn id) =
        (chunks (.conn id) s.world.trace).flatMap reply ↔
      ∀ x ∈ sends (.conn id) s.world.trace, Whole x) := by
  obtain ⟨xs, hchunks, hsends, hbound⟩ := reachable_answered hr (.conn id)
  have hecho : ∀ x ∈ xs, (taken (reply x.1, x.2) = bytes "ECHO: " ++ x.1 ↔
      Whole (reply x.1, x.2) ∧ 0 ∉ x.1) := fun x hx => taken_echo_iff (hbound x hx)
  have hreply : ∀ x ∈ xs, (taken (reply x.1, x.2) = reply x.1 ↔ Whole (reply x.1, x.2)) :=
    fun x hx => taken_eq_iff (reply_ne_nil (hbound x hx))
  rw [accepted, hchunks, hsends, World.held, List.append_nil, List.flatMap_map, List.flatMap_map,
    List.flatMap_map]
  simp only [List.forall_mem_map]
  constructor
  · rw [flatMap_eq_flatMap_iff fun x hx => length_taken_reply_le (hbound x hx), ← forall₂_and]
    exact forall₂_congr hecho
  · rw [flatMap_eq_flatMap_iff fun x _ => length_taken_le _]
    exact forall₂_congr hreply

/-- The server on descriptor 3 has accepted a connection on descriptor 5, which has
bytes to read. -/
def State.connected : State :=
  ⟨⟨Function.update State.listening.world.files 5 (some (.conn 0)),
    Function.update State.listening.world.interest 5 true, 1, []⟩, [⟨5, 1, .conn 0⟩]⟩

theorem connected_reachable : (system 3).Reachable State.connected := by
  have h0 : (system 3).Reachable State.listening := .init listening_init
  have h1 := h0.next (@Step.wait 3 _ [⟨3, 1, .listener⟩] rfl (by decide) (by decide) (by decide))
  have h2 := h1.next (@Step.handle 3 _ _ _ ⟨.ok 5 true, .eof, .accepted 0, true⟩ rfl
    ⟨by rintro _ _ ⟨⟩; rfl, by rintro _ ⟨⟩⟩)
  exact h2.next (@Step.wait 3 _ [⟨5, 1, .conn 0⟩] rfl (by decide) (by decide) (by decide))

/-- The client sends `hi` and the socket takes the whole reply. -/
theorem whole_reply :
    ∃ s, (system 3).Reachable s ∧ chunks (.conn 0) s.world.trace = [[104, 105]] ∧
      accepted (.conn 0) s.world.trace ++ s.world.held (.conn 0) =
        bytes "ECHO: " ++ [104, 105] := by
  have h := connected_reachable.next (@Step.handle 3 _ _ _
    ⟨.error 11, .data [104, 105], .accepted 8, true⟩ rfl
    ⟨by rintro _ _ ⟨⟩, by rintro _ ⟨⟩; decide⟩)
  have hlen : (reply [104, 105]).length = 8 := by decide +kernel
  refine ⟨_, h, rfl, ((replies_whole_iff 3 h 0).1.mpr ⟨?_, ?_⟩).trans (List.append_nil _)⟩
  · intro x hx
    rw [List.mem_singleton.mp hx]
    exact ⟨8, rfl, Nat.le_of_eq hlen⟩
  · intro chunk hc
    rw [List.mem_singleton.mp hc]
    decide

/-- The client sends `hi`, the socket buffer is full (`EAGAIN`), and the reply is lost
while the connection stays open. -/
theorem lost_reply :
    ∃ s, (system 3).Reachable s ∧ s.world.files 5 = some (.conn 0) ∧
      chunks (.conn 0) s.world.trace = [[104, 105]] ∧
      accepted (.conn 0) s.world.trace ++ s.world.held (.conn 0) = [] ∧
      accepted (.conn 0) s.world.trace ++ s.world.held (.conn 0) ≠
        (chunks (.conn 0) s.world.trace).flatMap fun chunk => bytes "ECHO: " ++ chunk := by
  have h := connected_reachable.next (@Step.handle 3 _ _ _
    ⟨.error 11, .data [104, 105], .error 11, true⟩ rfl
    ⟨by rintro _ _ ⟨⟩, by rintro _ ⟨⟩; decide⟩)
  refine ⟨_, h, rfl, rfl, rfl, ?_⟩
  intro he
  have hlen := congrArg List.length he
  revert hlen
  decide +kernel

end LearnLinux.TcpServer
