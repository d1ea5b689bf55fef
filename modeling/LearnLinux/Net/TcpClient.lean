import Mathlib.Data.Set.Insert
import Mathlib.Logic.Function.Basic

/-!
# `connect_with_timeout` of `07_networking/tcp_client.c`

The function resolves a host and tries its addresses one after another: a socket for each,
in non-blocking mode while it connects, and one epoll instance to wait for those that do
not connect at once. The model has the descriptor table of the process with the status
flags of its sockets, the interest list of the epoll instance, and the addresses tried so
far; the results of the system calls are inputs, one `Attempt` for each address.

* `connects_first`: the result is the socket of the first address that connects, with its
  flags restored, or -1 when none does.
* `descriptors_balanced_iff`: the function leaves no other descriptor open, unless
  `getaddrinfo` fails, when it forgets the epoll instance.
-/

namespace LearnLinux.TcpClient

/-! ## The process -/

def EPOLLERR : UInt32 := 0x008
def EINPROGRESS : Nat := 115

def O_NONBLOCK : UInt32 := 0x800

/-- The flags that `F_SETFL` changes: `O_APPEND`, `O_NONBLOCK`, `O_ASYNC`, `O_DIRECT` and
`O_NOATIME`. -/
def settable : UInt32 := 0x46c00

/-- What a descriptor denotes: a socket made for an address, with its status flags, an
epoll instance, or something else. -/
inductive Desc (α : Type*) where
  | socket (addr : α) (flags : UInt32)
  | epoll
  | other
  deriving DecidableEq, Repr

structure Proc (α : Type*) where
  files : Nat → Option (Desc α)
  interest : Nat → Bool
  tried : List α

/-- One event of `epoll_wait`, and what `so_err` is if `getsockopt` is called for it. -/
structure Ready where
  events : UInt32
  fd : Nat
  soErr : Int
  deriving DecidableEq, Repr

inductive Connect where
  | ok
  | error (errno : Nat)
  deriving DecidableEq, Repr

inductive Wait where
  | ready (events : List Ready)
  | timeout
  | error (errno : Nat)
  deriving DecidableEq, Repr

/-- An address and the results of the calls made for it. -/
structure Attempt (α : Type*) where
  addr : α
  socket : Option Nat
  flags : UInt32
  connect : Connect
  add : Bool
  wait : Wait

/-- The events that the inner loop goes through: none when `nfds` is 0 or -1. -/
def Wait.events : Wait → List Ready
  | .ready events => events
  | .timeout => []
  | .error _ => []

section Calls

variable {α : Type*}

/-- The process has got the descriptor `fd`. -/
def Proc.opens (p : Proc α) (fd : Nat) (d : Desc α) : Proc α :=
  { p with files := Function.update p.files fd (some d) }

/-- `close(fd)`, which also takes `fd` off the interest list. -/
def Proc.close (p : Proc α) (fd : Nat) : Proc α :=
  { p with
    files := Function.update p.files fd none
    interest := Function.update p.interest fd false }

/-- `epoll_create1` has returned `epfd`, whose interest list is empty. -/
def Proc.epollCreate (p : Proc α) (epfd : Nat) : Proc α :=
  { p.opens epfd .epoll with interest := fun _ => false }

/-- `epoll_ctl(epfd, EPOLL_CTL_ADD, fd, &ev)`; `ok` is whether it succeeds. -/
def Proc.epollAdd (p : Proc α) (fd : Nat) (ok : Bool) : Proc α :=
  { p with interest := if ok then Function.update p.interest fd true else p.interest }

/-- `fcntl(fd, F_GETFL)`. -/
def Proc.getfl (p : Proc α) (fd : Nat) : UInt32 :=
  match p.files fd with
  | some (.socket _ flags) => flags
  | _ => 0

/-- The flags of a file after `F_SETFL`. -/
def setFlags (old new : UInt32) : UInt32 := (old &&& ~~~settable) ||| (new &&& settable)

/-- `fcntl(fd, F_SETFL, flags)`. -/
def Proc.setfl (p : Proc α) (fd : Nat) (flags : UInt32) : Proc α :=
  match p.files fd with
  | some (.socket addr old) =>
    { p with files := Function.update p.files fd (some (.socket addr (setFlags old flags))) }
  | _ => p

/-! ## `connect_with_timeout` -/

/-- The inner loop over the events; `true` means `connected`. -/
def eventLoop (p : Proc α) (sfd : Nat) (flags : UInt32) : List Ready → Proc α × Bool
  | [] => (p, false)
  | e :: events =>
    if e.events &&& EPOLLERR = 0 then
      if e.soErr = 0 then (p.setfl sfd flags, true) else eventLoop p sfd flags events
    else eventLoop p sfd flags events

/-- The part for `EINPROGRESS`. -/
def awaitConnect (p : Proc α) (sfd : Nat) (flags : UInt32) (a : Attempt α) : Proc α × Bool :=
  eventLoop (p.epollAdd sfd a.add) sfd flags a.wait.events

/-- The body of the loop over the addresses: the process, `sfd`, and whether the loop is
left by `break`. -/
def tryAddress (p : Proc α) (a : Attempt α) : Proc α × Int × Bool :=
  let p := { p with tried := p.tried ++ [a.addr] }
  match a.socket with
  | none => (p, -1, false)
  | some sfd =>
    let p := p.opens sfd (.socket a.addr a.flags)
    let flags := p.getfl sfd
    let p := p.setfl sfd (flags ||| O_NONBLOCK)
    match a.connect with
    | .ok => (p.setfl sfd flags, sfd, true)
    | .error errno =>
      let (p, connected) := if errno = EINPROGRESS then awaitConnect p sfd flags a else (p, false)
      if connected then (p, sfd, true) else (p.close sfd, -1, false)

/-- The loop over the addresses, with the variable `sfd`. -/
def addressLoop (p : Proc α) (sfd : Int) : List (Attempt α) → Proc α × Int
  | [] => (p, sfd)
  | a :: rest =>
    match tryAddress p a with
    | (p, sfd, true) => (p, sfd)
    | (p, sfd, false) => addressLoop p sfd rest

/-- The results of `epoll_create1` and `getaddrinfo`. -/
structure Env (α : Type*) where
  epollCreate : Option Nat
  getaddrinfo : Except Int (List (Attempt α))

def connectWithTimeout (p : Proc α) (env : Env α) : Proc α × Int :=
  match env.epollCreate with
  | none => (p, -1)
  | some epfd =>
    let p := p.epollCreate epfd
    match env.getaddrinfo with
    | .error _ => (p, -1)
    | .ok res =>
      let (p, sfd) := addressLoop p (-1) res
      (p.close epfd, sfd)

/-! ## What the kernel promises -/

/-- `socket` returns a number that is not open, and `epoll_wait` reports only what is on
the interest list. -/
def Attempt.Promised (a : Attempt α) (p : Proc α) : Prop :=
  ∀ sfd, a.socket = some sfd → p.files sfd = none ∧
    ∀ e ∈ a.wait.events, (p.epollAdd sfd a.add).interest e.fd = true

/-- The promises along the loop, as far as it goes. -/
def Promised (p : Proc α) : List (Attempt α) → Prop
  | [] => True
  | a :: rest => a.Promised p ∧ ((tryAddress p a).2.2 = false → Promised (tryAddress p a).1 rest)

def Env.Promised (env : Env α) (p : Proc α) : Prop :=
  ∀ epfd, env.epollCreate = some epfd → p.files epfd = none ∧
    ∀ res, env.getaddrinfo = .ok res → TcpClient.Promised (p.epollCreate epfd) res

/-- The address is connected at once, or reported ready without `EPOLLERR` and with
`SO_ERROR` 0. -/
def Attempt.Succeeds (a : Attempt α) : Prop :=
  ∃ sfd, a.socket = some sfd ∧ (a.connect = .ok ∨ a.connect = .error EINPROGRESS ∧
    ∃ e ∈ a.wait.events, e.fd = sfd ∧ e.events &&& EPOLLERR = 0 ∧ e.soErr = 0)

end Calls

/-! ## Status flags -/

/-- Setting the flags a file had before brings them back. -/
theorem setFlags_restore (flags new : UInt32) : setFlags (setFlags flags new) flags = flags := by
  apply UInt32.toBitVec_inj.mp
  simp only [setFlags, UInt32.toBitVec_or, UInt32.toBitVec_and, UInt32.toBitVec_not]
  ext i hi
  simp only [BitVec.getElem_or, BitVec.getElem_and, BitVec.getElem_not]
  cases flags.toBitVec[i] <;> cases settable.toBitVec[i] <;> simp

section Attempts

variable {α : Type*} {p : Proc α} {a : Attempt α} {sfd : Nat}

theorem getfl_opens (p : Proc α) (sfd : Nat) (addr : α) (flags : UInt32) :
    (p.opens sfd (.socket addr flags)).getfl sfd = flags := by
  simp [Proc.getfl, Proc.opens]

theorem setfl_opens (p : Proc α) (sfd : Nat) (addr : α) (old new : UInt32) :
    (p.opens sfd (.socket addr old)).setfl sfd new =
      p.opens sfd (.socket addr (setFlags old new)) := by
  simp [Proc.setfl, Proc.opens]

/-- A socket that is closed again leaves no trace. -/
theorem close_opens (hf : p.files sfd = none) (hi : p.interest sfd = false) (d : Desc α)
    (ok : Bool) : ((p.epollAdd sfd ok).opens sfd d).close sfd = p := by
  have hfiles : Function.update (Function.update p.files sfd (some d)) sfd none = p.files := by
    rw [Function.update_idem, ← hf, Function.update_eq_self]
  have hint : Function.update (if ok then Function.update p.interest sfd true else p.interest)
      sfd false = p.interest := by
    have hself : Function.update p.interest sfd false = p.interest := by
      rw [← hi, Function.update_eq_self]
    cases ok <;> simp [hself]
  simp only [Proc.close, Proc.opens, Proc.epollAdd, hfiles, hint]

/-! ## One address -/

/-- The event says that the socket is connected. -/
def Ready.Good (e : Ready) : Prop := e.events &&& EPOLLERR = 0 ∧ e.soErr = 0

theorem eventLoop_good {events : List Ready} (flags : UInt32) (h : ∃ e ∈ events, e.Good) :
    eventLoop p sfd flags events = (p.setfl sfd flags, true) := by
  induction events with
  | nil =>
    obtain ⟨e, he, -⟩ := h
    cases he
  | cons e events ih =>
    unfold eventLoop
    by_cases hg : e.Good
    · rw [if_pos hg.1, if_pos hg.2]
    · have hrest : ∃ e ∈ events, e.Good := by
        obtain ⟨e', he', hgood⟩ := h
        rcases List.mem_cons.mp he' with rfl | he'
        · exact absurd hgood hg
        · exact ⟨e', he', hgood⟩
      rw [ih hrest]
      split
      · next herr => rw [if_neg fun hso => hg ⟨herr, hso⟩]
      · rfl

theorem eventLoop_bad {events : List Ready} (flags : UInt32) (h : ∀ e ∈ events, ¬ e.Good) :
    eventLoop p sfd flags events = (p, false) := by
  induction events with
  | nil => rfl
  | cons e events ih =>
    obtain ⟨he, hrest⟩ := List.forall_mem_cons.mp h
    unfold eventLoop
    rw [ih hrest]
    split
    · next herr => rw [if_neg fun hso => he ⟨herr, hso⟩]
    · rfl

/-- With an empty interest list before, the events are about the new socket. -/
theorem Attempt.Promised.fd (h : a.Promised p) (hi : ∀ fd, p.interest fd = false)
    (hs : a.socket = some sfd) : ∀ e ∈ a.wait.events, e.fd = sfd := by
  intro e he
  have hint := (h sfd hs).2 e he
  by_contra hne
  simp only [Proc.epollAdd] at hint
  split at hint
  · rw [Function.update_of_ne hne, hi] at hint
    cases hint
  · rw [hi] at hint
    cases hint

/-- The address is recorded as tried. -/
def Proc.tries (p : Proc α) (a : Attempt α) : Proc α := { p with tried := p.tried ++ [a.addr] }

/-- Waiting for a socket that is open on its own. -/
theorem awaitConnect_opens (p : Proc α) (sfd : Nat) (a : Attempt α) (old flags : UInt32) :
    awaitConnect (p.opens sfd (.socket a.addr old)) sfd flags a =
      eventLoop ((p.epollAdd sfd a.add).opens sfd (.socket a.addr old)) sfd flags a.wait.events :=
  rfl

theorem tryAddress_succeeds (hs : a.Succeeds) :
    ∃ sfd interest, a.socket = some sfd ∧
      tryAddress p a =
        (Proc.mk (Function.update p.files sfd (some (.socket a.addr a.flags))) interest
          (p.tried ++ [a.addr]), (sfd : Int), true) := by
  obtain ⟨sfd, hsock, hok | ⟨herr, e, he, -, hgood⟩⟩ := hs
  · refine ⟨sfd, p.interest, hsock, ?_⟩
    simp only [tryAddress, hsock, hok, getfl_opens, setfl_opens, setFlags_restore]
    rfl
  · have hexists : ∃ e ∈ a.wait.events, e.Good := ⟨e, he, hgood⟩
    refine ⟨sfd, ((p.tries a).epollAdd sfd a.add).interest, hsock, ?_⟩
    simp only [tryAddress, hsock, herr, getfl_opens, setfl_opens, if_true, awaitConnect_opens,
      eventLoop_good _ hexists, setFlags_restore]
    rfl

theorem tryAddress_fails (hp : a.Promised p) (hi : ∀ fd, p.interest fd = false)
    (hs : ¬ a.Succeeds) : tryAddress p a = (p.tries a, -1, false) := by
  cases hsock : a.socket with
  | none =>
    simp only [tryAddress, hsock]
    rfl
  | some sfd =>
    have hclose : ∀ d ok, (((p.tries a).epollAdd sfd ok).opens sfd d).close sfd = p.tries a :=
      fun d ok => close_opens (p := p.tries a) (hp sfd hsock).1 (hi sfd) d ok
    cases hc : a.connect with
    | ok => exact absurd ⟨sfd, hsock, Or.inl hc⟩ hs
    | error errno =>
      by_cases herr : errno = EINPROGRESS
      · have hbad : ∀ e ∈ a.wait.events, ¬ e.Good := by
          intro e he hg
          subst herr
          exact hs ⟨sfd, hsock, Or.inr ⟨hc, e, he, hp.fd hi hsock e he, hg⟩⟩
        simp only [tryAddress, hsock, hc, if_pos herr, getfl_opens, setfl_opens,
          awaitConnect_opens, eventLoop_bad _ hbad]
        exact congrArg (·, _, _) (hclose _ a.add)
      · simp only [tryAddress, hsock, hc, if_neg herr, getfl_opens, setfl_opens]
        exact congrArg (·, _, _) (hclose _ false)

/-! ## The list of addresses -/

/-- The addresses are recorded as tried, in order. -/
def Proc.triesAll (p : Proc α) (l : List (Attempt α)) : Proc α :=
  { p with tried := p.tried ++ l.map Attempt.addr }

/-- Addresses that do not succeed are passed over and leave nothing open. -/
theorem addressLoop_skip {pre rest : List (Attempt α)} (hp : Promised p (pre ++ rest))
    (hi : ∀ fd, p.interest fd = false) (hs : ∀ a ∈ pre, ¬ a.Succeeds) :
    Promised (p.triesAll pre) rest ∧
      addressLoop p (-1) (pre ++ rest) = addressLoop (p.triesAll pre) (-1) rest := by
  induction pre generalizing p with
  | nil =>
    have hself : p.triesAll [] = p := by simp only [Proc.triesAll, List.map_nil, List.append_nil]
    rw [hself]
    exact ⟨hp, rfl⟩
  | cons a pre ih =>
    obtain ⟨ha, hrest⟩ := hp
    obtain ⟨hsa, hspre⟩ := List.forall_mem_cons.mp hs
    have htry := tryAddress_fails ha hi hsa
    rw [htry] at hrest
    obtain ⟨hp', hloop⟩ := ih (hrest rfl) hi hspre
    have htries : (p.tries a).triesAll pre = p.triesAll (a :: pre) := by
      simp only [Proc.triesAll, Proc.tries, List.map_cons, List.append_assoc,
        List.singleton_append]
    rw [htries] at hp' hloop
    refine ⟨hp', ?_⟩
    rw [← hloop, List.cons_append, addressLoop, htry]

/-- The loop when an address succeeds, after others that do not. -/
theorem addressLoop_first {pre post : List (Attempt α)} (hp : Promised p (pre ++ a :: post))
    (hi : ∀ fd, p.interest fd = false) (hpre : ∀ b ∈ pre, ¬ b.Succeeds) (ha : a.Succeeds) :
    ∃ sfd interest, a.socket = some sfd ∧ p.files sfd = none ∧
      addressLoop p (-1) (pre ++ a :: post) =
        (Proc.mk (Function.update p.files sfd (some (.socket a.addr a.flags))) interest
          (p.tried ++ (pre ++ [a]).map Attempt.addr), (sfd : Int)) := by
  obtain ⟨⟨hpa, -⟩, hloop⟩ := addressLoop_skip hp hi hpre
  obtain ⟨sfd, interest, hsock, htry⟩ := tryAddress_succeeds (p := p.triesAll pre) ha
  refine ⟨sfd, interest, hsock, (hpa sfd hsock).1, ?_⟩
  rw [hloop, addressLoop, htry, List.map_append, ← List.append_assoc]
  rfl

theorem addressLoop_none {res : List (Attempt α)} (hp : Promised p res)
    (hi : ∀ fd, p.interest fd = false) (hs : ∀ a ∈ res, ¬ a.Succeeds) :
    addressLoop p (-1) res = (p.triesAll res, -1) := by
  rw [← List.append_nil res] at hp
  have hloop := (addressLoop_skip hp hi hs).2
  rwa [List.append_nil] at hloop

/-- The first address that succeeds. -/
theorem exists_first {res : List (Attempt α)} (h : ∃ a ∈ res, a.Succeeds) :
    ∃ pre a post, res = pre ++ a :: post ∧ (∀ b ∈ pre, ¬ b.Succeeds) ∧ a.Succeeds := by
  induction res with
  | nil =>
    obtain ⟨a, ha, -⟩ := h
    cases ha
  | cons a res ih =>
    by_cases hs : a.Succeeds
    · exact ⟨[], a, res, rfl, fun b hb => (List.not_mem_nil hb).elim, hs⟩
    · have hrest : ∃ b ∈ res, b.Succeeds := by
        obtain ⟨b, hb, hsb⟩ := h
        rcases List.mem_cons.mp hb with rfl | hb
        · exact absurd hsb hs
        · exact ⟨b, hb, hsb⟩
      obtain ⟨pre, b, post, rfl, hpre, hsb⟩ := ih hrest
      exact ⟨a :: pre, b, post, rfl, List.forall_mem_cons.mpr ⟨hs, hpre⟩, hsb⟩

/-- The function once there is an epoll instance and a list of addresses. -/
theorem connectWithTimeout_ok (p : Proc α) (epfd : Nat) (res : List (Attempt α)) :
    connectWithTimeout p ⟨some epfd, .ok res⟩ =
      ((addressLoop (p.epollCreate epfd) (-1) res).1.close epfd,
        (addressLoop (p.epollCreate epfd) (-1) res).2) :=
  rfl

theorem first_selected {pre post : List (Attempt α)} {epfd : Nat}
    (h : Env.Promised ⟨some epfd, .ok (pre ++ a :: post)⟩ p) (hpre : ∀ b ∈ pre, ¬ b.Succeeds)
    (ha : a.Succeeds) :
    ∃ sfd : Nat, a.socket = some sfd ∧
      (connectWithTimeout p ⟨some epfd, .ok (pre ++ a :: post)⟩).2 = sfd ∧
      p.files sfd = none ∧
      (connectWithTimeout p ⟨some epfd, .ok (pre ++ a :: post)⟩).1.files =
        Function.update p.files sfd (some (.socket a.addr a.flags)) ∧
      (connectWithTimeout p ⟨some epfd, .ok (pre ++ a :: post)⟩).1.tried =
        p.tried ++ (pre ++ [a]).map Attempt.addr := by
  obtain ⟨hfree, hres⟩ := h epfd rfl
  obtain ⟨sfd, interest, hsock, hnew, hloop⟩ :=
    addressLoop_first (hres _ rfl) (fun _ => rfl) hpre ha
  -- the socket has not the number of the epoll instance, which is open
  have hne : sfd ≠ epfd := by
    rintro rfl
    simp [Proc.epollCreate, Proc.opens] at hnew
  refine ⟨sfd, hsock, ?_⟩
  rw [connectWithTimeout_ok, hloop]
  refine ⟨rfl, ?_, ?_, rfl⟩
  · simpa [Proc.epollCreate, Proc.opens, Function.update_of_ne hne] using hnew
  · simp only [Proc.close, Proc.epollCreate, Proc.opens]
    rw [Function.update_comm hne, Function.update_idem, ← hfree, Function.update_eq_self]

theorem none_selected {res : List (Attempt α)} {epfd : Nat}
    (h : Env.Promised ⟨some epfd, .ok res⟩ p) (hs : ∀ a ∈ res, ¬ a.Succeeds) :
    (connectWithTimeout p ⟨some epfd, .ok res⟩).2 = -1 ∧
      (connectWithTimeout p ⟨some epfd, .ok res⟩).1.files = p.files ∧
      (connectWithTimeout p ⟨some epfd, .ok res⟩).1.tried = p.tried ++ res.map Attempt.addr := by
  obtain ⟨hfree, hres⟩ := h epfd rfl
  rw [connectWithTimeout_ok, addressLoop_none (hres _ rfl) (fun _ => rfl) hs]
  refine ⟨rfl, ?_, rfl⟩
  simp only [Proc.close, Proc.triesAll, Proc.epollCreate, Proc.opens]
  rw [Function.update_idem, ← hfree, Function.update_eq_self]

end Attempts

/-! ## The right address -/

/-- **`connect_with_timeout` selects the right address.** It returns a descriptor exactly
when some address succeeds; that is the socket of the first such address, with the flags
it was made with, and no later address was tried. Otherwise it returns -1 after all of
them. -/
theorem connects_first {α : Type*} (p : Proc α) (epfd : Nat) (res : List (Attempt α))
    (h : Env.Promised ⟨some epfd, .ok res⟩ p) :
    (0 ≤ (connectWithTimeout p ⟨some epfd, .ok res⟩).2 ↔ ∃ a ∈ res, a.Succeeds) ∧
    (∀ pre a post, res = pre ++ a :: post → (∀ b ∈ pre, ¬ b.Succeeds) → a.Succeeds →
      ∃ sfd : Nat, a.socket = some sfd ∧
        (connectWithTimeout p ⟨some epfd, .ok res⟩).2 = sfd ∧
        (connectWithTimeout p ⟨some epfd, .ok res⟩).1.files sfd =
          some (.socket a.addr a.flags) ∧
        (connectWithTimeout p ⟨some epfd, .ok res⟩).1.tried =
          p.tried ++ (pre ++ [a]).map Attempt.addr) ∧
    ((∀ a ∈ res, ¬ a.Succeeds) → (connectWithTimeout p ⟨some epfd, .ok res⟩).2 = -1 ∧
      (connectWithTimeout p ⟨some epfd, .ok res⟩).1.tried = p.tried ++ res.map Attempt.addr) := by
  refine ⟨⟨?_, ?_⟩, ?_, ?_⟩
  · intro hr
    by_contra hs
    rw [(none_selected h fun a ha hsa => hs ⟨a, ha, hsa⟩).1] at hr
    exact absurd hr (by decide)
  · intro hs
    obtain ⟨pre, a, post, rfl, hpre, ha⟩ := exists_first hs
    obtain ⟨sfd, -, hr, -⟩ := first_selected h hpre ha
    rw [hr]
    exact Int.natCast_nonneg sfd
  · rintro pre a post rfl hpre ha
    obtain ⟨sfd, hsock, hr, -, hfiles, htried⟩ := first_selected h hpre ha
    exact ⟨sfd, hsock, hr, by rw [hfiles, Function.update_self], htried⟩
  · intro hs
    obtain ⟨hr, -, htried⟩ := none_selected h hs
    exact ⟨hr, htried⟩

/-- A process with its three standard descriptors. -/
def Proc.started : Proc Nat := ⟨fun fd => if fd < 3 then some .other else none, fun _ => false, []⟩

/-- No socket for address 10; address 20 times out on descriptor 4; address 30 is reported
writable on descriptor 4. -/
def thirdConnects : List (Attempt Nat) :=
  [⟨10, none, 0, .ok, true, .timeout⟩,
    ⟨20, some 4, 2, .error EINPROGRESS, true, .timeout⟩,
    ⟨30, some 4, 2, .error EINPROGRESS, true, .ready [⟨4, 4, 0⟩]⟩]

theorem thirdConnects_promised : Env.Promised ⟨some 3, .ok thirdConnects⟩ Proc.started := by
  rintro _ ⟨⟩
  refine ⟨rfl, ?_⟩
  rintro _ ⟨⟩
  refine ⟨by rintro _ ⟨⟩, fun _ => ⟨?_, fun _ => ⟨?_, fun _ => trivial⟩⟩⟩
  · rintro _ ⟨⟩
    exact ⟨rfl, fun e he => (List.not_mem_nil he).elim⟩
  · rintro _ ⟨⟩
    refine ⟨rfl, fun e he => ?_⟩
    rw [List.mem_singleton.mp he]
    rfl

theorem third_selected :
    Env.Promised ⟨some 3, .ok thirdConnects⟩ Proc.started ∧
      (connectWithTimeout Proc.started ⟨some 3, .ok thirdConnects⟩).2 = 4 ∧
      (0 ≤ (connectWithTimeout Proc.started ⟨some 3, .ok thirdConnects⟩).2 ↔
        ∃ a ∈ thirdConnects, a.Succeeds) :=
  ⟨thirdConnects_promised, rfl, (connects_first _ _ _ thirdConnects_promised).1⟩

/-! ## Open descriptors -/

/-- The open descriptors of the process. -/
def Proc.openSet {α : Type*} (p : Proc α) : Set Nat := { fd | p.files fd ≠ none }

/-- The descriptors open at the return are those at entry, and a descriptor that is
returned. -/
def Balanced {α : Type*} (p : Proc α) (result : Proc α × Int) : Prop :=
  (0 ≤ result.2 ∧ result.2.toNat ∉ p.openSet ∧
    result.1.openSet = insert result.2.toNat p.openSet) ∨
  (result.2 = -1 ∧ result.1.openSet = p.openSet)

theorem openSet_update {α : Type*} {p q : Proc α} {fd : Nat} {d : Desc α}
    (h : q.files = Function.update p.files fd (some d)) : q.openSet = insert fd p.openSet := by
  ext k
  simp only [Proc.openSet, Set.mem_ofPred_eq, Set.mem_insert_iff, h]
  by_cases hk : k = fd
  · subst hk
    simp
  · rw [Function.update_of_ne hk]
    simp [hk]

theorem openSet_congr {α : Type*} {p q : Proc α} (h : q.files = p.files) :
    q.openSet = p.openSet := by
  rw [Proc.openSet, h]
  rfl

theorem balanced_of_list {α : Type*} {p : Proc α} {epfd : Nat} {res : List (Attempt α)}
    (h : Env.Promised ⟨some epfd, .ok res⟩ p) :
    Balanced p (connectWithTimeout p ⟨some epfd, .ok res⟩) := by
  by_cases hs : ∃ a ∈ res, a.Succeeds
  · obtain ⟨pre, a, post, rfl, hpre, ha⟩ := exists_first hs
    obtain ⟨sfd, -, hr, hfree, hfiles, -⟩ := first_selected h hpre ha
    refine Or.inl ?_
    rw [hr, Int.toNat_natCast]
    exact ⟨Int.natCast_nonneg sfd, fun hopen => hopen hfree, openSet_update hfiles⟩
  · obtain ⟨hr, hfiles, -⟩ := none_selected h fun a ha hsa => hs ⟨a, ha, hsa⟩
    exact Or.inr ⟨hr, openSet_congr hfiles⟩

/-- **When `connect_with_timeout` leaks no descriptor**: exactly when `epoll_create1` fails
or `getaddrinfo` succeeds. -/
theorem descriptors_balanced_iff {α : Type*} (p : Proc α) (env : Env α) (h : env.Promised p) :
    Balanced p (connectWithTimeout p env) ↔
      env.epollCreate = none ∨ ∃ res, env.getaddrinfo = .ok res := by
  obtain ⟨epollCreate, getaddrinfo⟩ := env
  cases epollCreate with
  | none => exact ⟨fun _ => Or.inl rfl, fun _ => Or.inr ⟨rfl, rfl⟩⟩
  | some epfd =>
    cases getaddrinfo with
    | ok res => exact ⟨fun _ => Or.inr ⟨res, rfl⟩, fun _ => balanced_of_list h⟩
    | error err =>
      -- the epoll instance stays open
      have hopen : (connectWithTimeout p ⟨some epfd, .error err⟩).1.openSet =
          insert epfd p.openSet := openSet_update rfl
      constructor
      · rintro (⟨hr, -⟩ | ⟨-, hsame⟩)
        · have hneg : (0 : Int) ≤ -1 := hr
          exact absurd hneg (by decide)
        · have hmem : epfd ∈ p.openSet := by
            rw [← hsame, hopen]
            exact Set.mem_insert _ _
          exact absurd (h epfd rfl).1 hmem
      · rintro (hnone | ⟨res, hres⟩)
        · cases hnone
        · cases hres

theorem third_balanced :
    Balanced Proc.started (connectWithTimeout Proc.started ⟨some 3, .ok thirdConnects⟩) :=
  (descriptors_balanced_iff _ _ thirdConnects_promised).mpr (Or.inr ⟨_, rfl⟩)

/-- The name does not resolve (`EAI_NONAME`), and descriptor 3 stays open. -/
theorem unresolved_leaks :
    Env.Promised ⟨some 3, .error (-2)⟩ Proc.started ∧
      (connectWithTimeout Proc.started ⟨some 3, .error (-2)⟩).2 = -1 ∧
      (connectWithTimeout Proc.started ⟨some 3, .error (-2)⟩).1.files 3 = some .epoll ∧
      ¬ Balanced Proc.started (connectWithTimeout Proc.started ⟨some 3, .error (-2)⟩) := by
  refine ⟨?_, rfl, rfl, ?_⟩
  · rintro _ ⟨⟩
    exact ⟨rfl, by rintro _ ⟨⟩⟩
  · rintro (⟨hr, -⟩ | ⟨-, hsame⟩)
    · have hneg : (0 : Int) ≤ -1 := hr
      exact absurd hneg (by decide)
    · have hopen : 3 ∈ Proc.started.openSet := by
        rw [← hsame]
        exact nofun
      exact hopen rfl

end LearnLinux.TcpClient
