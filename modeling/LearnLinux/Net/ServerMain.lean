import LearnLinux.Lib.Signals
import LearnLinux.Net.TcpServer

/-!
# `main` of `07_networking/tcp_server.c`

`main` installs its handler for SIGTERM and SIGINT, ignores SIGPIPE, makes the listening socket and
the epoll instance, runs the event loop as long as `g_running` is set, and closes the two
descriptors. The three signals come at any time: with the default action they end the process, the
handler clears `g_running`, and an ignored one does nothing. Every system call may fail. With no
epoll instance the loop runs on, and every `epoll_wait` in it fails.

`server_shuts_down`: after a stop signal the loop makes at most one more `epoll_wait` and handles
at most one batch; every way out leaves the descriptor table as it was at the start, but for the
connections that the loop has not closed.
-/

namespace LearnLinux.ServerMain

open Signals TcpServer Transition

/-! ## The program -/

/-- The signals whose disposition `main` sets. -/
inductive Sig where
  | sigterm
  | sigint
  | sigpipe
  deriving DecidableEq, Repr

/-- The next call of `main`, or of `create_server_socket`; `test` reads `g_running`, and `events`
is the head of the `for` loop. -/
inductive Pc where
  | signalTerm
  | signalInt
  | signalPipe
  | socket
  | bind
  | listen
  | epollCreate
  | epollAdd
  | test
  | epollWait
  | events
  | closeEpfd
  | closeSfd
  | returned (code : Nat)
  | killed
  deriving DecidableEq, Repr

/-- `epfd` is -1 when it is `none`. -/
structure Main where
  pc : Pc
  action : Sig → Disposition
  running : Bool
  sfd : Nat
  epfd : Option Nat
  world : World
  pending : List Event

/-- What the next call returns: nothing that `main` reads, a descriptor or -1, whether it
succeeds, a batch or -1, or the results of the calls made for one event. -/
inductive Result where
  | unit
  | fd (n : Option Nat)
  | status (ok : Bool)
  | batch (events : Option (List Event))
  | handled (o : Outcome)

/-- A descriptor that was free denotes `f`. -/
def openFd (w : World) (fd : Nat) (f : File) : World :=
  { w with files := Function.update w.files fd (some f) }

/-- `close(fd)` of a descriptor that is not that of an event. -/
def closeFd (w : World) (fd : Nat) : World :=
  { w with
    files := Function.update w.files fd none
    interest := Function.update w.interest fd false }

/-- `close(epfd)`: the interest list goes with the epoll instance. -/
def closeEpoll (w : World) : Option Nat → World
  | none => w
  | some fd => { closeFd w fd with interest := fun _ => false }

/-- `signal(sig, d)`. -/
def Main.signal (s : Main) (sig : Sig) (d : Disposition) : Main :=
  { s with action := Function.update s.action sig d }

def mainStep (r : Result) (s : Main) : Option Main :=
  match s.pc, r with
  | .signalTerm, .unit => some { s.signal .sigterm .handler with pc := .signalInt }
  | .signalInt, .unit => some { s.signal .sigint .handler with pc := .signalPipe }
  | .signalPipe, .unit => some { s.signal .sigpipe .ignore with pc := .socket }
  | .socket, .fd none => some { s with pc := .returned 1 }
  | .socket, .fd (some n) =>
    some { s with pc := .bind, sfd := n, world := openFd s.world n .listener }
  | .bind, .status true => some { s with pc := .listen }
  | .bind, .status false => some { s with pc := .returned 1, world := closeFd s.world s.sfd }
  | .listen, .status true => some { s with pc := .epollCreate }
  | .listen, .status false => some { s with pc := .returned 1, world := closeFd s.world s.sfd }
  | .epollCreate, .fd none => some { s with pc := .epollAdd, epfd := none }
  | .epollCreate, .fd (some n) =>
    some { s with pc := .epollAdd, epfd := some n, world := openFd s.world n .other }
  | .epollAdd, .status ok =>
    some { s with
      pc := .test
      world := { s.world with interest := Function.update s.world.interest s.sfd ok } }
  | .test, .unit => some { s with pc := if s.running then .epollWait else .closeEpfd }
  | .epollWait, .batch none => some { s with pc := .test }
  | .epollWait, .batch (some events) => some { s with pc := .events, pending := events }
  | .events, .unit => if s.pending = [] then some { s with pc := .test } else none
  | .events, .handled o =>
    match s.pending with
    | [] => none
    | e :: rest => some { s with world := loopBody s.sfd s.world e o, pending := rest }
  | .closeEpfd, .unit => some { s with pc := .closeSfd, world := closeEpoll s.world s.epfd }
  | .closeSfd, .unit => some { s with pc := .returned 0, world := closeFd s.world s.sfd }
  | _, _ => none

/-- The process is still there. -/
def Pc.live : Pc → Bool
  | .returned _ | .killed => false
  | _ => true

/-- A signal arrives: `sigterm_handler` runs, or it is ignored, or it kills. -/
def signalStep (sig : Sig) (s : Main) : Option Main :=
  if s.pc.live then
    match s.action sig with
    | .handler => some { s with running := false }
    | .ignore => some s
    | .default => some { s with pc := .killed }
  else none

inductive Act where
  | main (r : Result)
  | signal (sig : Sig)

def step : Act → Main → Option Main
  | .main r, s => mainStep r s
  | .signal sig, s => signalStep sig s

/-- What the kernel promises: a new descriptor has a number that is not open, a batch is about
watched descriptors, and without an epoll instance its calls fail. -/
def Permits : Act → Main → Prop
  | .main (.fd (some n)), s => s.world.files n = none
  | .main (.status ok), s => s.pc = .epollAdd → s.epfd = none → ok = false
  | .main (.batch (some events)), s => s.epfd ≠ none ∧ events.length ≤ maxEvents ∧
      (events.map Event.fd).Nodup ∧
      ∀ e ∈ events, s.world.interest e.fd = true ∧ s.world.files e.fd = some e.file
  | .main (.handled o), s => s.world.Permits o
  | _, _ => True

/-- The process as it is started, with the descriptors it inherits and the default actions. -/
def Main.start (inherited : Nat → Option File) : Main :=
  ⟨.signalTerm, fun _ => .default, true, 0, none, ⟨inherited, fun _ => false, 0, []⟩, []⟩

def system (inherited : Nat → Option File) : System Act Main :=
  (System.ofStep (· = Main.start inherited) step).guarded Permits

/-! ## What a step of `main` can do -/

inductive Move (s : Main) : Result → Main → Prop
  | signalTerm : s.pc = .signalTerm →
      Move s .unit { s.signal .sigterm .handler with pc := .signalInt }
  | signalInt : s.pc = .signalInt →
      Move s .unit { s.signal .sigint .handler with pc := .signalPipe }
  | signalPipe : s.pc = .signalPipe →
      Move s .unit { s.signal .sigpipe .ignore with pc := .socket }
  | noSocket : s.pc = .socket → Move s (.fd none) { s with pc := .returned 1 }
  | socket (n : Nat) : s.pc = .socket →
      Move s (.fd (some n)) { s with pc := .bind, sfd := n, world := openFd s.world n .listener }
  | prepared {pc pc' : Pc} : s.pc = pc → (pc, pc') ∈ [(.bind, .listen), (.listen, .epollCreate)] →
      Move s (.status true) { s with pc := pc' }
  | refused : s.pc = .bind ∨ s.pc = .listen →
      Move s (.status false) { s with pc := .returned 1, world := closeFd s.world s.sfd }
  | noEpoll : s.pc = .epollCreate → Move s (.fd none) { s with pc := .epollAdd, epfd := none }
  | epoll (n : Nat) : s.pc = .epollCreate → Move s (.fd (some n))
      { s with pc := .epollAdd, epfd := some n, world := openFd s.world n .other }
  | added (ok : Bool) : s.pc = .epollAdd → Move s (.status ok) { s with
      pc := .test
      world := { s.world with interest := Function.update s.world.interest s.sfd ok } }
  | again : s.pc = .test → s.running = true → Move s .unit { s with pc := .epollWait }
  | leave : s.pc = .test → s.running = false → Move s .unit { s with pc := .closeEpfd }
  | failed : s.pc = .epollWait → Move s (.batch none) { s with pc := .test }
  | batch (events : List Event) : s.pc = .epollWait →
      Move s (.batch (some events)) { s with pc := .events, pending := events }
  | done : s.pc = .events → s.pending = [] → Move s .unit { s with pc := .test }
  | handled (e : Event) (rest : List Event) (o : Outcome) : s.pc = .events →
      s.pending = e :: rest →
      Move s (.handled o) { s with world := loopBody s.sfd s.world e o, pending := rest }
  | closeEpfd : s.pc = .closeEpfd →
      Move s .unit { s with pc := .closeSfd, world := closeEpoll s.world s.epfd }
  | closeSfd : s.pc = .closeSfd →
      Move s .unit { s with pc := .returned 0, world := closeFd s.world s.sfd }

theorem mainStep_move {r : Result} {s t : Main} (h : mainStep r s = some t) : Move s r t := by
  unfold mainStep at h
  split at h
  next hpc => exact Option.some.inj h ▸ .signalTerm hpc
  next hpc => exact Option.some.inj h ▸ .signalInt hpc
  next hpc => exact Option.some.inj h ▸ .signalPipe hpc
  next hpc => exact Option.some.inj h ▸ .noSocket hpc
  next n hpc => exact Option.some.inj h ▸ .socket n hpc
  next hpc => exact Option.some.inj h ▸ .prepared hpc (by simp)
  next hpc => exact Option.some.inj h ▸ .refused (Or.inl hpc)
  next hpc => exact Option.some.inj h ▸ .prepared hpc (by simp)
  next hpc => exact Option.some.inj h ▸ .refused (Or.inr hpc)
  next hpc => exact Option.some.inj h ▸ .noEpoll hpc
  next n hpc => exact Option.some.inj h ▸ .epoll n hpc
  next ok hpc => exact Option.some.inj h ▸ .added ok hpc
  next hpc =>
    obtain rfl := Option.some.inj h
    by_cases hrun : s.running = true
    · rw [if_pos hrun]
      exact .again hpc hrun
    · rw [if_neg hrun]
      exact .leave hpc (Bool.not_eq_true _ ▸ hrun)
  next hpc => exact Option.some.inj h ▸ .failed hpc
  next events hpc => exact Option.some.inj h ▸ .batch events hpc
  next hpc =>
    obtain ⟨hpend, h⟩ := Option.ite_none_right_eq_some.mp h
    exact Option.some.inj h ▸ .done hpc hpend
  next o hpc =>
    split at h
    next => cases h
    next e rest hpend => exact Option.some.inj h ▸ .handled e rest o hpc hpend
  next hpc => exact Option.some.inj h ▸ .closeEpfd hpc
  next hpc => exact Option.some.inj h ▸ .closeSfd hpc
  next => cases h

/-! ## Dispositions -/

/-- The dispositions in place before each call. -/
def Pc.action (pc : Pc) (sig : Sig) : Disposition :=
  match pc with
  | .signalTerm => .default
  | .signalInt => if sig = .sigterm then .handler else .default
  | .signalPipe => if sig = .sigpipe then .default else .handler
  | _ => if sig = .sigpipe then .ignore else .handler

def Main.Installed (s : Main) : Prop := s.pc.live = true → s.action = s.pc.action

/-- Only before the handlers are installed and SIGPIPE is ignored does a signal kill. -/
theorem Pc.action_eq_default {pc : Pc} {sig : Sig} (h : pc.action sig = .default) :
    pc = .signalTerm ∨ pc = .signalInt ∨ pc = .signalPipe := by
  cases pc with
  | signalTerm => exact .inl rfl
  | signalInt => exact .inr (.inl rfl)
  | signalPipe => exact .inr (.inr rfl)
  | _ => cases sig <;> cases h

theorem move_installed {s t : Main} {r : Result} (h : s.Installed) (hm : Move s r t) :
    t.Installed := by
  have hlive : ∀ {pc}, s.pc = pc → pc.live = true → s.action = pc.action := by
    rintro pc rfl hl
    exact h hl
  intro ht
  cases hm with
  | signalTerm hpc | signalInt hpc | signalPipe hpc =>
    funext sig
    simp only [Main.signal, hlive hpc rfl]
    cases sig <;> rfl
  | @prepared pc pc' hpc hmem =>
    simp only [List.mem_cons, Prod.mk.injEq, List.not_mem_nil, or_false] at hmem
    rcases hmem with ⟨rfl, rfl⟩ | ⟨rfl, rfl⟩
    · exact (hlive hpc rfl).trans rfl
    · exact (hlive hpc rfl).trans rfl
  | noSocket | refused | closeSfd => cases ht
  | socket n hpc | epoll n hpc | added n hpc => exact (hlive hpc rfl).trans rfl
  | noEpoll hpc | failed hpc | closeEpfd hpc => exact (hlive hpc rfl).trans rfl
  | again hpc _ | leave hpc _ | done hpc _ => exact (hlive hpc rfl).trans rfl
  | batch events hpc => exact (hlive hpc rfl).trans rfl
  | handled e rest o hpc hpend => exact h ht

/-- What a signal does. -/
theorem signalStep_cases {s t : Main} {sig : Sig} (hs : signalStep sig s = some t) :
    t = { s with running := false } ∨ t = s ∨
      s.pc.live = true ∧ s.action sig = .default ∧ t = { s with pc := .killed } := by
  obtain ⟨hlive, hs⟩ := Option.ite_none_right_eq_some.mp hs
  cases hd : s.action sig with
  | handler =>
    simp only [hd] at hs
    exact .inl (Option.some.inj hs).symm
  | ignore =>
    simp only [hd] at hs
    exact .inr (.inl (Option.some.inj hs).symm)
  | default =>
    simp only [hd] at hs
    exact .inr (.inr ⟨hlive, rfl, (Option.some.inj hs).symm⟩)

theorem signalStep_installed {s t : Main} {sig : Sig} (h : s.Installed)
    (hs : signalStep sig s = some t) : t.Installed := by
  obtain rfl | rfl | ⟨-, -, rfl⟩ := signalStep_cases hs
  · exact h
  · exact h
  · intro ht
    cases ht

theorem reachable_installed {inherited : Nat → Option File} {s : Main}
    (hr : (system inherited).Reachable s) : s.Installed := by
  refine hr.invariant ?_ ?_
  · rintro s rfl
    exact fun _ => rfl
  · rintro a s t h ⟨-, hs⟩
    cases a with
    | main r => exact move_installed h (mainStep_move hs)
    | signal sig => exact signalStep_installed h hs

/-! ## The descriptor table -/

/-- The inherited descriptors are as they were, of the others `main` holds those in `owned`, and
the rest of the open ones are connections that were accepted and not closed. -/
structure Ledger (inherited owned : Nat → Option File) (w : World) : Prop where
  kept : ∀ fd f, inherited fd = some f → w.files fd = some f
  rest : ∀ fd, inherited fd = none →
    w.files fd = owned fd ∨ owned fd = none ∧ ∃ id, w.files fd = some (.conn id)
  apart : ∀ fd f, owned fd = some f → inherited fd = none ∧ ∀ id, f ≠ .conn id
  accepted : ∀ fd id, w.files fd = some (.conn id) →
    id < w.nextConn ∧ .conn id ∉ closedFiles w.trace
  closed : ∀ id, .conn id ∈ closedFiles w.trace → id < w.nextConn
  accounted : ∀ id < w.nextConn, .conn id ∈ closedFiles w.trace ∨ ∃ fd, w.files fd = some (.conn id)

section Tables

variable {inherited owned owned' : Nat → Option File} {w w' : World}

/-- What is not written is not looked at. -/
theorem Ledger.congr (h : Ledger inherited owned w) (howned : owned' = owned)
    (hfiles : w'.files = w.files) (hnext : w'.nextConn = w.nextConn) (htrace : w'.trace = w.trace) :
    Ledger inherited owned' w' := by
  subst howned
  refine ⟨?_, ?_, h.apart, ?_, ?_, ?_⟩
  · rw [hfiles]
    exact h.kept
  · rw [hfiles]
    exact h.rest
  · rw [hfiles, hnext, htrace]
    exact h.accepted
  · rw [hnext, htrace]
    exact h.closed
  · rw [hfiles, hnext, htrace]
    exact h.accounted

theorem Ledger.inherited_none (h : Ledger inherited owned w) {fd : Nat}
    (hfree : w.files fd = none) : inherited fd = none := by
  cases hi : inherited fd with
  | none => rfl
  | some f =>
    rw [h.kept fd f hi] at hfree
    cases hfree

theorem Ledger.owned_none (h : Ledger inherited owned w) {fd : Nat}
    (hfree : w.files fd = none) : owned fd = none := by
  rcases h.rest fd (h.inherited_none hfree) with ho | ⟨ho, -⟩
  · rw [← ho, hfree]
  · exact ho

/-- A descriptor that is neither inherited nor a connection changes hands. -/
theorem Ledger.put (h : Ledger inherited owned w) {n : Nat} {v : Option File}
    (hinh : inherited n = none) (hold : ∀ id, w.files n ≠ some (.conn id))
    (hnew : ∀ id, v ≠ some (.conn id)) (howned : owned' = Function.update owned n v)
    (hfiles : w'.files = Function.update w.files n v) (hnext : w'.nextConn = w.nextConn)
    (htrace : w'.trace = w.trace) : Ledger inherited owned' w' := by
  subst howned
  have hconn : ∀ fd id, w'.files fd = some (.conn id) ↔ w.files fd = some (.conn id) := by
    intro fd id
    rw [hfiles]
    by_cases hfd : fd = n
    · subst hfd
      rw [Function.update_self]
      exact iff_of_false (hnew id) (hold id)
    · rw [Function.update_of_ne hfd]
  refine ⟨?_, ?_, ?_, ?_, ?_, ?_⟩
  · intro fd g hg
    have hne : fd ≠ n := by
      rintro rfl
      rw [hinh] at hg
      cases hg
    rw [hfiles, Function.update_of_ne hne]
    exact h.kept fd g hg
  · intro fd hfd
    rw [hfiles]
    by_cases hn : fd = n
    · subst hn
      rw [Function.update_self, Function.update_self]
      exact Or.inl rfl
    · rw [Function.update_of_ne hn, Function.update_of_ne hn]
      exact h.rest fd hfd
  · intro fd g hg
    by_cases hn : fd = n
    · subst hn
      rw [Function.update_self] at hg
      refine ⟨hinh, ?_⟩
      rintro id rfl
      exact hnew id hg
    · rw [Function.update_of_ne hn] at hg
      exact h.apart fd g hg
  · intro fd id hc
    rw [hnext, htrace]
    exact h.accepted fd id ((hconn fd id).mp hc)
  · rw [hnext, htrace]
    exact h.closed
  · rw [hnext, htrace]
    intro id hid
    rcases h.accounted id hid with hc | ⟨fd, hc⟩
    · exact Or.inl hc
    · exact Or.inr ⟨fd, (hconn fd id).mpr hc⟩

/-- `main` takes a free descriptor. -/
theorem Ledger.openFd (h : Ledger inherited owned w) {n : Nat} {f : File}
    (hfree : w.files n = none) (hf : ∀ id, f ≠ .conn id)
    (howned : owned' = Function.update owned n (some f)) :
    Ledger inherited owned' (openFd w n f) := by
  refine h.put (h.inherited_none hfree) ?_ ?_ howned rfl rfl rfl
  · intro id
    rw [hfree]
    simp
  · intro id hc
    exact hf id (Option.some.inj hc)

/-- `main` closes a descriptor that it holds. -/
theorem Ledger.closeFd (h : Ledger inherited owned w) {n : Nat} {f : File}
    (hn : owned n = some f) (howned : owned' = Function.update owned n none)
    (hfiles : w'.files = Function.update w.files n none) (hnext : w'.nextConn = w.nextConn)
    (htrace : w'.trace = w.trace) : Ledger inherited owned' w' := by
  obtain ⟨hinh, hf⟩ := h.apart n f hn
  refine h.put hinh ?_ (fun _ => by simp) howned hfiles hnext htrace
  intro id hc
  rcases h.rest n hinh with ho | ⟨ho, -⟩
  · rw [hc, hn] at ho
    exact hf id (Option.some.inj ho).symm
  · rw [hn] at ho
    cases ho

/-- `accept4` hands out a free descriptor. -/
theorem Ledger.accept (h : Ledger inherited owned w) {cfd : Nat} (added : Bool)
    (hfree : w.files cfd = none) :
    Ledger inherited owned { w with
      files := Function.update w.files cfd (some (.conn w.nextConn))
      interest := Function.update w.interest cfd added
      nextConn := w.nextConn + 1 } := by
  have hold : ∀ fd g, w.files fd = some g →
      Function.update w.files cfd (some (.conn w.nextConn)) fd = some g := by
    intro fd g hg
    rw [Function.update_of_ne, hg]
    rintro rfl
    rw [hfree] at hg
    cases hg
  refine ⟨fun fd g hg => hold fd g (h.kept fd g hg), ?_, h.apart, ?_, ?_, ?_⟩
  · intro fd hfd
    dsimp only
    by_cases hn : fd = cfd
    · subst hn
      exact Or.inr ⟨h.owned_none hfree, w.nextConn, Function.update_self _ _ _⟩
    · rw [Function.update_of_ne hn]
      exact h.rest fd hfd
  · intro fd id hc
    dsimp only at hc ⊢
    by_cases hn : fd = cfd
    · subst hn
      rw [Function.update_self] at hc
      cases hc
      exact ⟨Nat.lt_succ_self _, fun hcl => absurd (h.closed _ hcl) (Nat.lt_irrefl _)⟩
    · rw [Function.update_of_ne hn] at hc
      obtain ⟨hlt, hcl⟩ := h.accepted fd id hc
      exact ⟨Nat.lt_succ_of_lt hlt, hcl⟩
  · intro id hcl
    exact Nat.lt_succ_of_lt (h.closed id hcl)
  · intro id hid
    rcases Nat.lt_succ_iff_lt_or_eq.mp hid with hlt | rfl
    · rcases h.accounted id hlt with hcl | ⟨fd, hc⟩
      · exact Or.inl hcl
      · exact Or.inr ⟨fd, hold fd _ hc⟩
    · exact Or.inr ⟨cfd, Function.update_self _ _ _⟩

/-- The descriptor of a connection is closed. -/
theorem Ledger.drop (h : Ledger inherited owned w) {cfd id : Nat} {calls : List Access}
    (hinh : ∀ fd id, inherited fd ≠ some (.conn id)) (hfile : w.files cfd = some (.conn id))
    (honce : ∀ fd fd' id, w.files fd = some (.conn id) → w.files fd' = some (.conn id) → fd = fd')
    (hclosed : closedFiles calls = (w.files cfd).toList) :
    Ledger inherited owned { w with
      files := Function.update w.files cfd none
      interest := Function.update w.interest cfd false
      trace := w.trace ++ calls } := by
  have hfree : inherited cfd = none := by
    cases hi : inherited cfd with
    | none => rfl
    | some f =>
      have := h.kept cfd f hi
      rw [hfile] at this
      exact absurd (hi.trans this.symm) (hinh cfd id)
  have howned : owned cfd = none := by
    rcases h.rest cfd hfree with ho | ⟨ho, -⟩
    · exact absurd rfl ((h.apart cfd _ (ho.symm.trans hfile)).2 id)
    · exact ho
  have hlist : closedFiles (w.trace ++ calls) = closedFiles w.trace ++ [.conn id] := by
    rw [closedFiles_append, hclosed, hfile]
    rfl
  refine ⟨?_, ?_, h.apart, ?_, ?_, ?_⟩
  · intro fd f hf
    have hn : fd ≠ cfd := by
      rintro rfl
      rw [hfree] at hf
      cases hf
    exact (Function.update_of_ne hn _ _).trans (h.kept fd f hf)
  · intro fd hfd
    dsimp only
    by_cases hn : fd = cfd
    · subst hn
      rw [Function.update_self, howned]
      exact Or.inl rfl
    · rw [Function.update_of_ne hn]
      exact h.rest fd hfd
  · intro fd id' hc
    dsimp only at hc ⊢
    by_cases hn : fd = cfd
    · subst hn
      rw [Function.update_self] at hc
      cases hc
    · rw [Function.update_of_ne hn] at hc
      obtain ⟨hlt, hcl⟩ := h.accepted fd id' hc
      refine ⟨hlt, ?_⟩
      rw [hlist, List.mem_append, List.mem_singleton]
      rintro (hcl' | heq)
      · exact hcl hcl'
      · cases heq
        exact hn (honce fd cfd id hc hfile)
  · intro id' hcl
    rw [hlist, List.mem_append, List.mem_singleton] at hcl
    rcases hcl with hcl | heq
    · exact h.closed id' hcl
    · cases heq
      exact (h.accepted cfd id hfile).1
  · intro id' hlt
    rw [hlist, List.mem_append, List.mem_singleton]
    rcases h.accounted id' hlt with hcl | ⟨fd, hc⟩
    · exact Or.inl (Or.inl hcl)
    · by_cases hn : fd = cfd
      · subst hn
        rw [hfile] at hc
        cases hc
        exact Or.inl (Or.inr rfl)
      · exact Or.inr ⟨fd, (Function.update_of_ne hn _ _).trans hc⟩

/-- Handling an event opens or closes connections only. -/
theorem Ledger.effect (h : Ledger inherited owned w) {sfd : Nat} {e : Event}
    (hinh : ∀ fd id, inherited fd ≠ some (.conn id)) (hfile : w.files e.fd = some e.file)
    (hconn : e.fd ≠ sfd → ∃ id, e.file = .conn id)
    (honce : ∀ fd fd' id, w.files fd = some (.conn id) → w.files fd' = some (.conn id) → fd = fd')
    (heff : Effect sfd w e w') : Ledger inherited owned w' := by
  cases heff with
  | idle => exact h
  | served calls hne hmade hnone =>
    refine ⟨h.kept, h.rest, h.apart, ?_, ?_, ?_⟩
    all_goals rw [closedFiles_append, hnone, List.append_nil]
    · exact h.accepted
    · exact h.closed
    · exact h.accounted
  | opened cfd added hfree => exact h.accept added hfree
  | closed calls hne hmade hclosed =>
    obtain ⟨id, hid⟩ := hconn hne
    rw [hid] at hfile
    exact h.drop hinh hfile honce hclosed

end Tables

/-! ## The invariant -/

/-- From `socket` on `main` has the listening socket. -/
def Pc.holdsSfd : Pc → Bool
  | .bind | .listen | .epollCreate | .epollAdd | .test | .epollWait | .events | .closeEpfd
  | .closeSfd => true
  | _ => false

def Pc.holdsEpfd : Pc → Bool
  | .epollAdd | .test | .epollWait | .events | .closeEpfd => true
  | _ => false

/-- What `main` itself has opened and not closed. -/
def Main.owned (s : Main) (fd : Nat) : Option File :=
  if s.pc.holdsSfd ∧ fd = s.sfd then some .listener
  else if s.pc.holdsEpfd ∧ s.epfd = some fd then some .other
  else none

/-- The loop has not been entered. -/
structure Fresh (w : World) (pending : List Event) : Prop where
  interest : ∀ fd, w.interest fd = false
  nextConn : w.nextConn = 0
  trace : w.trace = []
  pending : pending = []

/-- What holds at each call. -/
def Main.At (s : Main) : Prop :=
  match s.pc with
  | .test | .epollWait => State.Sound s.sfd ⟨s.world, s.pending⟩ ∧ s.pending = []
  | .events => State.Sound s.sfd ⟨s.world, s.pending⟩
  | .closeEpfd | .closeSfd | .returned 0 => s.running = false
  | .returned (_ + 2) => False
  | _ => Fresh s.world s.pending

structure Main.Sound (inherited : Nat → Option File) (s : Main) : Prop where
  ledger : Ledger inherited s.owned s.world
  distinct : s.pc.holdsEpfd = true → s.epfd ≠ some s.sfd
  stage : s.At

section Steps

variable {inherited : Nat → Option File} {s t : Main}

/-- `main` goes on, and opens and closes nothing. -/
theorem ledger_goto {pc : Pc} (h : s.Sound inherited) (hpc : s.pc = pc)
    (hs : pc.holdsSfd = t.pc.holdsSfd) (he : pc.holdsEpfd = t.pc.holdsEpfd) (hsfd : s.sfd = t.sfd)
    (hepfd : s.epfd = t.epfd) (hfiles : t.world.files = s.world.files)
    (hnext : t.world.nextConn = s.world.nextConn) (htrace : t.world.trace = s.world.trace) :
    Ledger inherited t.owned t.world := by
  refine h.ledger.congr ?_ hfiles hnext htrace
  funext fd
  simp only [Main.owned, hpc, hs, he, hsfd, hepfd]

theorem start_sound (hinh : ∀ fd id, inherited fd ≠ some (.conn id)) :
    (Main.start inherited).Sound inherited := by
  refine ⟨⟨fun _ _ h => h, ?_, ?_, ?_, ?_, ?_⟩, fun h => (by cases h),
    ⟨fun _ => rfl, rfl, rfl, rfl⟩⟩
  · intro fd hfd
    exact Or.inl hfd
  · intro fd f hf
    cases hf
  · intro fd id hc
    exact absurd hc (hinh fd id)
  · intro id hcl
    cases hcl
  · intro id hid
    exact absurd hid (Nat.not_lt_zero _)

/-- With no connection accepted, what is open is inherited or held by `main`. -/
theorem Ledger.files_eq {owned : Nat → Option File} {w : World} (h : Ledger inherited owned w)
    (hnext : w.nextConn = 0) (fd : Nat) : w.files fd = inherited fd ∨ w.files fd = owned fd := by
  cases hi : inherited fd with
  | some f => exact Or.inl (h.kept fd f hi)
  | none =>
    rcases h.rest fd hi with ho | ⟨-, id, hc⟩
    · exact Or.inr ho
    · have hlt := (h.accepted fd id hc).1
      omega

theorem Main.Sound.listener (h : s.Sound inherited) (hs : s.pc.holdsSfd = true) :
    s.world.files s.sfd = some .listener := by
  have howned : s.owned s.sfd = some .listener := by simp [Main.owned, hs]
  obtain ⟨hi, -⟩ := h.ledger.apart _ _ howned
  rcases h.ledger.rest _ hi with ho | ⟨ho, -⟩
  · exact ho.trans howned
  · rw [howned] at ho
    cases ho

/-- The loop starts in an initial state of the loop's own model. -/
theorem loop_init (h : s.Sound inherited) (hinh : ∀ fd id, inherited fd ≠ some (.conn id))
    (hpc : s.pc = .epollAdd) (ok : Bool) :
    (TcpServer.system s.sfd).init
      ⟨{ s.world with interest := Function.update s.world.interest s.sfd ok }, s.pending⟩ := by
  have hfresh : Fresh s.world s.pending := by
    have := h.stage
    simpa only [Main.At, hpc] using this
  refine ⟨h.listener (by rw [hpc]; rfl), ?_, ?_, hfresh.trace, hfresh.pending⟩
  · intro fd hw
    by_contra hne
    simp only [Function.update_of_ne hne, hfresh.interest] at hw
    cases hw
  · intro fd id hc
    rcases h.ledger.files_eq hfresh.nextConn fd with hi | ho
    · exact hinh fd id (hi.symm.trans hc)
    · exact (h.ledger.apart fd _ (ho.symm.trans hc)).2 id rfl

theorem owned_socket (n : Nat) (hpc : s.pc = .socket) (w : World) :
    Main.owned { s with pc := .bind, sfd := n, world := w } =
      Function.update s.owned n (some .listener) := by
  funext fd
  by_cases hfd : fd = n
  · subst hfd
    simp [Main.owned, Pc.holdsSfd]
  · simp [Main.owned, Pc.holdsSfd, Pc.holdsEpfd, hpc, hfd]

theorem owned_epoll (n : Nat) (hpc : s.pc = .epollCreate) (hne : n ≠ s.sfd) (w : World) :
    Main.owned { s with pc := .epollAdd, epfd := some n, world := w } =
      Function.update s.owned n (some .other) := by
  funext fd
  by_cases hfd : fd = n
  · subst hfd
    simp [Main.owned, Pc.holdsSfd, Pc.holdsEpfd, hne]
  · simp [Main.owned, Pc.holdsSfd, Pc.holdsEpfd, hpc, hfd, Ne.symm hfd]

theorem owned_closed {pc : Pc} (he : s.pc.holdsEpfd = false) (hpc : pc.holdsSfd = false)
    (hpc' : pc.holdsEpfd = false) (w : World) :
    Main.owned { s with pc := pc, world := w } = Function.update s.owned s.sfd none := by
  funext fd
  by_cases hfd : fd = s.sfd
  · subst hfd
    simp [Main.owned, hpc, hpc']
  · simp [Main.owned, hpc, hpc', he, hfd]

/-- `main` closes the listening socket. -/
theorem ledger_closeSfd {pc : Pc} (h : s.Sound inherited) (hs : s.pc.holdsSfd = true)
    (he : s.pc.holdsEpfd = false) (hpc : pc.holdsSfd = false) (hpc' : pc.holdsEpfd = false) :
    Ledger inherited (Main.owned { s with pc := pc, world := closeFd s.world s.sfd })
      (closeFd s.world s.sfd) := by
  have howned : s.owned s.sfd = some .listener := by simp [Main.owned, hs]
  exact h.ledger.closeFd howned (owned_closed he hpc hpc' _) rfl rfl rfl

/-- `main` closes the epoll instance, if there is one. -/
theorem ledger_closeEpfd (h : s.Sound inherited) (hpc : s.pc = .closeEpfd) :
    Ledger inherited
      (Main.owned { s with pc := .closeSfd, world := closeEpoll s.world s.epfd })
      (closeEpoll s.world s.epfd) := by
  cases hep : s.epfd with
  | none =>
    refine h.ledger.congr ?_ rfl rfl rfl
    funext fd
    simp [Main.owned, Pc.holdsSfd, Pc.holdsEpfd, hpc, hep]
  | some n =>
    have hn : n ≠ s.sfd := by
      rintro rfl
      exact h.distinct (by rw [hpc]; rfl) hep
    have howned : s.owned n = some .other := by
      simp [Main.owned, Pc.holdsSfd, Pc.holdsEpfd, hpc, hep, hn]
    refine h.ledger.closeFd howned ?_ rfl rfl rfl
    funext fd
    by_cases hfd : fd = n
    · subst hfd
      simp [Main.owned, Pc.holdsSfd, Pc.holdsEpfd, hn]
    · simp [Main.owned, Pc.holdsSfd, Pc.holdsEpfd, hpc, hep, hfd, Ne.symm hfd]

theorem move_sound (hinh : ∀ fd id, inherited fd ≠ some (.conn id)) {r : Result}
    (h : s.Sound inherited) (hp : Permits (.main r) s) (hm : Move s r t) : t.Sound inherited := by
  have hstage := h.stage
  cases hm with
  | signalTerm hpc | signalInt hpc | signalPipe hpc =>
    simp only [Main.At, hpc] at hstage
    exact ⟨ledger_goto h hpc rfl rfl rfl rfl rfl rfl rfl,
      fun he => (by cases he), hstage⟩
  | noSocket hpc =>
    simp only [Main.At, hpc] at hstage
    exact ⟨ledger_goto h hpc rfl rfl rfl rfl rfl rfl rfl,
      fun he => (by cases he), hstage⟩
  | socket n hpc =>
    simp only [Main.At, hpc] at hstage
    exact ⟨h.ledger.openFd hp (fun _ => by simp) (owned_socket n hpc _), fun he => (by cases he),
      ⟨hstage.interest, hstage.nextConn, hstage.trace, hstage.pending⟩⟩
  | @prepared pc pc' hpc hmem =>
    simp only [List.mem_cons, Prod.mk.injEq, List.not_mem_nil, or_false] at hmem
    rcases hmem with ⟨rfl, rfl⟩ | ⟨rfl, rfl⟩
    all_goals
      simp only [Main.At, hpc] at hstage
      exact ⟨ledger_goto h hpc rfl rfl rfl rfl rfl rfl rfl,
        fun he => (by cases he), hstage⟩
  | refused hpc =>
    rcases hpc with hpc | hpc
    all_goals
      simp only [Main.At, hpc] at hstage
      refine ⟨ledger_closeSfd h (by rw [hpc]; rfl) (by rw [hpc]; rfl) rfl rfl,
        fun he => (by cases he), ⟨?_, hstage.nextConn, hstage.trace, hstage.pending⟩⟩
      intro fd
      simp [closeFd, Function.update_apply, hstage.1]
  | noEpoll hpc =>
    simp only [Main.At, hpc] at hstage
    refine ⟨h.ledger.congr ?_ rfl rfl rfl, fun _ => by simp, hstage⟩
    funext fd
    simp [Main.owned, Pc.holdsSfd, Pc.holdsEpfd, hpc]
  | epoll n hpc =>
    simp only [Main.At, hpc] at hstage
    have hne : n ≠ s.sfd := by
      rintro rfl
      have hlisten := h.listener (by rw [hpc]; rfl)
      rw [show s.world.files s.sfd = none from hp] at hlisten
      cases hlisten
    exact ⟨h.ledger.openFd hp (fun _ => by simp) (owned_epoll n hpc hne _),
      fun _ he => hne (Option.some.inj he),
      ⟨hstage.interest, hstage.nextConn, hstage.trace, hstage.pending⟩⟩
  | added ok hpc =>
    have hinit := loop_init h hinh hpc ok
    exact ⟨ledger_goto h hpc rfl rfl rfl rfl rfl rfl rfl,
      fun _ => h.distinct (by rw [hpc]; rfl), reachable_sound (.init hinit), hinit.2.2.2.2⟩
  | again hpc hrun =>
    simp only [Main.At, hpc] at hstage
    exact ⟨ledger_goto h hpc rfl rfl rfl rfl rfl rfl rfl,
      fun _ => h.distinct (by rw [hpc]; rfl), hstage⟩
  | leave hpc hrun =>
    exact ⟨ledger_goto h hpc rfl rfl rfl rfl rfl rfl rfl,
      fun _ => h.distinct (by rw [hpc]; rfl), hrun⟩
  | failed hpc =>
    simp only [Main.At, hpc] at hstage
    exact ⟨ledger_goto h hpc rfl rfl rfl rfl rfl rfl rfl,
      fun _ => h.distinct (by rw [hpc]; rfl), hstage⟩
  | batch events hpc =>
    simp only [Main.At, hpc] at hstage
    obtain ⟨-, hlen, hnodup, hbatch⟩ := hp
    exact ⟨ledger_goto h hpc rfl rfl rfl rfl rfl rfl rfl,
      fun _ => h.distinct (by rw [hpc]; rfl),
      step_sound (.wait hstage.2 hlen hnodup hbatch) hstage.1⟩
  | done hpc hpend =>
    simp only [Main.At, hpc] at hstage
    exact ⟨ledger_goto h hpc rfl rfl rfl rfl rfl rfl rfl,
      fun _ => h.distinct (by rw [hpc]; rfl), hstage, hpend⟩
  | handled e rest o hpc hpend =>
    simp only [Main.At, hpc] at hstage
    have hnext := step_sound (.handle (s := ⟨s.world, s.pending⟩) hpend hp) hstage
    obtain ⟨hw, hvalid, hconns⟩ := hstage
    simp only [hpend] at hvalid hconns
    have hledger : Ledger inherited s.owned (loopBody s.sfd s.world e o) :=
      h.ledger.effect hinh hvalid.head (hconns e List.mem_cons_self).resolve_left hw.once
        (loopBody_effect s.sfd s.world e o hp)
    exact ⟨hledger, fun _ => h.distinct (by rw [hpc]; rfl), by simpa only [Main.At, hpc] using hnext⟩
  | closeEpfd hpc =>
    simp only [Main.At, hpc] at hstage
    exact ⟨ledger_closeEpfd h hpc, fun he => (by cases he), hstage⟩
  | closeSfd hpc =>
    simp only [Main.At, hpc] at hstage
    exact ⟨ledger_closeSfd h (by rw [hpc]; rfl) (by rw [hpc]; rfl) rfl rfl,
      fun he => (by cases he), hstage⟩

theorem at_signal (h : s.At) : Main.At { s with running := false } := by
  cases hpc : s.pc with
  | closeEpfd | closeSfd => simp only [Main.At]
  | returned code =>
    rcases code with _ | _ | code
    · simp only [Main.At]
    · simpa only [Main.At, hpc] using h
    · simp only [Main.At, hpc] at h
  | _ => simpa only [Main.At, hpc] using h

theorem signalStep_sound {sig : Sig} (h : s.Sound inherited) (haction : s.Installed)
    (hs : signalStep sig s = some t) : t.Sound inherited := by
  have hstage := h.stage
  obtain rfl | rfl | ⟨hlive, hd, rfl⟩ := signalStep_cases hs
  · exact ⟨h.ledger, h.distinct, at_signal hstage⟩
  · exact h
  · rw [haction hlive] at hd
    rcases Pc.action_eq_default hd with hpc | hpc | hpc
    all_goals
      simp only [Main.At, hpc] at hstage
      exact ⟨ledger_goto h hpc rfl rfl rfl rfl rfl rfl rfl, fun he => (by cases he), hstage⟩

end Steps

theorem reachable_sound {inherited : Nat → Option File}
    (hinh : ∀ fd id, inherited fd ≠ some (.conn id)) {s : Main}
    (hr : (system inherited).Reachable s) : s.Sound inherited := by
  induction hr with
  | init hi =>
    obtain rfl := hi
    exact start_sound hinh
  | @next a _ _ hr hs ih =>
    cases a with
    | main r => exact move_sound hinh ih hs.1 (mainStep_move hs.2)
    | signal sig => exact signalStep_sound ih (reachable_installed hr) hs.2

theorem reachable_step {inherited : Nat → Option File} {s t : Main} (a : Act)
    (hr : (system inherited).Reachable s) (hs : step a s = some t) (hp : Permits a s) :
    (system inherited).Reachable t :=
  hr.nextGuarded hs hp

/-- The batch is no longer than `events`, and without an epoll instance nothing is accepted. -/
def Main.Bounded (s : Main) : Prop :=
  s.pending.length ≤ maxEvents ∧ (s.epfd = none → s.pending = [] ∧ s.world.nextConn = 0)

theorem step_bounded {inherited : Nat → Option File} {a : Act} {s t : Main}
    (hsound : s.Sound inherited) (h : s.Bounded) (hstep : (system inherited).step a s t) : t.Bounded := by
  obtain ⟨hp, hs⟩ := hstep
  obtain ⟨hlen, hidle⟩ := h
  cases a with
  | signal sig =>
    obtain ⟨-, hs⟩ := Option.ite_none_right_eq_some.mp hs
    split at hs
    all_goals
      obtain rfl := Option.some.inj hs
      exact ⟨hlen, hidle⟩
  | main r =>
    have hm := mainStep_move hs
    cases hm with
    | batch events hpc => exact ⟨hp.2.1, fun he => absurd he hp.1⟩
    | handled e rest o hpc hpend =>
      rw [hpend, List.length_cons] at hlen
      refine ⟨Nat.le_of_succ_le hlen, fun he => ?_⟩
      have hnil := (hidle he).1
      rw [hpend] at hnil
      cases hnil
    | epoll n hpc => exact ⟨hlen, fun he => (by cases he)⟩
    | closeEpfd hpc =>
      refine ⟨hlen, fun he => ⟨(hidle he).1, ?_⟩⟩
      rw [show s.epfd = none from he]
      exact (hidle he).2
    | noEpoll hpc =>
      have hfresh := hsound.stage
      simp only [Main.At, hpc] at hfresh
      exact ⟨hlen, fun _ => ⟨hfresh.pending, hfresh.nextConn⟩⟩
    | _ => exact ⟨hlen, hidle⟩

theorem reachable_bounded {inherited : Nat → Option File}
    (hinh : ∀ fd id, inherited fd ≠ some (.conn id)) {s : Main}
    (hr : (system inherited).Reachable s) : s.Bounded := by
  induction hr with
  | init hi =>
    obtain rfl := hi
    exact ⟨Nat.zero_le _, fun _ => ⟨rfl, rfl⟩⟩
  | next hr hs ih => exact step_bounded (reachable_sound hinh hr) ih hs

/-! ## After a stop signal -/

def Act.isMain : Act → Bool
  | .main _ => true
  | .signal _ => false

def Act.isWait : Act → Bool
  | .main (.batch _) => true
  | _ => false

def Act.isHandled : Act → Bool
  | .main (.handled _) => true
  | _ => false

/-- The calls of `epoll_wait` that are left. -/
def Main.waitsLeft (s : Main) : Nat := if s.pc = .epollWait then 1 else 0

/-- The events that may still be handled. -/
def Main.eventsLeft (s : Main) : Nat :=
  match s.pc with
  | .epollWait => maxEvents
  | .events => s.pending.length
  | _ => 0

/-- The steps that `main` has left when it does not go round the loop again. -/
def Main.stepsLeft (s : Main) : Nat :=
  match s.pc with
  | .returned _ | .killed => 0
  | .closeSfd => 1
  | .closeEpfd => 2
  | .test => 3
  | .events => s.pending.length + 4
  | .epollWait => maxEvents + 5
  | .epollAdd => 4
  | .epollCreate => 5
  | .listen => 6
  | .bind => 7
  | .socket => 8
  | .signalPipe => 9
  | .signalInt => 10
  | .signalTerm => 11

theorem move_left {s t : Main} {r : Result} (hrun : s.running = false) (hp : Permits (.main r) s)
    (hm : Move s r t) :
    t.running = false ∧ (Act.main r).isWait.toNat + t.waitsLeft ≤ s.waitsLeft ∧
      (Act.main r).isHandled.toNat + t.eventsLeft ≤ s.eventsLeft ∧
      1 + t.stepsLeft ≤ s.stepsLeft := by
  cases hm with
  | again hpc hrun' =>
    rw [hrun] at hrun'
    cases hrun'
  | batch events hpc =>
    have hlen : events.length ≤ maxEvents := hp.2.1
    simp [Main.waitsLeft, Main.eventsLeft, Main.stepsLeft, hpc, hrun, Act.isWait, Act.isHandled,
      hlen]
    omega
  | handled e rest o hpc hpend =>
    simp [Main.waitsLeft, Main.eventsLeft, Main.stepsLeft, hpc, hpend, hrun, Act.isWait,
      Act.isHandled]
    omega
  | signalTerm hpc | signalInt hpc | signalPipe hpc =>
    simp [Main.waitsLeft, Main.eventsLeft, Main.stepsLeft, Main.signal, hpc, hrun, Act.isWait,
      Act.isHandled]
  | @prepared pc pc' hpc hmem =>
    simp only [List.mem_cons, Prod.mk.injEq, List.not_mem_nil, or_false] at hmem
    rcases hmem with ⟨rfl, rfl⟩ | ⟨rfl, rfl⟩ <;>
      simp [Main.waitsLeft, Main.eventsLeft, Main.stepsLeft, hpc, hrun, Act.isWait, Act.isHandled]
  | refused hpc =>
    rcases hpc with hpc | hpc <;>
      simp [Main.waitsLeft, Main.eventsLeft, Main.stepsLeft, hpc, hrun, Act.isWait, Act.isHandled]
  | done hpc hpend =>
    simp [Main.waitsLeft, Main.eventsLeft, Main.stepsLeft, hpc, hpend, hrun, Act.isWait,
      Act.isHandled]
  | leave hpc hrun' =>
    simp [Main.waitsLeft, Main.eventsLeft, Main.stepsLeft, hpc, hrun, Act.isWait, Act.isHandled]
  | noSocket hpc | noEpoll hpc | failed hpc | closeEpfd hpc | closeSfd hpc =>
    simp [Main.waitsLeft, Main.eventsLeft, Main.stepsLeft, hpc, hrun, Act.isWait, Act.isHandled]
  | socket n hpc | epoll n hpc | added n hpc =>
    simp [Main.waitsLeft, Main.eventsLeft, Main.stepsLeft, hpc, hrun, Act.isWait, Act.isHandled]

theorem step_left {inherited : Nat → Option File} {a : Act} {s t : Main}
    (hrun : s.running = false) (hstep : (system inherited).step a s t) :
    t.running = false ∧ a.isWait.toNat + t.waitsLeft ≤ s.waitsLeft ∧
      a.isHandled.toNat + t.eventsLeft ≤ s.eventsLeft ∧
      a.isMain.toNat + t.stepsLeft ≤ s.stepsLeft := by
  obtain ⟨hp, hs⟩ := hstep
  cases a with
  | main r => exact move_left hrun hp (mainStep_move hs)
  | signal sig =>
    obtain rfl | rfl | ⟨-, -, rfl⟩ := signalStep_cases hs
    · refine ⟨rfl, ?_, ?_, ?_⟩
      all_goals exact Nat.le_of_eq (Nat.zero_add _)
    · refine ⟨hrun, ?_, ?_, ?_⟩
      all_goals exact Nat.le_of_eq (Nat.zero_add _)
    · refine ⟨hrun, ?_, ?_, ?_⟩
      all_goals exact Nat.zero_le _

theorem eventsLeft_le (s : Main) :
    s.eventsLeft ≤ if s.pc = .epollWait then maxEvents else s.pending.length := by
  unfold Main.eventsLeft
  split
  next hpc => rw [if_pos hpc]
  next hpc => rw [if_neg (by rw [hpc]; decide)]
  next => exact Nat.zero_le _

theorem stepsLeft_le {s : Main} (h : s.pending.length ≤ maxEvents) :
    s.stepsLeft ≤ maxEvents + 5 := by
  have hmax : maxEvents = 64 := rfl
  unfold Main.stepsLeft
  split <;> omega

theorem step_of_main (inherited : Nat → Option File) {r : Result} {s t : Main}
    (hp : Permits (.main r) s) (h : mainStep r s = some t) :
    ∃ r t, (system inherited).step (.main r) s t :=
  ⟨r, t, hp, h⟩

/-- `main` always has a next step: the call that it makes may fail. -/
theorem main_progress (inherited : Nat → Option File) (s : Main) (h : s.pc.live = true) :
    ∃ r t, (system inherited).step (.main r) s t := by
  cases hpc : s.pc with
  | signalTerm | signalInt | signalPipe | test | closeEpfd | closeSfd =>
    exact step_of_main inherited (r := .unit) trivial (by simp only [mainStep, hpc]; rfl)
  | socket | epollCreate =>
    exact step_of_main inherited (r := .fd none) trivial (by simp only [mainStep, hpc]; rfl)
  | bind | listen | epollAdd =>
    exact step_of_main inherited (r := .status false) (fun _ _ => rfl)
      (by simp only [mainStep, hpc]; rfl)
  | epollWait =>
    exact step_of_main inherited (r := .batch none) trivial (by simp only [mainStep, hpc]; rfl)
  | events =>
    cases hpend : s.pending with
    | nil =>
      exact step_of_main inherited (r := .unit) trivial
        (by simp only [mainStep, hpc, hpend, if_true]; rfl)
    | cons e rest =>
      have hp : s.world.Permits ⟨.error 11, .eof, .accepted 0, true⟩ :=
        ⟨by rintro _ _ ⟨⟩, by rintro _ ⟨⟩⟩
      exact step_of_main inherited (r := .handled _) hp (by simp only [mainStep, hpc, hpend]; rfl)
  | returned code | killed =>
    rw [hpc] at h
    cases h

theorem Ledger.eq_inherited {inherited owned : Nat → Option File} {w : World}
    (h : Ledger inherited owned w) (howned : ∀ fd, owned fd = none) (hnext : w.nextConn = 0) :
    w.files = inherited := by
  funext fd
  rcases h.files_eq hnext fd with hi | ho
  · exact hi
  · rw [howned fd] at ho
    rw [ho, h.inherited_none ho]

/-- **The server stops when it is told to and leaves nothing of its own open**, whatever its
system calls return and whenever SIGTERM, SIGINT and SIGPIPE come. It returns 1 or is killed with
the descriptor table it was started with. It returns 0 only after SIGTERM or SIGINT, and then the
open descriptors are the inherited ones and the connections that it accepted and did not close. It
never gets stuck; once `g_running` is cleared it makes at most the `epoll_wait` it is in, handles
at most the batch of that, and takes a bounded number of steps to return. Without an epoll instance
it accepts nothing. -/
theorem server_shuts_down (inherited : Nat → Option File)
    (hinh : ∀ fd id, inherited fd ≠ some (.conn id)) {s : Main}
    (hr : (system inherited).Reachable s) :
    (∀ code, s.pc = .returned code → code = 1 ∧ s.world.files = inherited ∨
      code = 0 ∧ s.running = false ∧
        (∀ fd, s.world.files fd = inherited fd ∨ ∃ id, s.world.files fd = some (.conn id)) ∧
        ∀ id < s.world.nextConn, (∃ fd, s.world.files fd = some (.conn id)) ↔
          .conn id ∉ closedFiles s.world.trace) ∧
    (s.pc = .killed → s.world.files = inherited) ∧
    (s.pc.live = true → ∃ r t, (system inherited).step (.main r) s t) ∧
    (s.running = false → ∀ acts t, (system inherited).Run acts s t →
      acts.countP Act.isWait ≤ (if s.pc = .epollWait then 1 else 0) ∧
      acts.countP Act.isHandled ≤ (if s.pc = .epollWait then maxEvents else s.pending.length) ∧
      acts.countP Act.isMain ≤ maxEvents + 5) ∧
    (s.epfd = none → s.world.nextConn = 0) := by
  have hsound := reachable_sound hinh hr
  obtain ⟨hlen, hidle⟩ := reachable_bounded hinh hr
  have hledger := hsound.ledger
  have hstage := hsound.stage
  refine ⟨fun code hpc => ?_, fun hpc => ?_, main_progress inherited s, fun hrun acts t hacts => ?_,
    fun he => (hidle he).2⟩
  · have howned : ∀ fd, s.owned fd = none := by
      intro fd
      simp [Main.owned, hpc, Pc.holdsSfd, Pc.holdsEpfd]
    rcases code with _ | _ | code
    · simp only [Main.At, hpc] at hstage
      refine Or.inr ⟨rfl, hstage, fun fd => ?_, fun id hid => ?_⟩
      · cases hi : inherited fd with
        | some f => exact Or.inl (hledger.kept fd f hi)
        | none =>
          rcases hledger.rest fd hi with ho | ⟨-, hc⟩
          · exact Or.inl (ho.trans (howned fd))
          · exact Or.inr hc
      · constructor
        · rintro ⟨fd, hc⟩
          exact (hledger.accepted fd id hc).2
        · exact (hledger.accounted id hid).resolve_left
    · simp only [Main.At, hpc] at hstage
      exact Or.inl ⟨rfl, hledger.eq_inherited howned hstage.nextConn⟩
    · simp only [Main.At, hpc] at hstage
  · simp only [Main.At, hpc] at hstage
    refine hledger.eq_inherited ?_ hstage.nextConn
    intro fd
    simp [Main.owned, hpc, Pc.holdsSfd, Pc.holdsEpfd]
  · have hwaits := hacts.countP_le Act.isWait Main.waitsLeft hrun
      (fun _ _ _ hs hstep => ⟨(step_left hs hstep).1, (step_left hs hstep).2.1⟩)
    have hevents := hacts.countP_le Act.isHandled Main.eventsLeft hrun
      (fun _ _ _ hs hstep => ⟨(step_left hs hstep).1, (step_left hs hstep).2.2.1⟩)
    have hsteps := hacts.countP_le Act.isMain Main.stepsLeft hrun
      (fun _ _ _ hs hstep => ⟨(step_left hs hstep).1, (step_left hs hstep).2.2.2⟩)
    have hleft := eventsLeft_le s
    have hmost := stepsLeft_le hlen
    exact ⟨Nat.le_of_add_right_le hwaits, by omega, by omega⟩


/-- The descriptors 0, 1 and 2. -/
def stdio (fd : Nat) : Option File := if fd < 3 then some .other else none

theorem stdio_conn (fd id : Nat) : stdio fd ≠ some (.conn id) := by
  unfold stdio
  split <;> simp

/-- SIGPIPE comes during `epoll_wait` and is ignored, SIGTERM while the batch that accepts a
connection is being handled. The connection is left open. -/
theorem server_shuts_down_sigterm :
    ∃ s, (system stdio).Reachable s ∧
      s.pc = .returned 0 ∧ s.running = false ∧ s.world.files 3 = none ∧ s.world.files 4 = none ∧
      s.world.files 5 = some (.conn 0) ∧ .conn 0 ∉ closedFiles s.world.trace := by
  have h0 : (system stdio).Reachable (Main.start stdio) := .init rfl
  have h1 := reachable_step (.main .unit) h0 rfl trivial
  have h2 := reachable_step (.main .unit) h1 rfl trivial
  have h3 := reachable_step (.main .unit) h2 rfl trivial
  have h4 := reachable_step (.main (.fd (some 3))) h3 rfl rfl
  have h5 := reachable_step (.main (.status true)) h4 rfl (by rintro ⟨⟩)
  have h6 := reachable_step (.main (.status true)) h5 rfl (by rintro ⟨⟩)
  have h7 := reachable_step (.main (.fd (some 4))) h6 rfl rfl
  have h8 := reachable_step (.main (.status true)) h7 rfl (by rintro - ⟨⟩)
  have h9 := reachable_step (.main .unit) h8 rfl trivial
  have h10 := reachable_step (.signal .sigpipe) h9 rfl trivial
  have h11 := reachable_step (.main (.batch (some [⟨3, 1, .listener⟩]))) h10 rfl
    ⟨by rintro ⟨⟩, by decide, by decide, by simp [openFd]⟩
  have h12 := reachable_step (.signal .sigterm) h11 rfl trivial
  have h13 := reachable_step (.main (.handled ⟨.ok 5 true, .eof, .accepted 0, true⟩)) h12 rfl
    ⟨by rintro _ _ ⟨⟩; rfl, by rintro _ ⟨⟩⟩
  have h14 := reachable_step (.main .unit) h13 rfl trivial
  have h15 := reachable_step (.main .unit) h14 rfl trivial
  have h16 := reachable_step (.main .unit) h15 rfl trivial
  have h17 := reachable_step (.main .unit) h16 rfl trivial
  refine ⟨_, h17, rfl, rfl, rfl, rfl, rfl, ?_⟩
  have hleft :=
    ((server_shuts_down stdio stdio_conn h17).1 0 rfl).resolve_left fun h => Nat.zero_ne_one h.1
  exact (hleft.2.2.2 0 Nat.zero_lt_one).mp ⟨5, rfl⟩

end LearnLinux.ServerMain
