import LearnLinux.Lib.Signals
import LearnLinux.Lib.Transition

/-!
# The handlers of `04_signals/signal_demo.c`

`demo_signal` and then `demo_sigaction` install one handler for `SIGINT`, then for `SIGTERM`, raise
both signals and sleep. The handler increments `g_sigint_count` by a load and a store. `demo_signal`
gives both dispositions back and prints the count; `demo_sigaction`, which has set the count to 0,
prints it and resets `SIGINT` only. `signal` lets a handler hold its own signal only; the
`sigaction` calls give both handlers a mask with `SIGTERM`. Either signal may come from outside at
any time, and may be ignored when the program is started.

`handlers_nest_and_count`: which handlers can interrupt which, at which places a signal kills, and
that a printed number counts at least the two raised signals, and all handlers that have run unless
one of them came between the load and the store of another.
-/

namespace LearnLinux.Handlers

open Signals Transition

/-! ## The program -/

inductive Sig where
  | sigint
  | sigterm
  deriving DecidableEq, Repr

instance : Fintype Sig := ⟨{.sigint, .sigterm}, fun i => by cases i <;> decide⟩

inductive Demo where
  | signal
  | sigaction
  deriving DecidableEq, Repr

/-- The mask that the demo gives to both handlers. -/
def Demo.mask : Demo → Sig → Bool
  | .signal, _ => false
  | .sigaction, i => i = .sigterm

/-- The next step of `sigint_handler_1_arg`. -/
inductive Pc where
  | write
  | load
  | store (reg : Nat)
  | ret
  deriving DecidableEq, Repr

/-- The next step of a demo: `demo_signal` runs from `installInt` to `sleeping`, `restoreInt`,
`restoreTerm` and `print`; `demo_sigaction` begins with `reset`, and `print` comes before
`restoreInt`. A `raise` returns when its signal is no longer pending. -/
inductive Main where
  | reset
  | installInt
  | installTerm
  | raiseInt
  | raisedInt
  | raiseTerm
  | raisedTerm
  | sleeping
  | restoreInt
  | restoreTerm
  | print
  | returned
  deriving DecidableEq, Repr

/-- A printed line: the count, and what `handled` and `torn` were at that moment. -/
structure Line where
  count : Nat
  handled : Nat
  torn : Nat
  deriving DecidableEq, Repr

/-- `saved` is `old_handler` and `term_handler`. Since the count was 0, `stores` counts the
increments, `handled` the calls of the handler, and `torn` those calls that came between the load
and the store of the handler they interrupted. -/
structure State where
  proc : Process Sig Pc
  demo : Demo
  main : Main
  saved : Sig → Disposition
  count : Nat
  printed : List Line
  stores : Nat
  handled : Nat
  torn : Nat

inductive Act where
  | main
  | handler
  | send (i : Sig)
  | deliver (i : Sig)
  deriving DecidableEq, Repr

def noMask : Sig → Bool := fun _ => false

/-- `signal(i, sigint_handler_1_arg)`, which returns the old handler, or `sigaction`. -/
def State.install (s : State) (i : Sig) : State :=
  { s with
    proc := s.proc.sigaction i ⟨.handler, s.demo.mask⟩
    saved := if s.demo = .signal then Function.update s.saved i (s.proc.action i).disposition
      else s.saved }

/-- The line that `printf` shows. -/
def State.line (s : State) : Line := ⟨s.count, s.handled, s.torn⟩

/-- One step of the demos, which run while no handler does. -/
def mainStep (s : State) : Option State :=
  if s.proc.frames = [] then
    match s.demo, s.main with
    | .sigaction, .reset =>
      some { s with count := 0, stores := 0, handled := 0, torn := 0, main := .installInt }
    | _, .installInt => some { s.install .sigint with main := .installTerm }
    | _, .installTerm => some { s.install .sigterm with main := .raiseInt }
    | _, .raiseInt => some { s with proc := s.proc.send .sigint, main := .raisedInt }
    | _, .raisedInt =>
      if s.proc.pending .sigint then none else some { s with main := .raiseTerm }
    | _, .raiseTerm => some { s with proc := s.proc.send .sigterm, main := .raisedTerm }
    | _, .raisedTerm =>
      if s.proc.pending .sigterm then none else some { s with main := .sleeping }
    | .signal, .sleeping => some { s with main := .restoreInt }
    | .signal, .restoreInt =>
      some { s with
        proc := s.proc.sigaction .sigint ⟨s.saved .sigint, noMask⟩
        main := .restoreTerm }
    | .signal, .restoreTerm =>
      some { s with proc := s.proc.sigaction .sigterm ⟨s.saved .sigterm, noMask⟩, main := .print }
    | .signal, .print =>
      some { s with printed := s.printed ++ [s.line], demo := .sigaction, main := .reset }
    | .sigaction, .sleeping => some { s with main := .print }
    | .sigaction, .print => some { s with printed := s.printed ++ [s.line], main := .restoreInt }
    | .sigaction, .restoreInt =>
      some { s with
        proc := s.proc.sigaction .sigint ⟨.default, Demo.mask .sigaction⟩
        main := .returned }
    | .signal, .reset | .signal, .returned | .sigaction, .restoreTerm | .sigaction, .returned =>
      none
  else none

/-- One step of the handler on top of the stack. -/
def handlerStep (s : State) : Option State :=
  match s.proc.frames with
  | [] => none
  | f :: _ =>
    match f.pc with
    | .write => some { s with proc := s.proc.goto .load }
    | .load => some { s with proc := s.proc.goto (.store s.count) }
    | .store reg =>
      some { s with
        proc := s.proc.goto .ret, count := reg + 1, stores := s.stores + 1 }
    | .ret => s.proc.sigreturn.map fun p => { s with proc := p }

/-- The handler that would be interrupted has loaded the count and not stored it. -/
def torn : List (Frame Sig Pc) → Bool
  | ⟨_, _, _, .store _⟩ :: _ => true
  | _ => false

def deliverStep (i : Sig) (s : State) : Option State :=
  (s.proc.deliver i .write).map fun p =>
    if (s.proc.action i).disposition = .handler then
      { s with
        proc := p
        handled := s.handled + 1
        torn := s.torn + (torn s.proc.frames).toNat }
    else { s with proc := p }

/-- A killed process does nothing more. -/
def step (a : Act) (s : State) : Option State :=
  if s.proc.killed = none then
    match a with
    | .main => mainStep s
    | .handler => handlerStep s
    | .send i => some { s with proc := s.proc.send i }
    | .deliver i => deliverStep i s
  else none

/-- What a program can be started with. -/
def inherited (ignored : Sig → Bool) (i : Sig) : Disposition :=
  if ignored i then .ignore else .default

/-- Before `demo_signal`: nothing is blocked or pending, and `g_sigint_count` is 0. -/
def State.initial (ignored : Sig → Bool) : State where
  proc := ⟨noMask, noMask, fun i => ⟨inherited ignored i, noMask⟩, [], none⟩
  demo := .signal
  main := .installInt
  saved := fun _ => .default
  count := 0
  printed := []
  stores := 0
  handled := 0
  torn := 0

/-! ## What holds at each place of the program -/

/-- The handler of the signal is installed. -/
def handles : Demo → Main → Sig → Bool
  | _, .reset, _ | _, .installInt, _ => false
  | _, .installTerm, i => i = .sigint
  | .signal, .restoreTerm, i => i = .sigterm
  | .signal, .print, _ => false
  | .sigaction, .returned, i => i = .sigterm
  | _, _, _ => true

/-- The disposition of a signal. -/
def expected (ignored : Sig → Bool) (demo : Demo) (main : Main) (i : Sig) : Disposition :=
  if handles demo main i then .handler
  else if demo = .sigaction ∧ main = .returned then .default
  else inherited ignored i

section Expected

variable {ignored : Sig → Bool} {demo : Demo} {main : Main} {i : Sig}

theorem inherited_ne_handler : inherited ignored i ≠ .handler := by
  unfold inherited
  split <;> simp

theorem expected_eq_handler :
    expected ignored demo main i = .handler ↔ handles demo main i = true := by
  unfold expected
  constructor
  · intro he
    by_contra hno
    rw [if_neg hno] at he
    split at he
    · cases he
    · exact inherited_ne_handler he
  · intro hh
    rw [if_pos hh]

/-- The default action is back where `demo_sigaction` has reset it, and else only where the program
was started with it. -/
theorem expected_eq_default (h : expected ignored demo main i = .default) :
    handles demo main i = false ∧
      (ignored i = true → i = .sigint ∧ demo = .sigaction ∧ main = .returned) := by
  have hno : handles demo main i = false := by
    by_contra hh
    rw [expected_eq_handler.mpr (Bool.eq_true_of_not_eq_false hh)] at h
    cases h
  refine ⟨hno, fun hi => ?_⟩
  rw [expected, hno, if_neg Bool.false_ne_true, inherited, if_pos hi] at h
  split at h
  · next hret =>
    refine ⟨?_, hret⟩
    rw [hret.1, hret.2] at hno
    cases i with
    | sigint => rfl
    | sigterm => cases hno
  · cases h

end Expected

/-- How many lines are printed; `none` where the demo does not come. -/
def lines : Demo → Main → Option Nat
  | .signal, .reset | .signal, .returned | .sigaction, .restoreTerm => none
  | .signal, _ => some 0
  | .sigaction, .restoreInt | .sigaction, .returned => some 2
  | .sigaction, _ => some 1

/-- How many of the raised signals are counted for good. -/
def Main.low : Main → Nat
  | .reset | .installInt | .installTerm | .raiseInt | .raisedInt => 0
  | .raiseTerm | .raisedTerm => 1
  | .sleeping | .restoreInt | .restoreTerm | .print | .returned => 2

/-- The signal that a `raise` waits for. -/
def Main.awaits : Main → Option Sig
  | .raisedInt => some .sigint
  | .raisedTerm => some .sigterm
  | _ => none

/-- The value that a handler is about to store the successor of. -/
def loaded? (f : Frame Sig Pc) : Option Nat :=
  match f.pc with
  | .store reg => some reg
  | _ => none

/-- The loaded values, from the top of the stack. -/
def loaded (frames : List (Frame Sig Pc)) : List Nat := frames.filterMap loaded?

/-- The handlers that have still to store. -/
def unstored (frames : List (Frame Sig Pc)) : Nat := (frames.filter fun f => f.pc ≠ .ret).length

theorem loaded_cons_store {f : Frame Sig Pc} {reg : Nat} (h : f.pc = .store reg)
    (frames : List (Frame Sig Pc)) : loaded (f :: frames) = reg :: loaded frames := by
  simp [loaded, loaded?, h]

theorem loaded_cons {f : Frame Sig Pc} (h : ∀ reg, f.pc ≠ .store reg)
    (frames : List (Frame Sig Pc)) : loaded (f :: frames) = loaded frames := by
  have hnone : loaded? f = none := by
    unfold loaded?
    split
    next reg hpc => exact absurd hpc (h reg)
    next => rfl
  exact List.filterMap_cons_none hnone

theorem unstored_cons (f : Frame Sig Pc) (frames : List (Frame Sig Pc)) :
    unstored (f :: frames) = unstored frames + if f.pc = .ret then 0 else 1 := by
  by_cases h : f.pc = .ret <;> simp [unstored, h]

/-! ## The invariant -/

/-- The count against the handlers: `low` of them are counted for good, and one more has to be when
`awaited` is no longer pending. -/
structure Counted (low : Nat) (awaited : Bool) (frames : List (Frame Sig Pc))
    (count stores handled torn : Nat) : Prop where
  /-- What a handler has loaded is at most what those above it have loaded, and the count. -/
  registers : (count :: loaded frames).Pairwise (· ≥ ·)
  low_le : ∀ v ∈ count :: loaded frames, low ≤ v
  raised : awaited = true → low + 1 ≤ count ∨ 0 < unstored frames
  count_le : count ≤ stores
  account : stores + unstored frames = handled
  exact : torn = 0 → count = stores ∧ loaded frames.tail = [] ∧ ∀ v ∈ loaded frames, v = count

/-- The `raise` has come to an end: its signal is not pending any more. -/
def State.awaited (s : State) : Bool :=
  match s.main.awaits with
  | none => false
  | some i => !s.proc.pending i

def Line.Sound (l : Line) : Prop :=
  2 ≤ l.count ∧ l.count ≤ l.handled ∧ (l.torn = 0 → l.count = l.handled)

structure State.Sound (ignored : Sig → Bool) (s : State) : Prop where
  nested : Nested noMask s.proc.blocked s.proc.frames
  held : ∀ f ∈ s.proc.frames, f.held = fun j => s.demo.mask j || decide (j = f.sig)
  disposition : ∀ i, (s.proc.action i).disposition = expected ignored s.demo s.main i
  mask : ∀ i, handles s.demo s.main i = true → (s.proc.action i).mask = s.demo.mask
  saved : ∀ i, handles s.demo s.main i = true → s.demo = .signal → s.saved i = inherited ignored i
  killed : ∀ i, s.proc.killed = some i → expected ignored s.demo s.main i = .default
  counted : Counted s.main.low s.awaited s.proc.frames s.count s.stores s.handled s.torn
  lines : Handlers.lines s.demo s.main = some s.printed.length
  printed : ∀ l ∈ s.printed, l.Sound

/-! ## The handlers -/

section Counted

variable {low count stores handled n : Nat} {awaited : Bool} {f : Frame Sig Pc}
  {frames : List (Frame Sig Pc)}

/-- A handler that does not stand before its store is interrupted without harm. -/
theorem loaded_of_not_torn (h : torn frames = false) (htail : loaded frames.tail = []) :
    loaded frames = [] := by
  cases frames with
  | nil => rfl
  | cons f frames =>
    obtain ⟨sig, held, saved, pc⟩ := f
    cases pc with
    | store reg => cases h
    | write | load | ret => exact htail

/-- A handler is called. -/
theorem Counted.call (h : Counted low awaited frames count stores handled n) {awaited' : Bool}
    (hpc : f.pc = .write) :
    Counted low awaited' (f :: frames) count stores (handled + 1) (n + (torn frames).toNat) := by
  have hloaded : loaded (f :: frames) = loaded frames := loaded_cons (by simp [hpc]) frames
  have hunstored : unstored (f :: frames) = unstored frames + 1 := by
    rw [unstored_cons, if_neg (by simp [hpc])]
  have haccount := h.account
  refine ⟨?_, ?_, fun _ => .inr (by omega), h.count_le, by omega, fun hzero => ?_⟩
  · rw [hloaded]
    exact h.registers
  · rw [hloaded]
    exact h.low_le
  · obtain ⟨hn, htorn⟩ := Nat.eq_zero_of_add_eq_zero hzero
    obtain ⟨hcount, htail, -⟩ := h.exact hn
    have hnone := loaded_of_not_torn (Bool.toNat_eq_zero.mp htorn) htail
    refine ⟨hcount, hnone, fun v hv => ?_⟩
    rw [hloaded, hnone] at hv
    cases hv

/-- The handler has written its message. -/
theorem Counted.write (h : Counted low awaited (f :: frames) count stores handled n)
    (hpc : f.pc = .write) :
    Counted low awaited ({ f with pc := .load } :: frames) count stores handled n := by
  have hsame : loaded (f :: frames) = loaded ({ f with pc := .load } :: frames) := by
    rw [loaded_cons (by simp [hpc]), loaded_cons (by simp)]
  have hunstored : unstored (f :: frames) = unstored ({ f with pc := .load } :: frames) := by
    rw [unstored_cons, unstored_cons, if_neg (by simp [hpc]), if_neg (by simp)]
  obtain ⟨hregisters, hlow, hraised, hle, haccount, hexact⟩ := h
  rw [hsame] at hregisters hlow hexact
  rw [hunstored] at hraised haccount
  exact ⟨hregisters, hlow, hraised, hle, haccount, hexact⟩

/-- The handler has loaded the count. -/
theorem Counted.load (h : Counted low awaited (f :: frames) count stores handled n)
    (hpc : f.pc = .load) :
    Counted low awaited ({ f with pc := .store count } :: frames) count stores handled n := by
  have hbefore : loaded (f :: frames) = loaded frames := loaded_cons (by simp [hpc]) frames
  have hafter : loaded ({ f with pc := .store count } :: frames) = count :: loaded frames :=
    loaded_cons_store rfl frames
  have hunstored : unstored (f :: frames) =
      unstored ({ f with pc := .store count } :: frames) := by
    rw [unstored_cons, unstored_cons, if_neg (by simp [hpc]), if_neg (by simp)]
  obtain ⟨hregisters, hlow, hraised, hle, haccount, hexact⟩ := h
  rw [hbefore] at hregisters hlow hexact
  rw [hunstored] at hraised haccount
  refine ⟨?_, ?_, hraised, hle, haccount, fun hzero => ⟨(hexact hzero).1, (hexact hzero).2.1, ?_⟩⟩
  · rw [hafter]
    refine List.pairwise_cons.mpr ⟨fun v hv => ?_, hregisters⟩
    rcases List.mem_cons.mp hv with rfl | hv
    · exact Nat.le_refl _
    · exact (List.pairwise_cons.mp hregisters).1 v hv
  · rw [hafter]
    intro v hv
    rcases List.mem_cons.mp hv with rfl | hv
    · exact hlow _ List.mem_cons_self
    · exact hlow v hv
  · rw [hafter]
    intro v hv
    rcases List.mem_cons.mp hv with rfl | hv
    · rfl
    · exact (hexact hzero).2.2 v hv

/-- The handler has stored: the count may have become smaller, but not below what was counted when
the handler loaded it. -/
theorem Counted.store (h : Counted low awaited (f :: frames) count stores handled n) {reg : Nat}
    (hpc : f.pc = .store reg) :
    Counted low awaited ({ f with pc := .ret } :: frames) (reg + 1) (stores + 1) handled n := by
  have hbefore : loaded (f :: frames) = reg :: loaded frames := loaded_cons_store hpc frames
  have hafter : loaded ({ f with pc := .ret } :: frames) = loaded frames :=
    loaded_cons (by simp) frames
  obtain ⟨hregisters, hlow, hraised, hle, haccount, hexact⟩ := h
  rw [hbefore] at hregisters hlow hexact
  rw [unstored_cons, if_neg (by simp [hpc])] at haccount
  obtain ⟨hcount, hbelow⟩ := List.pairwise_cons.mp hregisters
  have hreg : reg ≤ count := hcount reg List.mem_cons_self
  have hlowreg : low ≤ reg := hlow reg (by simp)
  have hunstored : unstored ({ f with pc := .ret } :: frames) = unstored frames := by
    rw [unstored_cons, if_pos rfl, Nat.add_zero]
  refine ⟨?_, ?_, fun _ => .inl (by omega), by omega, by omega, fun hzero => ?_⟩
  · rw [hafter]
    refine List.pairwise_cons.mpr ⟨fun v hv => ?_, (List.pairwise_cons.mp hbelow).2⟩
    exact Nat.le_succ_of_le ((List.pairwise_cons.mp hbelow).1 v hv)
  · rw [hafter]
    intro v hv
    rcases List.mem_cons.mp hv with rfl | hv
    · omega
    · exact hlow v (by simp [hv])
  · -- nobody has come in between, so the register is the count
    obtain ⟨heq, hnil, hall⟩ := hexact hzero
    refine ⟨by rw [hall reg List.mem_cons_self, heq], hnil, fun v hv => ?_⟩
    rw [hafter, show loaded frames = [] from hnil] at hv
    cases hv

/-- The handler has returned. -/
theorem Counted.ret (h : Counted low awaited (f :: frames) count stores handled n)
    (hpc : f.pc = .ret) : Counted low awaited frames count stores handled n := by
  have hloaded : loaded (f :: frames) = loaded frames := loaded_cons (by simp [hpc]) frames
  have hunstored : unstored (f :: frames) = unstored frames := by
    rw [unstored_cons, if_pos hpc, Nat.add_zero]
  obtain ⟨hregisters, hlow, hraised, hle, haccount, hexact⟩ := h
  rw [hloaded] at hregisters hlow hexact
  rw [hunstored] at hraised haccount
  refine ⟨hregisters, hlow, hraised, hle, haccount, fun hzero => ?_⟩
  obtain ⟨heq, htail, hall⟩ := hexact hzero
  refine ⟨heq, ?_, hall⟩
  exact List.filterMap_eq_nil_iff.mpr fun g hg =>
    List.filterMap_eq_nil_iff.mp htail g (List.mem_of_mem_tail hg)

/-- What is awaited can only become less. -/
theorem Counted.await (h : Counted low awaited frames count stores handled n) {awaited' : Bool}
    (ha : awaited' = true → awaited = true) :
    Counted low awaited' frames count stores handled n :=
  ⟨h.registers, h.low_le, fun hw => h.raised (ha hw), h.count_le, h.account, h.exact⟩

/-- While no handler runs all of them have stored. -/
theorem counted_nil (hlow : low ≤ count) (hraised : awaited = true → low + 1 ≤ count)
    (hle : count ≤ stores) (hall : stores = handled) (hexact : n = 0 → count = stores) :
    Counted low awaited [] count stores handled n := by
  refine ⟨List.pairwise_singleton _ _, ?_, fun hw => .inl (hraised hw), hle, hall, fun hzero => ?_⟩
  · intro v hv
    rw [List.mem_singleton.mp hv]
    exact hlow
  · exact ⟨hexact hzero, rfl, fun v hv => (by cases hv)⟩

end Counted

/-! ## Steps -/

section Steps

variable {ignored : Sig → Bool} {s s' : State}

/-- Where a `raise` waits, its signal is handled. -/
theorem expected_of_awaits {demo : Demo} {main : Main} {i : Sig} (h : main.awaits = some i) :
    expected ignored demo main i = .handler := by
  cases main with
  | raisedInt => cases demo <;> rfl
  | raisedTerm => cases demo <;> rfl
  | _ => cases h

/-- The disposition of a signal is the same at both places. -/
def Keeps (demo : Demo) (main main' : Main) (i : Sig) : Prop :=
  handles demo main i = handles demo main' i ∧
    (handles demo main i = true ∨ main ≠ .returned ∧ main' ≠ .returned)

instance (demo : Demo) (main main' : Main) (i : Sig) : Decidable (Keeps demo main main' i) :=
  inferInstanceAs (Decidable (_ ∧ _))

theorem Keeps.expected {demo : Demo} {main main' : Main} {i : Sig} (h : Keeps demo main main' i) :
    Handlers.expected ignored demo main i = Handlers.expected ignored demo main' i := by
  obtain ⟨heq, hhandles | ⟨hm, hm'⟩⟩ := h
  · simp only [Handlers.expected, ← heq, hhandles, if_true]
  · simp only [Handlers.expected, heq, hm, hm', and_false, if_false]

theorem initial_sound : (State.initial ignored).Sound ignored where
  nested := rfl
  held _ hf := by cases hf
  disposition _ := rfl
  mask _ hi := by cases hi
  saved _ hi := by cases hi
  killed _ hk := by cases hk
  counted := counted_nil (Nat.le_refl _) (fun h => by cases h) (Nat.le_refl _) rfl fun _ => rfl
  lines := rfl
  printed _ hl := by cases hl

/-- What was pending still is, so nothing new is awaited. -/
theorem awaited_of_pending {p : Process Sig Pc}
    (hp : ∀ i, s.main.awaits = some i → s.proc.pending i = true → p.pending i = true)
    (h : State.awaited { s with proc := p } = true) : s.awaited = true := by
  unfold State.awaited at h ⊢
  cases ha : s.main.awaits with
  | none =>
    simp only [ha] at h
    cases h
  | some i =>
    simp only [ha] at h ⊢
    cases hi : s.proc.pending i with
    | false => rfl
    | true =>
      rw [hp i ha hi] at h
      exact h

theorem send_sound (h : s.Sound ignored) (i : Sig) :
    State.Sound ignored { s with proc := s.proc.send i } where
  nested := by simpa using h.nested
  held := by simpa using h.held
  disposition := by simpa using h.disposition
  mask := by simpa using h.mask
  saved := h.saved
  killed := by simpa using h.killed
  counted := by
    rw [Process.send_frames]
    exact h.counted.await (awaited_of_pending fun _ _ hj => s.proc.send_pending i hj)
  lines := h.lines
  printed := h.printed

/-- A signal whose handler is not installed is delivered: nobody awaits it. -/
theorem unhandled_awaited {i : Sig} (h : s.Sound ignored)
    (hi : (s.proc.action i).disposition ≠ .handler) {p : Process Sig Pc}
    (hp : p.pending = Function.update s.proc.pending i false)
    (ha : State.awaited { s with proc := p } = true) : s.awaited = true := by
  refine awaited_of_pending (fun j hj hpending => ?_) ha
  have hne : j ≠ i := by
    rintro rfl
    exact hi ((h.disposition j).trans (expected_of_awaits hj))
  rw [hp, Function.update_of_ne hne]
  exact hpending

theorem deliver_sound {i : Sig} (h : s.Sound ignored) (hs : deliverStep i s = some s') :
    s'.Sound ignored := by
  obtain ⟨p, hd, rfl⟩ := Option.map_eq_some_iff.mp hs
  have hnested := h.nested.deliver hd
  cases ha : (s.proc.action i).disposition with
  | handler =>
    rw [if_pos rfl]
    obtain ⟨-, rfl⟩ := Process.deliver_handler ha hd
    refine ⟨hnested, ?_, h.disposition, h.mask, h.saved, h.killed, h.counted.call rfl, h.lines,
      h.printed⟩
    intro f hf
    rcases List.mem_cons.mp hf with rfl | hf
    · have hhandles : handles s.demo s.main i = true :=
        expected_eq_handler.mp ((h.disposition i).symm.trans ha)
      funext j
      simp only [Process.holds, h.mask i hhandles]
    · exact h.held f hf
  | ignore =>
    rw [if_neg (by decide)]
    obtain ⟨-, rfl⟩ := Process.deliver_ignore ha hd
    exact ⟨hnested, h.held, h.disposition, h.mask, h.saved, h.killed,
      h.counted.await (unhandled_awaited h (by simp [ha]) rfl), h.lines, h.printed⟩
  | default =>
    rw [if_neg (by decide)]
    obtain ⟨-, rfl⟩ := Process.deliver_default ha hd
    refine ⟨hnested, h.held, h.disposition, h.mask, h.saved, ?_,
      h.counted.await (unhandled_awaited h (by simp [ha]) rfl), h.lines, h.printed⟩
    rintro j ⟨⟩
    exact (h.disposition i).symm.trans ha

/-- The handler on top, which is at `f.pc`, goes on to `pc`. -/
theorem goto_sound (h : s.Sound ignored) {f : Frame Sig Pc} {frames : List (Frame Sig Pc)}
    (hf : s.proc.frames = f :: frames) {pc : Pc} {count stores : Nat}
    (hcounted : Counted s.main.low s.awaited ({ f with pc } :: frames) count stores s.handled
      s.torn) :
    State.Sound ignored { s with proc := s.proc.goto pc, count := count, stores := stores } := by
  have hgoto : s.proc.goto pc = { s.proc with frames := { f with pc } :: frames } := by
    rw [Process.goto, hf]
  have hheld := h.held
  rw [hf] at hheld
  have hnested := h.nested.goto pc
  rw [hgoto] at hnested ⊢
  refine ⟨hnested, ?_, h.disposition, h.mask, h.saved, h.killed, hcounted, h.lines, h.printed⟩
  intro g hg
  rcases List.mem_cons.mp hg with rfl | hg
  · exact hheld f List.mem_cons_self
  · exact hheld g (List.mem_cons_of_mem f hg)

theorem handlerStep_sound (h : s.Sound ignored) (hs : handlerStep s = some s') :
    s'.Sound ignored := by
  have hcounted := h.counted
  cases hf : s.proc.frames with
  | nil =>
    simp only [handlerStep, hf] at hs
    cases hs
  | cons f frames =>
    rw [hf] at hcounted
    cases hpc : f.pc with
    | write =>
      simp only [handlerStep, hf, hpc] at hs
      obtain rfl := Option.some.inj hs
      exact goto_sound h hf (hcounted.write hpc)
    | load =>
      simp only [handlerStep, hf, hpc] at hs
      obtain rfl := Option.some.inj hs
      exact goto_sound h hf (hcounted.load hpc)
    | store reg =>
      simp only [handlerStep, hf, hpc] at hs
      obtain rfl := Option.some.inj hs
      exact goto_sound h hf (hcounted.store hpc)
    | ret =>
      simp only [handlerStep, hf, hpc] at hs
      obtain ⟨p, hp, rfl⟩ := Option.map_eq_some_iff.mp hs
      have hnested := h.nested.sigreturn hp
      rw [Process.sigreturn, hf] at hp
      obtain rfl := Option.some.inj hp
      refine ⟨hnested, ?_, h.disposition, h.mask, h.saved, h.killed, hcounted.ret hpc, h.lines,
        h.printed⟩
      intro g hg
      exact h.held g (by rw [hf]; exact List.mem_cons_of_mem f hg)

/-- What is known while no handler runs. -/
structure State.Idle (s : State) : Prop where
  blocked : s.proc.blocked = noMask
  low_le : s.main.low ≤ s.count
  raised : s.awaited = true → s.main.low + 1 ≤ s.count
  count_le : s.count ≤ s.stores
  stored : s.stores = s.handled
  exact : s.torn = 0 → s.count = s.stores

theorem State.Sound.idle (h : s.Sound ignored) (hf : s.proc.frames = []) : s.Idle := by
  have hnested := h.nested
  have hcounted := h.counted
  rw [hf] at hnested hcounted
  refine ⟨hnested, hcounted.low_le _ List.mem_cons_self, fun ha => ?_, hcounted.count_le,
    hcounted.account, fun hzero => (hcounted.exact hzero).1⟩
  exact (hcounted.raised ha).resolve_right (Nat.lt_irrefl 0)

/-- The demos go on: what is to be shown of the state behind a step that keeps the counts. -/
theorem State.Sound.next (h : s.Sound ignored) (hf : s.proc.frames = [])
    (hk : s.proc.killed = none) {proc : Process Sig Pc} {demo : Demo} {main : Main}
    {saved : Sig → Disposition} {printed : List Line}
    (hblocked : proc.blocked = s.proc.blocked) (hframes : proc.frames = s.proc.frames)
    (hkilled : proc.killed = s.proc.killed)
    (hdisposition : ∀ i, (proc.action i).disposition = expected ignored demo main i)
    (hmask : ∀ i, handles demo main i = true → (proc.action i).mask = demo.mask)
    (hsaved : ∀ i, handles demo main i = true → demo = .signal → saved i = inherited ignored i)
    (hlow : main.low ≤ s.count) (hawaits : ∀ i, main.awaits = some i → proc.pending i = true)
    (hlines : Handlers.lines demo main = some printed.length)
    (hprinted : ∀ l ∈ printed, l.Sound) :
    State.Sound ignored { s with
      proc := proc, demo := demo, main := main, saved := saved, printed := printed } := by
  have hidle := h.idle hf
  rw [hf] at hframes
  rw [hk] at hkilled
  refine ⟨?_, ?_, hdisposition, hmask, hsaved, ?_, ?_, hlines, hprinted⟩
  · rw [hframes, hblocked]
    exact hidle.blocked
  · rw [hframes]
    exact fun f hf => by cases hf
  · rw [hkilled]
    exact fun i hi => by cases hi
  · rw [hframes]
    refine counted_nil hlow (fun ha => ?_) hidle.count_le hidle.stored hidle.exact
    unfold State.awaited at ha
    dsimp only at ha
    cases hw : main.awaits with
    | none =>
      rw [hw] at ha
      cases ha
    | some i =>
      simp only [hw, hawaits i hw] at ha
      cases ha

/-- The demos go on to a place with the same handlers. -/
theorem State.Sound.moveTo (h : s.Sound ignored) (hf : s.proc.frames = [])
    (hk : s.proc.killed = none) {main : Main} {printed : List Line}
    (hkeeps : ∀ i, Keeps s.demo main s.main i) (hlow : main.low ≤ s.count)
    (hawaits : main.awaits = none) (hlines : Handlers.lines s.demo main = some printed.length)
    (hprinted : ∀ l ∈ printed, l.Sound) :
    State.Sound ignored { s with main := main, printed := printed } := by
  refine h.next hf hk rfl rfl rfl (fun i => ?_) (fun i hi => ?_) (fun i hi => ?_) hlow
    (fun i hi => ?_) hlines hprinted
  · exact (h.disposition i).trans (hkeeps i).expected.symm
  · exact h.mask i ((hkeeps i).1.symm.trans hi)
  · exact h.saved i ((hkeeps i).1.symm.trans hi)
  · rw [hawaits] at hi
    cases hi

/-- `signal` or `sigaction` puts the handler of one signal in place. -/
theorem install_sound (h : s.Sound ignored) (hf : s.proc.frames = []) (hk : s.proc.killed = none)
    (i : Sig) {main : Main} (hold : expected ignored s.demo s.main i = inherited ignored i)
    (hself : handles s.demo main i = true) (hother : ∀ j, j ≠ i → Keeps s.demo main s.main j)
    (hlow : main.low = 0) (hawaits : main.awaits = none)
    (hlines : Handlers.lines s.demo main = some s.printed.length) :
    State.Sound ignored { s.install i with main := main } := by
  refine h.next hf hk rfl rfl rfl (fun j => ?_) (fun j hj => ?_) (fun j hj hd => ?_)
    (by omega) (fun j hj => ?_) hlines h.printed
  · by_cases hji : j = i
    · subst hji
      simp only [State.install, Process.sigaction, Function.update_self, expected, hself, if_true]
    · simp only [State.install, Process.sigaction, Function.update_of_ne hji, h.disposition j]
      exact (hother j hji).expected.symm
  · by_cases hji : j = i
    · subst hji
      simp only [State.install, Process.sigaction, Function.update_self]
    · simp only [State.install, Process.sigaction, Function.update_of_ne hji]
      exact h.mask j ((hother j hji).1.symm.trans hj)
  · have hd : s.demo = .signal := hd
    simp only [State.install]
    rw [if_pos hd]
    by_cases hji : j = i
    · subst hji
      rw [Function.update_self, h.disposition j, hold]
    · rw [Function.update_of_ne hji]
      exact h.saved j ((hother j hji).1.symm.trans hj) hd
  · rw [hawaits] at hj
    cases hj

/-- One of the signals gets back a disposition that is not a handler. -/
theorem restore_sound (h : s.Sound ignored) (hf : s.proc.frames = []) (hk : s.proc.killed = none)
    (i : Sig) {a : Action Sig} {main : Main} (ha : a.disposition = expected ignored s.demo main i)
    (hself : handles s.demo main i = false) (hother : ∀ j, j ≠ i → Keeps s.demo main s.main j)
    (hlow : main.low ≤ s.count) (hawaits : main.awaits = none)
    (hlines : Handlers.lines s.demo main = some s.printed.length) :
    State.Sound ignored { s with proc := s.proc.sigaction i a, main := main } := by
  have hne : ∀ j, handles s.demo main j = true → j ≠ i := by
    rintro j hj rfl
    rw [hself] at hj
    cases hj
  refine h.next hf hk rfl rfl rfl (fun j => ?_) (fun j hj => ?_) (fun j hj => ?_) hlow
    (fun j hj => ?_) hlines h.printed
  · by_cases hji : j = i
    · subst hji
      simp only [Process.sigaction, Function.update_self, ha]
    · simp only [Process.sigaction, Function.update_of_ne hji, h.disposition j]
      exact (hother j hji).expected.symm
  · simp only [Process.sigaction, Function.update_of_ne (hne j hj)]
    exact h.mask j ((hother j (hne j hj)).1.symm.trans hj)
  · exact h.saved j ((hother j (hne j hj)).1.symm.trans hj)
  · rw [hawaits] at hj
    cases hj

/-- A `raise` makes its signal pending. -/
theorem raise_sound (h : s.Sound ignored) (hf : s.proc.frames = []) (hk : s.proc.killed = none)
    (i : Sig) {main : Main} (hi : handles s.demo s.main i = true)
    (hkeeps : ∀ j, Keeps s.demo main s.main j) (hlow : main.low ≤ s.count)
    (hawaits : main.awaits = some i)
    (hlines : Handlers.lines s.demo main = some s.printed.length) :
    State.Sound ignored { s with proc := s.proc.send i, main := main } := by
  refine h.next hf hk (by simp) (by simp) (by simp) (fun j => ?_) (fun j hj => ?_)
    (fun j hj => ?_) hlow (fun j hj => ?_) hlines h.printed
  · rw [Process.send_action, h.disposition j]
    exact (hkeeps j).expected.symm
  · rw [Process.send_action]
    exact h.mask j ((hkeeps j).1.symm.trans hj)
  · exact h.saved j ((hkeeps j).1.symm.trans hj)
  · rw [hawaits] at hj
    cases hj
    apply s.proc.send_pending_self
    rw [h.disposition i, expected, if_pos hi]
    exact .inl (by decide)

/-- The count is set to 0 while no handler is installed. -/
theorem reset_sound (h : s.Sound ignored) (hf : s.proc.frames = []) (hk : s.proc.killed = none)
    {main : Main} (hnone : ∀ i, handles s.demo main i = false)
    (hkeeps : ∀ i, Keeps s.demo main s.main i) (hlow : main.low = 0) (hawaits : main.awaits = none)
    (hlines : Handlers.lines s.demo main = some s.printed.length) :
    State.Sound ignored
      { s with count := 0, stores := 0, handled := 0, torn := 0, main := main } := by
  refine ⟨h.nested, h.held, fun i => ?_, fun i hi => ?_, fun i hi => ?_, fun i hi => ?_, ?_, hlines,
    h.printed⟩
  · exact (h.disposition i).trans (hkeeps i).expected.symm
  · rw [hnone i] at hi
    cases hi
  · rw [hnone i] at hi
    cases hi
  · rw [hk] at hi
    cases hi
  · rw [hf, hlow]
    refine counted_nil (Nat.le_refl _) (fun hw => ?_) (Nat.le_refl _) rfl fun _ => rfl
    simp only [State.awaited, hawaits] at hw
    cases hw

/-- The line of a demo counts both raised signals, and no handler twice. -/
theorem State.Sound.printed_line (h : s.Sound ignored) (hf : s.proc.frames = [])
    (hm : s.main.low = 2) : ∀ l ∈ s.printed ++ [s.line], l.Sound := by
  have hidle := h.idle hf
  intro l hl
  rcases List.mem_append.mp hl with hl | hl
  · exact h.printed l hl
  · rw [List.mem_singleton.mp hl]
    refine ⟨hm ▸ hidle.low_le, ?_, fun hzero => (hidle.exact hzero).trans hidle.stored⟩
    exact Nat.le_trans hidle.count_le (Nat.le_of_eq hidle.stored)

theorem length_append_line {printed : List Line} {n : Nat} {l : Line}
    (h : some n = some printed.length) : some (n + 1) = some (printed ++ [l]).length := by
  rw [List.length_append, ← Option.some.inj h]
  rfl

theorem mainStep_sound (h : s.Sound ignored) (hk : s.proc.killed = none)
    (hs : mainStep s = some s') : s'.Sound ignored := by
  obtain ⟨hf, hs⟩ := Option.ite_none_right_eq_some.mp hs
  have hidle := h.idle hf
  have hlines := h.lines
  obtain ⟨proc, demo, main, saved, count, printed, stores, handled, torn⟩ := s
  cases main with
  | reset =>
    cases demo with
    | signal => cases hs
    | sigaction =>
      obtain rfl := Option.some.inj hs
      exact reset_sound h hf hk (fun _ => rfl) (of_decide_eq_true rfl) rfl rfl hlines
  | installInt =>
    cases demo with
    | signal | sigaction =>
      obtain rfl := Option.some.inj hs
      exact install_sound h hf hk .sigint rfl rfl (of_decide_eq_true rfl) rfl rfl hlines
  | installTerm =>
    cases demo with
    | signal | sigaction =>
      obtain rfl := Option.some.inj hs
      exact install_sound h hf hk .sigterm rfl rfl (of_decide_eq_true rfl) rfl rfl hlines
  | raiseInt =>
    cases demo with
    | signal | sigaction =>
      obtain rfl := Option.some.inj hs
      exact raise_sound h hf hk .sigint rfl (of_decide_eq_true rfl) (Nat.zero_le _) rfl hlines
  | raisedInt =>
    cases demo with
    | signal | sigaction =>
      obtain ⟨hgone, hs⟩ := Option.ite_none_left_eq_some.mp hs
      obtain rfl := Option.some.inj hs
      have hone : 1 ≤ count := hidle.raised (by simpa [State.awaited, Main.awaits] using hgone)
      exact h.moveTo hf hk (of_decide_eq_true rfl) hone rfl hlines h.printed
  | raiseTerm =>
    cases demo with
    | signal | sigaction =>
      obtain rfl := Option.some.inj hs
      exact raise_sound h hf hk .sigterm rfl (of_decide_eq_true rfl) hidle.low_le rfl hlines
  | raisedTerm =>
    cases demo with
    | signal | sigaction =>
      obtain ⟨hgone, hs⟩ := Option.ite_none_left_eq_some.mp hs
      obtain rfl := Option.some.inj hs
      have htwo : 2 ≤ count := hidle.raised (by simpa [State.awaited, Main.awaits] using hgone)
      exact h.moveTo hf hk (of_decide_eq_true rfl) htwo rfl hlines h.printed
  | sleeping =>
    cases demo with
    | signal | sigaction =>
      obtain rfl := Option.some.inj hs
      exact h.moveTo hf hk (of_decide_eq_true rfl) hidle.low_le rfl hlines h.printed
  | restoreInt =>
    cases demo with
    | signal =>
      obtain rfl := Option.some.inj hs
      have hsaved := h.saved .sigint rfl rfl
      exact restore_sound h hf hk .sigint hsaved rfl (of_decide_eq_true rfl) hidle.low_le rfl hlines
    | sigaction =>
      obtain rfl := Option.some.inj hs
      exact restore_sound h hf hk .sigint rfl rfl (of_decide_eq_true rfl) hidle.low_le rfl hlines
  | restoreTerm =>
    cases demo with
    | signal =>
      obtain rfl := Option.some.inj hs
      have hsaved := h.saved .sigterm rfl rfl
      exact restore_sound h hf hk .sigterm hsaved rfl (of_decide_eq_true rfl) hidle.low_le rfl
        hlines
    | sigaction => cases hs
  | print =>
    cases demo with
    | signal =>
      obtain rfl := Option.some.inj hs
      -- both dispositions are given back, so nothing is handled at the next place either
      exact h.next hf hk rfl rfl rfl h.disposition (fun _ hi => by cases hi)
        (fun _ hi => by cases hi) (Nat.zero_le _) (fun _ hi => by cases hi)
        (length_append_line hlines) (h.printed_line hf rfl)
    | sigaction =>
      obtain rfl := Option.some.inj hs
      exact h.moveTo hf hk (of_decide_eq_true rfl) hidle.low_le rfl (length_append_line hlines)
        (h.printed_line hf rfl)
  | returned =>
    cases demo with
    | signal | sigaction => cases hs

theorem step_sound {a : Act} (h : s.Sound ignored) (hs : step a s = some s') :
    s'.Sound ignored := by
  obtain ⟨hk, hs⟩ := Option.ite_none_right_eq_some.mp hs
  cases a with
  | main => exact mainStep_sound h hk hs
  | handler => exact handlerStep_sound h hs
  | deliver i => exact deliver_sound h hs
  | send i =>
    obtain rfl := Option.some.inj hs
    exact send_sound h i

end Steps

/-! ## What the invariant says -/

section Results

variable {ignored : Sig → Bool} {s : State}

/-- With the mask of `demo_sigaction` the handler of `SIGINT` is on top of the stack. -/
theorem State.Sound.int_on_top (h : s.Sound ignored) (hd : s.demo = .sigaction) :
    ∀ f ∈ s.proc.frames.tail, f.sig ≠ .sigint := by
  intro f hf hint
  cases hframes : s.proc.frames with
  | nil =>
    rw [hframes] at hf
    cases hf
  | cons g frames =>
    rw [hframes] at hf
    have hpair := h.nested.pairwise
    rw [hframes] at hpair
    -- the handler above has a signal that the one of `SIGINT` holds
    have hfree := (List.pairwise_cons.mp hpair).1 f hf
    rw [h.held f (by rw [hframes]; exact List.mem_cons_of_mem g hf), hint, hd] at hfree
    cases hsig : g.sig <;> simp [hsig, Demo.mask] at hfree

end Results

/-! ## Nobody waits for ever -/

/-- A step of the program itself. -/
def Act.isOwn : Act → Bool
  | .main | .handler | .deliver _ => true
  | .send _ => false

/-- A handler can always go on. -/
theorem handlerStep_isSome {s : State} {f : Frame Sig Pc} {frames : List (Frame Sig Pc)}
    (hf : s.proc.frames = f :: frames) : (handlerStep s).isSome = true := by
  cases hpc : f.pc with
  | write | load | store reg => simp [handlerStep, hf, hpc]
  | ret => simp [handlerStep, Process.sigreturn, hf, hpc]

/-- The demos go on when what they have raised is no longer pending. -/
theorem mainStep_isSome {ignored : Sig → Bool} {s : State} (h : s.Sound ignored)
    (hf : s.proc.frames = []) (hm : s.main ≠ .returned)
    (hw : ∀ i, s.main.awaits = some i → s.proc.pending i = false) :
    (mainStep s).isSome = true := by
  have hlines := h.lines
  rw [mainStep, if_pos hf]
  cases hmain : s.main with
  | raisedInt =>
    rw [hmain] at hw
    simp [hw .sigint rfl]
  | raisedTerm =>
    rw [hmain] at hw
    simp [hw .sigterm rfl]
  | returned => exact absurd hmain hm
  | reset =>
    cases hdemo : s.demo with
    | signal =>
      rw [hmain, hdemo] at hlines
      cases hlines
    | sigaction => rfl
  | restoreTerm =>
    cases hdemo : s.demo with
    | signal => rfl
    | sigaction =>
      rw [hmain, hdemo] at hlines
      cases hlines
  | installInt | installTerm | raiseInt | raiseTerm | sleeping | restoreInt | print =>
    cases s.demo <;> rfl

theorem State.Sound.moves {ignored : Sig → Bool} {s : State} (h : s.Sound ignored)
    (hk : s.proc.killed = none) (hm : s.main ≠ .returned) :
    ∃ a t, a.isOwn = true ∧ step a s = some t := by
  cases hf : s.proc.frames with
  | cons f frames =>
    obtain ⟨t, ht⟩ := Option.isSome_iff_exists.mp (handlerStep_isSome hf)
    exact ⟨.handler, t, rfl, (if_pos hk).trans ht⟩
  | nil =>
    by_cases hw : ∀ i, s.main.awaits = some i → s.proc.pending i = false
    · obtain ⟨t, ht⟩ := Option.isSome_iff_exists.mp (mainStep_isSome h hf hm hw)
      exact ⟨.main, t, rfl, (if_pos hk).trans ht⟩
    · -- the raised signal is delivered
      obtain ⟨i, hi⟩ := Classical.not_forall.mp hw
      obtain ⟨-, hpending⟩ := Classical.not_imp.mp hi
      have hfree : s.proc.blocked i = false := by
        rw [(h.idle hf).blocked]
        rfl
      obtain ⟨p, hp⟩ := Option.isSome_iff_exists.mp
        (Process.deliver_isSome .write (Bool.eq_true_of_not_eq_false hpending) hfree hk)
      obtain ⟨t, ht⟩ : ∃ t, deliverStep i s = some t :=
        ⟨_, Option.map_eq_some_iff.mpr ⟨p, hp, rfl⟩⟩
      exact ⟨.deliver i, t, rfl, (if_pos hk).trans ht⟩

/-- **The handlers nest and count**, in every interleaving of `demo_signal` and `demo_sigaction`,
their handlers and signals from outside. No handler interrupts itself, so at most two are active;
with the mask of `demo_sigaction` the handler of `SIGINT` is never interrupted. A signal kills only
at the places where its handler is not installed, and one that was ignored from the start only when
`demo_sigaction` has reset it to its default. A line counts at least the two raised signals, and
never more handlers than have run; it counts all of them unless one came between the load and the
store of another. Until both demos have returned, or a signal has killed, the program can go on. -/
theorem handlers_nest_and_count (ignored : Sig → Bool) (acts : List Act) (s : State)
    (hr : runList step acts (State.initial ignored) = some s) :
    ((s.proc.frames.map Frame.sig).Nodup ∧ s.proc.frames.length ≤ 2 ∧
      (s.demo = .sigaction → ∀ f ∈ s.proc.frames.tail, f.sig ≠ .sigint)) ∧
    (∀ i, (s.proc.action i).disposition = .handler ↔ handles s.demo s.main i = true) ∧
    (∀ i, s.proc.killed = some i → handles s.demo s.main i = false ∧
      (ignored i = true → i = .sigint ∧ s.demo = .sigaction ∧ s.main = .returned)) ∧
    (∀ l ∈ s.printed,
      2 ≤ l.count ∧ l.count ≤ l.handled ∧ (l.torn = 0 → l.count = l.handled)) ∧
    (s.main = .returned → s.printed.length = 2) ∧
    (s.proc.killed = none → s.main ≠ .returned → ∃ a t, a.isOwn = true ∧ step a s = some t) := by
  have h := runList_invariant (fun _ _ _ => step_sound) acts initial_sound hr
  refine ⟨⟨h.nested.nodup, h.nested.length_le, h.int_on_top⟩, fun i => ?_, fun i hi => ?_,
    h.printed, fun hm => ?_, h.moves⟩
  · rw [h.disposition i]
    exact expected_eq_handler
  · exact expected_eq_default (h.killed i hi)
  · have hlines := h.lines
    rw [hm] at hlines
    cases hd : s.demo with
    | signal =>
      rw [hd] at hlines
      cases hlines
    | sigaction =>
      rw [hd] at hlines
      exact (Option.some.inj hlines).symm

/-- A `SIGINT` from outside between the load and the store of the handler of `SIGTERM`: three
handlers have run, and the line of `demo_signal` shows 2. The next `SIGTERM` comes before
`demo_sigaction` has installed its handler, and kills. -/
theorem handlers_nest_and_count_torn :
    ∃ s, runList step
        [.main, .main, .main, .deliver .sigint, .handler, .handler, .handler, .handler, .main,
          .main, .deliver .sigterm, .handler, .handler, .send .sigint, .deliver .sigint, .handler,
          .handler, .handler, .handler, .handler, .handler, .main, .main, .main, .main, .main,
          .send .sigterm, .deliver .sigterm] (State.initial fun _ => false) = some s ∧
      s.printed = [⟨2, 3, 1⟩] ∧ s.proc.killed = some .sigterm ∧
      handles s.demo s.main .sigterm = false := by
  refine ⟨_, rfl, rfl, rfl, ?_⟩
  exact ((handlers_nest_and_count (fun _ => false) [.main, .main, .main, .deliver .sigint, .handler,
    .handler, .handler, .handler, .main, .main, .deliver .sigterm, .handler, .handler,
    .send .sigint, .deliver .sigint, .handler, .handler, .handler, .handler, .handler, .handler,
    .main, .main, .main, .main, .main, .send .sigterm, .deliver .sigterm] _ rfl).2.2.1 .sigterm
    rfl).1

end LearnLinux.Handlers
