import LearnLinux.Lib.CString
import LearnLinux.Lib.Handshake

/-!
# The shared-memory exchange of `03_ipc/shm_demo.c`

A parent and a child share one `SharedBuf` and two semaphores. The parent waits for
`sem_w`, writes `msg_number` and `data` and posts `sem_r`; the child waits for
`sem_r`, reads both and posts `sem_w`. The two loops interleave at every step.
`shared_memory_delivers` says that each message is delivered once and in one piece.
-/

namespace LearnLinux.SharedMemory

open CString Handshake Transition

/-! ## Data -/

/-- `BUF_SIZE`. -/
def bufSize : Nat := 256

/-- `SharedBuf`. -/
structure SharedBuf where
  data : List UInt8
  msgNumber : Int

/-- The two fields as `printf` reads them. -/
def SharedBuf.message (shm : SharedBuf) : Int × List UInt8 := (shm.msgNumber, cString shm.data)

/-- The text of iteration `i`, before `snprintf` cuts it. -/
def text (pid i : Nat) : List UInt8 :=
  bytes ("Hello #" ++ toString i ++ " from producer (PID " ++ toString pid ++ ")")

/-- Inside one iteration of the parent. -/
inductive WritePc where
  | wait
  | number
  | data
  | print
  | post
  deriving DecidableEq, Repr

/-- Inside one iteration of the child, with the number once it is read. -/
inductive ReadPc where
  | wait
  | number
  | data (num : Int)
  | post
  deriving DecidableEq, Repr

inductive Producer where
  | iter (i : Nat) (pc : WritePc)
  | done
  deriving DecidableEq, Repr

inductive Consumer where
  | iter (i : Nat) (pc : ReadPc)
  | done
  deriving DecidableEq, Repr

/-- The shared memory, the semaphores and the two processes. `wrote` and `received`
record the message of each iteration: what the parent wrote and what the child
printed. -/
structure State where
  shm : SharedBuf
  semW : Nat
  semR : Nat
  prod : Producer
  cons : Consumer
  wrote : List (Int × List UInt8)
  received : List (Int × List UInt8)

/-! ## Steps -/

/-- The message of iteration `i`. -/
def message (pid i : Nat) : Int × List UInt8 := (i, (text pid i).take (bufSize - 1))

/-- The loop test of the parent. -/
def producerTest (n i : Nat) : Producer := if i < n then .iter i .wait else .done

/-- The loop test of the child. -/
def consumerTest (n i : Nat) : Consumer := if i < n then .iter i .wait else .done

def producerStep (n pid : Nat) (s : State) : Option State :=
  match s.prod with
  | .iter i .wait => (semWait s.semW).map fun k => { s with semW := k, prod := .iter i .number }
  | .iter i .number =>
    some { s with shm := { s.shm with msgNumber := i }, prod := .iter i .data }
  | .iter i .data =>
    some { s with
      shm := { s.shm with data := snprintf s.shm.data bufSize (text pid i) }
      prod := .iter i .print
      wrote := s.wrote ++ [message pid i] }
  | .iter i .print => some { s with prod := .iter i .post }
  | .iter i .post => some { s with semR := s.semR + 1, prod := producerTest n (i + 1) }
  | .done => none

def consumerStep (n : Nat) (s : State) : Option State :=
  match s.cons with
  | .iter i .wait => (semWait s.semR).map fun k => { s with semR := k, cons := .iter i .number }
  | .iter i .number => some { s with cons := .iter i (.data s.shm.msgNumber) }
  | .iter i (.data num) =>
    some { s with
      cons := .iter i .post
      received := s.received ++ [(num, cString s.shm.data)] }
  | .iter i .post => some { s with semW := s.semW + 1, cons := consumerTest n (i + 1) }
  | .done => none

inductive Act where
  | producer
  | consumer

def step (n pid : Nat) : Act → State → Option State
  | .producer => producerStep n pid
  | .consumer => consumerStep n

/-- `sem_w` at 1, `sem_r` at 0, whatever the segment holds. -/
def State.initial (n : Nat) (shm : SharedBuf) : State where
  shm := shm
  semW := 1
  semR := 0
  prod := producerTest n 0
  cons := consumerTest n 0
  wrote := []
  received := []

/-- `n` messages from a parent with process id `pid`. -/
def system (n pid : Nat) : System Act State :=
  .ofStep (fun s => ∃ shm, shm.data.length = bufSize ∧ s = State.initial n shm) (step n pid)

/-! ## Tokens -/

/-- The iterations completed. -/
def Producer.index (n : Nat) : Producer → Nat
  | .iter i _ => i
  | .done => n

/-- Between `sem_wait(sem_w)` and `sem_post(sem_r)`. -/
def Producer.holds : Producer → Bool
  | .iter _ .wait => false
  | .iter _ _ => true
  | .done => false

def Consumer.index (n : Nat) : Consumer → Nat
  | .iter i _ => i
  | .done => n

/-- Between `sem_wait(sem_r)` and `sem_post(sem_w)`. -/
def Consumer.holds : Consumer → Bool
  | .iter _ .wait => false
  | .iter _ _ => true
  | .done => false

/-- The exchange seen through its semaphores. -/
def State.tokens (n : Nat) (s : State) : Tokens where
  free := s.semW
  full := s.semR
  puts := s.prod.index n
  gets := s.cons.index n
  putting := s.prod.holds
  getting := s.cons.holds

theorem producerTest_counts {n i : Nat} (hi : i ≤ n) :
    (producerTest n i).index n = i ∧ (producerTest n i).holds = false := by
  unfold producerTest
  split
  · exact ⟨rfl, rfl⟩
  · exact ⟨by simp only [Producer.index]; omega, rfl⟩

theorem consumerTest_counts {n i : Nat} (hi : i ≤ n) :
    (consumerTest n i).index n = i ∧ (consumerTest n i).holds = false := by
  unfold consumerTest
  split
  · exact ⟨rfl, rfl⟩
  · exact ⟨by simp only [Consumer.index]; omega, rfl⟩

/-! ## What each process has done -/

/-- The messages written so far. -/
def Producer.written (n : Nat) : Producer → Nat
  | .iter i .print => i + 1
  | .iter i .post => i + 1
  | .iter i _ => i
  | .done => n

/-- The messages read so far. -/
def Consumer.reads (n : Nat) : Consumer → Nat
  | .iter i .post => i + 1
  | .iter i _ => i
  | .done => n

/-- What the parent has written, and what of it stands in the shared memory. -/
structure State.Writes (n pid : Nat) (s : State) : Prop where
  lt : ∀ i pc, s.prod = .iter i pc → i < n
  wrote : s.wrote = (List.range (s.prod.written n)).map (message pid)
  number : ∀ i, s.prod = .iter i .data → s.shm.msgNumber = i
  buffer : (∀ i, s.prod ≠ .iter i .data) → ∀ k, s.prod.written n = k + 1 →
    s.shm.message = message pid k

/-- What the child has read. -/
structure State.Reads (n pid : Nat) (s : State) : Prop where
  lt : ∀ i pc, s.cons = .iter i pc → i < n
  received : s.received = (List.range (s.cons.reads n)).map (message pid)
  number : ∀ i num, s.cons = .iter i (.data num) → num = i

theorem text_ne_zero (pid i : Nat) : ∀ b ∈ text pid i, b ≠ 0 := by
  intro b hb
  simp only [text, bytes_append, List.mem_append] at hb
  rcases hb with (((hb | hb) | hb) | hb) | hb
  · exact (show ∀ b ∈ bytes "Hello #", b ≠ 0 by decide +kernel) b hb
  · exact bytes_toString_ne_zero i b hb
  · exact (show ∀ b ∈ bytes " from producer (PID ", b ≠ 0 by decide +kernel) b hb
  · exact bytes_toString_ne_zero pid b hb
  · exact (show ∀ b ∈ bytes ")", b ≠ 0 by decide +kernel) b hb

theorem producerTest_lt (n i : Nat) : ∀ j pc, producerTest n i = .iter j pc → j < n := by
  intro j pc h
  unfold producerTest at h
  split at h
  · cases h
    assumption
  · cases h

theorem producerTest_written {n i : Nat} (hi : i ≤ n) : (producerTest n i).written n = i := by
  unfold producerTest
  split
  · rfl
  · simp only [Producer.written]
    omega

theorem producerTest_ne_data (n i j : Nat) : producerTest n i ≠ .iter j .data := by
  unfold producerTest
  split <;> simp

theorem consumerTest_lt (n i : Nat) : ∀ j pc, consumerTest n i = .iter j pc → j < n := by
  intro j pc h
  unfold consumerTest at h
  split at h
  · cases h
    assumption
  · cases h

theorem consumerTest_reads {n i : Nat} (hi : i ≤ n) : (consumerTest n i).reads n = i := by
  unfold consumerTest
  split
  · rfl
  · simp only [Consumer.reads]
    omega

theorem consumerTest_ne_data (n i j : Nat) (num : Int) :
    consumerTest n i ≠ .iter j (.data num) := by
  unfold consumerTest
  split <;> simp

theorem producerStep_writes {n pid : Nat} {s t : State} (hs : producerStep n pid s = some t)
    (h : s.Writes n pid) : t.Writes n pid ∧ t.cons = s.cons ∧ t.received = s.received := by
  obtain ⟨hlt, hwrote, hnum, hbuf⟩ := h
  unfold producerStep at hs
  split at hs
  next i hp =>
    rw [hp] at hwrote hbuf
    obtain ⟨k, -, rfl⟩ := Option.map_eq_some_iff.mp hs
    refine ⟨⟨?_, hwrote, ?_, ?_⟩, rfl, rfl⟩
    · rintro j pc ⟨⟩
      exact hlt i _ hp
    · rintro j ⟨⟩
    · intro _
      exact hbuf (by simp)
  next i hp =>
    rw [hp] at hwrote
    obtain rfl := Option.some.inj hs
    refine ⟨⟨?_, hwrote, ?_, ?_⟩, rfl, rfl⟩
    · rintro j pc ⟨⟩
      exact hlt i _ hp
    · rintro j ⟨⟩
      rfl
    · intro hne
      exact absurd rfl (hne i)
  next i hp =>
    rw [hp] at hwrote
    have hi := hnum i hp
    obtain rfl := Option.some.inj hs
    refine ⟨⟨?_, ?_, ?_, ?_⟩, rfl, rfl⟩
    · rintro j pc ⟨⟩
      exact hlt i _ hp
    · simp only [Producer.written] at hwrote ⊢
      rw [hwrote, List.range_succ, List.map_append]
      rfl
    · rintro j ⟨⟩
    · intro _ k hk
      cases hk
      simp only [SharedBuf.message, message]
      rw [cString_snprintf _ _ _ (text_ne_zero pid i), hi]
  next i hp =>
    rw [hp] at hwrote hbuf
    obtain rfl := Option.some.inj hs
    refine ⟨⟨?_, hwrote, ?_, ?_⟩, rfl, rfl⟩
    · rintro j pc ⟨⟩
      exact hlt i _ hp
    · rintro j ⟨⟩
    · intro _
      exact hbuf (by simp)
  next i hp =>
    rw [hp] at hwrote hbuf
    have hi := hlt i _ hp
    obtain rfl := Option.some.inj hs
    refine ⟨⟨producerTest_lt n (i + 1), ?_, ?_, ?_⟩, rfl, rfl⟩
    · simp only [producerTest_written hi]
      exact hwrote
    · intro j hj
      exact absurd hj (producerTest_ne_data n (i + 1) j)
    · intro _ k hk
      simp only [producerTest_written hi] at hk
      exact hbuf (by simp) k hk
  next hp => cases hs

/-- One step of the child. The shared memory holds the message of the iteration the
child is in whenever the child has its token. -/
theorem consumerStep_reads {n pid : Nat} {s t : State} (hs : consumerStep n s = some t)
    (h : s.Reads n pid)
    (hm : s.cons.holds = true → s.shm.message = message pid (s.cons.index n)) :
    t.Reads n pid ∧ t.prod = s.prod ∧ t.shm = s.shm ∧ t.wrote = s.wrote := by
  obtain ⟨hlt, hrec, hnum⟩ := h
  unfold consumerStep at hs
  split at hs
  next i hc =>
    rw [hc] at hrec
    obtain ⟨k, -, rfl⟩ := Option.map_eq_some_iff.mp hs
    refine ⟨⟨?_, hrec, ?_⟩, rfl, rfl, rfl⟩
    · rintro j pc ⟨⟩
      exact hlt i _ hc
    · rintro j num ⟨⟩
  next i hc =>
    rw [hc] at hrec hm
    have hmsg : s.shm.msgNumber = i := congrArg Prod.fst (hm rfl)
    obtain rfl := Option.some.inj hs
    refine ⟨⟨?_, hrec, ?_⟩, rfl, rfl, rfl⟩
    · rintro j pc ⟨⟩
      exact hlt i _ hc
    · rintro j num ⟨⟩
      exact hmsg
  next i num hc =>
    rw [hc] at hrec hm
    have hi := hnum i num hc
    have hdata : cString s.shm.data = (message pid i).2 := congrArg Prod.snd (hm rfl)
    obtain rfl := Option.some.inj hs
    refine ⟨⟨?_, ?_, ?_⟩, rfl, rfl, rfl⟩
    · rintro j pc ⟨⟩
      exact hlt i _ hc
    · simp only [Consumer.reads] at hrec ⊢
      rw [hrec, hi, hdata, List.range_succ, List.map_append]
      rfl
    · rintro j num ⟨⟩
  next i hc =>
    rw [hc] at hrec
    have hi := hlt i _ hc
    obtain rfl := Option.some.inj hs
    refine ⟨⟨consumerTest_lt n (i + 1), ?_, ?_⟩, rfl, rfl, rfl⟩
    · simp only [consumerTest_reads hi]
      exact hrec
    · intro j num hj
      exact absurd hj (consumerTest_ne_data n (i + 1) j num)
  next hc => cases hs

theorem producerStep_tokens {n pid : Nat} {s t : State} (hs : producerStep n pid s = some t)
    (hlt : ∀ i pc, s.prod = .iter i pc → i < n) :
    (∃ b, Handshake.Step b (s.tokens n) (t.tokens n)) ∨ t.tokens n = s.tokens n := by
  unfold producerStep at hs
  split at hs
  next i hp =>
    obtain ⟨k, hk, rfl⟩ := Option.map_eq_some_iff.mp hs
    have hb := Step.beginPut (t := s.tokens n) (semWait_eq_some hk)
      (by simp [State.tokens, hp, Producer.holds])
    exact Or.inl ⟨_, by simpa [State.tokens, hp, Producer.index, Producer.holds] using hb⟩
  next i hp =>
    obtain rfl := Option.some.inj hs
    exact Or.inr (by simp [State.tokens, hp, Producer.index, Producer.holds])
  next i hp =>
    obtain rfl := Option.some.inj hs
    exact Or.inr (by simp [State.tokens, hp, Producer.index, Producer.holds])
  next i hp =>
    obtain rfl := Option.some.inj hs
    exact Or.inr (by simp [State.tokens, hp, Producer.index, Producer.holds])
  next i hp =>
    obtain rfl := Option.some.inj hs
    obtain ⟨hidx, hholds⟩ := producerTest_counts (hlt i _ hp)
    have hb := Step.endPut (t := s.tokens n) (by simp [State.tokens, hp, Producer.holds])
    refine Or.inl ⟨.endPut, ?_⟩
    simp only [State.tokens, hidx, hholds]
    simpa [State.tokens, hp, Producer.index] using hb
  next hp => cases hs

theorem consumerStep_tokens {n : Nat} {s t : State} (hs : consumerStep n s = some t)
    (hlt : ∀ i pc, s.cons = .iter i pc → i < n) :
    (∃ b, Handshake.Step b (s.tokens n) (t.tokens n)) ∨ t.tokens n = s.tokens n := by
  unfold consumerStep at hs
  split at hs
  next i hc =>
    obtain ⟨k, hk, rfl⟩ := Option.map_eq_some_iff.mp hs
    have hb := Step.beginGet (t := s.tokens n) (semWait_eq_some hk)
      (by simp [State.tokens, hc, Consumer.holds])
    exact Or.inl ⟨_, by simpa [State.tokens, hc, Consumer.index, Consumer.holds] using hb⟩
  next i hc =>
    obtain rfl := Option.some.inj hs
    exact Or.inr (by simp [State.tokens, hc, Consumer.index, Consumer.holds])
  next i num hc =>
    obtain rfl := Option.some.inj hs
    exact Or.inr (by simp [State.tokens, hc, Consumer.index, Consumer.holds])
  next i hc =>
    obtain rfl := Option.some.inj hs
    obtain ⟨hidx, hholds⟩ := consumerTest_counts (hlt i _ hc)
    have hb := Step.endGet (t := s.tokens n) (by simp [State.tokens, hc, Consumer.holds])
    refine Or.inl ⟨.endGet, ?_⟩
    simp only [State.tokens, hidx, hholds]
    simpa [State.tokens, hc, Consumer.index] using hb
  next hc => cases hs

theorem Producer.written_of_not_holds (n : Nat) (p : Producer) (h : p.holds = false) :
    p.written n = p.index n ∧ ∀ i, p ≠ .iter i .data := by
  cases p with
  | iter i pc =>
    cases pc with
    | wait => exact ⟨rfl, by simp⟩
    | number => cases h
    | data => cases h
    | print => cases h
    | post => cases h
  | done => exact ⟨rfl, by simp⟩

/-- A child with its token finds the message of its own iteration. -/
theorem holds_message {n pid : Nat} {s : State} (hw : s.Writes n pid)
    (hb : Balanced 1 (s.tokens n)) (hc : s.cons.holds = true) :
    s.shm.message = message pid (s.cons.index n) := by
  have hp : s.prod.holds = false := by
    cases hp : s.prod.holds with
    | false => rfl
    | true => exact absurd ⟨hp, hc⟩ hb.exclusive
  obtain ⟨hwritten, hdata⟩ := s.prod.written_of_not_holds n hp
  obtain ⟨hfree, hfull⟩ := hb
  simp only [State.tokens, hp, hc, Bool.toNat_true, Bool.toNat_false] at hfree hfull
  exact hw.buffer hdata _ (by omega)

/-- The account of the two processes and of the tokens. -/
structure State.Account (n pid : Nat) (s : State) : Prop where
  writes : s.Writes n pid
  reads : s.Reads n pid
  tokens : Balanced 1 (s.tokens n)

theorem initial_account (n pid : Nat) (shm : SharedBuf) : (State.initial n shm).Account n pid := by
  have h0 := producerTest_written (Nat.zero_le n)
  refine ⟨⟨producerTest_lt n 0, ?_, ?_, ?_⟩, ⟨consumerTest_lt n 0, ?_, ?_⟩, ?_, ?_⟩
  · simp only [State.initial, h0]
    rfl
  · intro i hi
    exact absurd hi (producerTest_ne_data n 0 i)
  · intro _ k hk
    simp only [State.initial, h0] at hk
    omega
  · simp only [State.initial, consumerTest_reads (Nat.zero_le n)]
    rfl
  · intro i num hi
    exact absurd hi (consumerTest_ne_data n 0 i num)
  · simp [State.tokens, State.initial, producerTest_counts, consumerTest_counts]
  · simp [State.tokens, State.initial, producerTest_counts, consumerTest_counts]

theorem step_account {n pid : Nat} {a : Act} {s t : State} (hs : step n pid a s = some t)
    (h : s.Account n pid) : t.Account n pid := by
  obtain ⟨hw, hr, hb⟩ := h
  cases a with
  | producer =>
    obtain ⟨hw', hcons, hrec⟩ := producerStep_writes hs hw
    refine ⟨hw', ?_, hb.stutter (producerStep_tokens hs hw.lt)⟩
    exact ⟨by rw [hcons]; exact hr.lt, by rw [hcons, hrec]; exact hr.received,
      by rw [hcons]; exact hr.number⟩
  | consumer =>
    obtain ⟨hr', hprod, hshm, hwrote⟩ := consumerStep_reads hs hr (holds_message hw hb)
    refine ⟨?_, hr', hb.stutter (consumerStep_tokens hs hr.lt)⟩
    exact ⟨by rw [hprod]; exact hw.lt, by rw [hprod, hwrote]; exact hw.wrote,
      by rw [hprod, hshm]; exact hw.number, by rw [hprod, hshm]; exact hw.buffer⟩

theorem reachable_account {n pid : Nat} {s : State} (hr : (system n pid).Reachable s) :
    s.Account n pid := by
  induction hr with
  | init hi =>
    obtain ⟨shm, -, rfl⟩ := hi
    exact initial_account n pid shm
  | next _ hs ih => exact step_account hs ih

/-! ## The exchange as a whole -/

/-- Both loops have ended. -/
def Done (s : State) : Prop := s.prod = .done ∧ s.cons = .done

theorem producer_blocked {n pid : Nat} {s : State} (h : producerStep n pid s = none) :
    s.prod = .done ∨ ∃ i, s.prod = .iter i .wait ∧ s.semW = 0 := by
  unfold producerStep at h
  split at h
  case h_1 i hp => exact Or.inr ⟨i, hp, semWait_map_eq_none h⟩
  case h_6 hp => exact Or.inl hp
  all_goals cases h

theorem consumer_blocked {n : Nat} {s : State} (h : consumerStep n s = none) :
    s.cons = .done ∨ ∃ i, s.cons = .iter i .wait ∧ s.semR = 0 := by
  unfold consumerStep at h
  split at h
  case h_1 i hc => exact Or.inr ⟨i, hc, semWait_map_eq_none h⟩
  case h_5 hc => exact Or.inl hc
  all_goals cases h

/-- Before both loops end, one of the processes can move. -/
theorem progress {n pid : Nat} {s : State} (h : s.Account n pid) (hd : ¬ Done s) :
    ∃ a t, step n pid a s = some t := by
  by_contra hno
  have hblock := step_eq_none hno
  obtain ⟨hw, hr, hbal⟩ := h
  rcases producer_blocked (hblock .producer) with hp | ⟨i, hp, hfree⟩
  · rcases consumer_blocked (hblock .consumer) with hc | ⟨j, hc, hfull⟩
    · exact hd ⟨hp, hc⟩
    · have hj := hr.lt j _ hc
      have haccount := hbal.full
      simp only [State.tokens, hp, hc, hfull, Producer.index, Consumer.index, Consumer.holds,
        Bool.toNat_false] at haccount
      omega
  · have hi := hw.lt i _ hp
    rcases consumer_blocked (hblock .consumer) with hc | ⟨j, hc, hfull⟩
    · have haccount := hbal.free
      simp only [State.tokens, hp, hc, hfree, Producer.index, Producer.holds, Consumer.index,
        Bool.toNat_false] at haccount
      omega
    · have hlive := hbal.live (by decide) (by simp [State.tokens, hp, Producer.holds])
        (by simp [State.tokens, hc, Consumer.holds])
      simp only [State.tokens] at hlive
      omega

theorem Producer.index_le_written (n : Nat) (p : Producer) : p.index n ≤ p.written n := by
  cases p with
  | iter i pc => cases pc <;> simp [index, written]
  | done => exact Nat.le_refl _

theorem Consumer.reads_le (n : Nat) (c : Consumer) : c.reads n ≤ c.index n + c.holds.toNat := by
  cases c with
  | iter i pc => cases pc <;> simp [index, reads, holds]
  | done => exact Nat.le_refl _

/-- What was read is the first part of what was written. -/
theorem received_first {n pid : Nat} {s : State} (h : s.Account n pid) :
    s.received <+: s.wrote := by
  have hle : s.cons.reads n ≤ s.prod.written n := by
    have h1 := s.cons.reads_le n
    have h2 := s.prod.index_le_written n
    have hfull := h.tokens.full
    simp only [State.tokens] at hfull
    omega
  rw [h.reads.received, h.writes.wrote, ← Nat.min_eq_left hle, ← List.take_range]
  exact (List.take_prefix _ _).map _

/-- **Every message is delivered once and in one piece**, for every number of
messages and every interleaving. The pair of iteration `i` is `message pid i`. -/
theorem shared_memory_delivers (n pid : Nat) {s : State} (hr : (system n pid).Reachable s) :
    ¬ (s.prod.holds = true ∧ s.cons.holds = true) ∧
    s.received <+: s.wrote ∧
    s.wrote = (List.range s.wrote.length).map (message pid) ∧
    (∀ i pc, s.cons = .iter i pc → pc ≠ .post → s.received.length = i) ∧
    (¬ Done s → ∃ a t, step n pid a s = some t) ∧
    (Done s → s.received = s.wrote ∧ s.wrote.length = n ∧ s.semW = 1 ∧ s.semR = 0) := by
  have h := reachable_account hr
  have hwrote := h.writes.wrote
  have hreceived := h.reads.received
  refine ⟨h.tokens.exclusive, received_first h, ?_, ?_, progress h, ?_⟩
  · rw [hwrote]
    simp
  · intro i pc hc hne
    rw [hreceived, hc]
    cases pc <;> simp_all [Consumer.reads]
  · rintro ⟨hp, hc⟩
    obtain ⟨hfree, hfull⟩ := h.tokens
    simp only [State.tokens, hp, hc, Producer.index, Producer.holds, Consumer.index,
      Consumer.holds, Bool.toNat_false] at hfree hfull
    rw [hwrote, hreceived, hp, hc]
    exact ⟨rfl, by simp [Producer.written], by omega, by omega⟩

/-- Two messages over a segment that still holds the bytes of an earlier run. -/
theorem stale_delivers :
    ∃ s, (system 2 41).Reachable s ∧ Done s ∧ s.received = s.wrote ∧ s.wrote.length = 2 := by
  have h0 : (system 2 41).Reachable (State.initial 2 ⟨List.replicate bufSize 7, 3⟩) :=
    .init ⟨_, by simp, rfl⟩
  have hr := h0.run (List.replicate 5 .producer ++ List.replicate 4 .consumer ++
    List.replicate 5 .producer ++ List.replicate 4 .consumer) rfl
  have hend := (shared_memory_delivers 2 41 hr).2.2.2.2.2 ⟨rfl, rfl⟩
  exact ⟨_, hr, ⟨rfl, rfl⟩, hend.1, hend.2.1⟩

end LearnLinux.SharedMemory
