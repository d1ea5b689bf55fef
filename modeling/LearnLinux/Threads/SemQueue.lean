import LearnLinux.Lib.Handshake
import LearnLinux.Lib.RingBuffer
import LearnLinux.Threads.Sentinel

/-!
# The semaphore queue of `02_threads/thread_demo.c`

One `producer_sem` and one `consumer_sem` share a `QueueSem_t` without a mutex. Each
step below is one access to shared memory or one semaphore call, and the two threads
interleave at every step; `q->count++` and `q->count--` are a load and a separate
store. `sem_wait` takes a token or does not return.

* `tokens_simulation`: seen through its semaphores the queue is the handshake of
  `Lib/Handshake` with 5 tokens.
* `step_ring`: seen through its slots it is the ring of `Lib/RingBuffer`.
* `sem_queue_correct`: the two together.
-/

namespace LearnLinux.SemQueue

open CondQueue (queueSize)
open CondQueue.Sentinel (sentinel)
open Handshake RingBuffer Transition

/-! ## Data -/

/-- `QueueSem_t`. -/
structure QueueSem where
  data : Nat → Int
  head : Nat
  tail : Nat
  count : Int
  semNotFull : Nat
  semNotEmpty : Nat

/-- The value of `sem_not_full` that `demo_sem_prod_consumer` sets. -/
def notFullInit : Nat := 5

/-- Inside `raw_queue_push`: before `sem_wait`, the store to `data[tail]`, the update
of `tail`, the load and the store of `count`, and `sem_post`. -/
inductive PushPc where
  | wait
  | store
  | tail
  | countLoad
  | countStore (reg : Int)
  | post
  deriving DecidableEq, Repr

/-- Inside `raw_queue_pop`, with `val` once it is loaded. -/
inductive PopPc where
  | wait
  | load
  | head (val : Int)
  | countLoad (val : Int)
  | countStore (val reg : Int)
  | post (val : Int)
  deriving DecidableEq, Repr

/-- `producer_sem`: before the `printf` of iteration `i`, inside its push, or returned.
The push of `SENTINEL` is iteration `count`. -/
inductive Producer where
  | printing (i : Nat)
  | pushing (i : Nat) (pc : PushPc)
  | done
  deriving DecidableEq, Repr

/-- `consumer_sem`: inside its pop, before its `printf`, or returned. -/
inductive Consumer where
  | popping (pc : PopPc)
  | printing (val : Int)
  | done
  deriving DecidableEq, Repr

inductive Line where
  | pushing (i : Nat)
  | get (val : Int)
  deriving DecidableEq, Repr

/-- The queue, the two threads and the output. The last three fields only record:
which slots hold a value that was not loaded yet, the values stored, and the values
`raw_queue_pop` returned. -/
structure State where
  q : QueueSem
  prod : Producer
  cons : Consumer
  out : List Line
  unread : Nat → Bool
  stored : List Int
  popped : List Int

/-! ## Steps -/

/-- The value pushed in iteration `i`. -/
def item (n i : Nat) : Int := if i < n then i else sentinel

/-- The loop test of `producer_sem`. -/
def producerTest (n i : Nat) : Producer := if i < n then .printing i else .pushing i .wait

/-- Where `producer_sem` goes after the push of iteration `i`. -/
def afterPush (n i : Nat) : Producer := if i < n then producerTest n (i + 1) else .done

def producerStep (n : Nat) (s : State) : Option State :=
  match s.prod with
  | .printing i => some { s with out := s.out ++ [.pushing i], prod := .pushing i .wait }
  | .pushing i .wait =>
    (semWait s.q.semNotFull).map fun k =>
      { s with q := { s.q with semNotFull := k }, prod := .pushing i .store }
  | .pushing i .store =>
    some { s with
      q := { s.q with data := Function.update s.q.data s.q.tail (item n i) }
      prod := .pushing i .tail
      unread := Function.update s.unread s.q.tail true
      stored := s.stored ++ [item n i] }
  | .pushing i .tail =>
    some { s with
      q := { s.q with tail := (s.q.tail + 1) % queueSize }, prod := .pushing i .countLoad }
  | .pushing i .countLoad => some { s with prod := .pushing i (.countStore s.q.count) }
  | .pushing i (.countStore reg) =>
    some { s with q := { s.q with count := reg + 1 }, prod := .pushing i .post }
  | .pushing i .post =>
    some { s with q := { s.q with semNotEmpty := s.q.semNotEmpty + 1 }, prod := afterPush n i }
  | .done => none

def consumerStep (s : State) : Option State :=
  match s.cons with
  | .popping .wait =>
    (semWait s.q.semNotEmpty).map fun k =>
      { s with q := { s.q with semNotEmpty := k }, cons := .popping .load }
  | .popping .load =>
    some { s with
      cons := .popping (.head (s.q.data s.q.head))
      unread := Function.update s.unread s.q.head false }
  | .popping (.head val) =>
    some { s with
      q := { s.q with head := (s.q.head + 1) % queueSize }, cons := .popping (.countLoad val) }
  | .popping (.countLoad val) => some { s with cons := .popping (.countStore val s.q.count) }
  | .popping (.countStore val reg) =>
    some { s with q := { s.q with count := reg - 1 }, cons := .popping (.post val) }
  | .popping (.post val) =>
    some { s with
      q := { s.q with semNotFull := s.q.semNotFull + 1 }
      cons := .printing val
      popped := s.popped ++ [val] }
  | .printing val =>
    some { s with
      out := s.out ++ [.get val]
      cons := if val = sentinel then .done else .popping .wait }
  | .done => none

inductive Act where
  | producer
  | consumer

def step (n : Nat) : Act → State → Option State
  | .producer => producerStep n
  | .consumer => consumerStep

/-- Both indices at `h`, arbitrary slots and an arbitrary `count`. -/
def State.initial (n : Nat) (data : Nat → Int) (h : Nat) (count : Int) : State where
  q := ⟨data, h, h, count, notFullInit, 0⟩
  prod := producerTest n 0
  cons := .popping .wait
  out := []
  unread _ := false
  stored := []
  popped := []

def system (n : Nat) : System Act State :=
  .ofStep (fun s => ∃ data h count, h < queueSize ∧ s = State.initial n data h count) (step n)

/-! ## What a step can do -/

/-- The moves of the producer, one for each place it can be at. -/
inductive ProducerMove (n : Nat) (s : State) : State → Prop
  | print {i : Nat} : s.prod = .printing i →
      ProducerMove n s { s with out := s.out ++ [.pushing i], prod := .pushing i .wait }
  | wait {i k : Nat} : s.prod = .pushing i .wait → semWait s.q.semNotFull = some k →
      ProducerMove n s { s with q := { s.q with semNotFull := k }, prod := .pushing i .store }
  | store {i : Nat} : s.prod = .pushing i .store →
      ProducerMove n s
        { s with
          q := { s.q with data := Function.update s.q.data s.q.tail (item n i) }
          prod := .pushing i .tail
          unread := Function.update s.unread s.q.tail true
          stored := s.stored ++ [item n i] }
  | tail {i : Nat} : s.prod = .pushing i .tail →
      ProducerMove n s
        { s with
          q := { s.q with tail := (s.q.tail + 1) % queueSize }, prod := .pushing i .countLoad }
  | countLoad {i : Nat} : s.prod = .pushing i .countLoad →
      ProducerMove n s { s with prod := .pushing i (.countStore s.q.count) }
  | countStore {i : Nat} {reg : Int} : s.prod = .pushing i (.countStore reg) →
      ProducerMove n s { s with q := { s.q with count := reg + 1 }, prod := .pushing i .post }
  | post {i : Nat} : s.prod = .pushing i .post →
      ProducerMove n s
        { s with q := { s.q with semNotEmpty := s.q.semNotEmpty + 1 }, prod := afterPush n i }

/-- The moves of the consumer; it returns after printing the sentinel. -/
inductive ConsumerMove (s : State) : State → Prop
  | wait {k : Nat} : s.cons = .popping .wait → semWait s.q.semNotEmpty = some k →
      ConsumerMove s { s with q := { s.q with semNotEmpty := k }, cons := .popping .load }
  | load : s.cons = .popping .load →
      ConsumerMove s
        { s with
          cons := .popping (.head (s.q.data s.q.head))
          unread := Function.update s.unread s.q.head false }
  | head {val : Int} : s.cons = .popping (.head val) →
      ConsumerMove s
        { s with
          q := { s.q with head := (s.q.head + 1) % queueSize }, cons := .popping (.countLoad val) }
  | countLoad {val : Int} : s.cons = .popping (.countLoad val) →
      ConsumerMove s { s with cons := .popping (.countStore val s.q.count) }
  | countStore {val reg : Int} : s.cons = .popping (.countStore val reg) →
      ConsumerMove s { s with q := { s.q with count := reg - 1 }, cons := .popping (.post val) }
  | post {val : Int} : s.cons = .popping (.post val) →
      ConsumerMove s
        { s with
          q := { s.q with semNotFull := s.q.semNotFull + 1 }
          cons := .printing val
          popped := s.popped ++ [val] }
  | print {val : Int} : s.cons = .printing val → val ≠ sentinel →
      ConsumerMove s { s with out := s.out ++ [.get val], cons := .popping .wait }
  | last {val : Int} : s.cons = .printing val → val = sentinel →
      ConsumerMove s { s with out := s.out ++ [.get val], cons := .done }

theorem producerStep_inv {n : Nat} {s t : State} (hs : producerStep n s = some t) :
    ProducerMove n s t := by
  unfold producerStep at hs
  split at hs
  next i hp =>
    obtain rfl := Option.some.inj hs
    exact .print hp
  next i hp =>
    obtain ⟨k, hk, rfl⟩ := Option.map_eq_some_iff.mp hs
    exact .wait hp hk
  next i hp =>
    obtain rfl := Option.some.inj hs
    exact .store hp
  next i hp =>
    obtain rfl := Option.some.inj hs
    exact .tail hp
  next i hp =>
    obtain rfl := Option.some.inj hs
    exact .countLoad hp
  next i reg hp =>
    obtain rfl := Option.some.inj hs
    exact .countStore hp
  next i hp =>
    obtain rfl := Option.some.inj hs
    exact .post hp
  next hp => cases hs

theorem consumerStep_inv {s t : State} (hs : consumerStep s = some t) : ConsumerMove s t := by
  unfold consumerStep at hs
  split at hs
  next hc =>
    obtain ⟨k, hk, rfl⟩ := Option.map_eq_some_iff.mp hs
    exact .wait hc hk
  next hc =>
    obtain rfl := Option.some.inj hs
    exact .load hc
  next val hc =>
    obtain rfl := Option.some.inj hs
    exact .head hc
  next val hc =>
    obtain rfl := Option.some.inj hs
    exact .countLoad hc
  next val reg hc =>
    obtain rfl := Option.some.inj hs
    exact .countStore hc
  next val hc =>
    obtain rfl := Option.some.inj hs
    exact .post hc
  next val hc =>
    obtain rfl := Option.some.inj hs
    by_cases hv : val = sentinel
    · rw [if_pos hv]
      exact .last hc hv
    · rw [if_neg hv]
      exact .print hc hv
  next hc => cases hs

/-! ## Where the threads are -/

/-- The pushes completed. -/
def Producer.index (n : Nat) : Producer → Nat
  | .printing i => i
  | .pushing i _ => i
  | .done => n + 1

/-- The producer has taken a token and not passed one on. -/
def Producer.holds : Producer → Bool
  | .pushing _ .wait => false
  | .pushing _ _ => true
  | _ => false

/-- The value of the current push is already stored. -/
def Producer.hasStored : Producer → Bool
  | .pushing _ .wait => false
  | .pushing _ .store => false
  | .pushing _ _ => true
  | _ => false

/-- The slot the next store goes to, seen past a pending update of `tail`. -/
def Producer.back (tail : Nat) : Producer → Nat
  | .pushing _ .tail => (tail + 1) % queueSize
  | _ => tail

def Consumer.holds : Consumer → Bool
  | .popping .wait => false
  | .popping _ => true
  | _ => false

/-- The value loaded and not yet returned. -/
def Consumer.inFlight : Consumer → List Int
  | .popping (.head val) => [val]
  | .popping (.countLoad val) => [val]
  | .popping (.countStore val _) => [val]
  | .popping (.post val) => [val]
  | _ => []

/-- The slot of the next load, seen past a pending update of `head`. -/
def Consumer.front (head : Nat) : Consumer → Nat
  | .popping (.head _) => (head + 1) % queueSize
  | _ => head

theorem Producer.hasStored_le (p : Producer) : p.hasStored.toNat ≤ p.holds.toNat := by
  cases p with
  | printing i => exact Nat.le_refl _
  | pushing i pc => cases pc <;> simp [hasStored, holds]
  | done => exact Nat.le_refl _

/-- The producer has stored the first items, up to the one it is at. -/
def Producer.Wrote (n : Nat) (stored : List Int) (p : Producer) : Prop :=
  stored = (List.range (p.index n + p.hasStored.toNat)).map (item n) ∧
    match p with
    | .printing i => i < n
    | .pushing i _ => i ≤ n
    | .done => True

/-- The consumer goes on until it has popped a sentinel. -/
def Consumer.Received (popped : List Int) : Consumer → Prop
  | .popping _ => ∀ val ∈ popped, val ≠ sentinel
  | .printing val => ∃ pre, popped = pre ++ [val] ∧ ∀ val ∈ pre, val ≠ sentinel
  | .done => ∃ pre, popped = pre ++ [sentinel] ∧ ∀ val ∈ pre, val ≠ sentinel

theorem producerTest_wrote {n i : Nat} {stored : List Int} (hi : i ≤ n)
    (h : stored = (List.range i).map (item n)) : (producerTest n i).Wrote n stored := by
  unfold producerTest
  split
  · rename_i hlt
    exact ⟨h, hlt⟩
  · exact ⟨h, hi⟩

theorem afterPush_wrote {n i : Nat} {stored : List Int} (hi : i ≤ n)
    (h : stored = (List.range (i + 1)).map (item n)) : (afterPush n i).Wrote n stored := by
  unfold afterPush
  split
  · rename_i hlt
    exact producerTest_wrote hlt h
  · have hin : i = n := by omega
    subst hin
    exact ⟨h, trivial⟩

theorem producerStep_wrote {n : Nat} {s t : State} (hs : producerStep n s = some t)
    (h : s.prod.Wrote n s.stored) :
    t.prod.Wrote n t.stored ∧ t.cons = s.cons ∧ t.popped = s.popped := by
  cases producerStep_inv hs with
  | print hp =>
    rw [hp] at h
    exact ⟨⟨h.1, Nat.le_of_lt h.2⟩, rfl, rfl⟩
  | store hp =>
    rw [hp] at h
    refine ⟨⟨?_, h.2⟩, rfl, rfl⟩
    have hold : s.stored = (List.range _).map (item n) := h.1
    rw [hold]
    exact (by simp [Producer.index, Producer.hasStored, List.range_succ])
  | post hp =>
    rw [hp] at h
    exact ⟨afterPush_wrote h.2 h.1, rfl, rfl⟩
  | wait hp _ | tail hp | countLoad hp | countStore hp =>
    rw [hp] at h
    exact ⟨h, rfl, rfl⟩

theorem consumerStep_received {s t : State} (hs : consumerStep s = some t)
    (h : s.cons.Received s.popped) :
    t.cons.Received t.popped ∧ t.prod = s.prod ∧ t.stored = s.stored := by
  cases consumerStep_inv hs with
  | post hc =>
    rw [hc] at h
    exact ⟨⟨s.popped, rfl, h⟩, rfl, rfl⟩
  | print hc hv =>
    rw [hc] at h
    obtain ⟨pre, hpop, hpre⟩ := h
    refine ⟨?_, rfl, rfl⟩
    intro v hm
    rw [hpop] at hm
    rcases List.mem_append.mp hm with hm | hm
    · exact hpre v hm
    · rw [List.mem_singleton.mp hm]
      exact hv
  | last hc hv =>
    rw [hc] at h
    obtain ⟨pre, hpop, hpre⟩ := h
    exact ⟨⟨pre, by rw [hpop, hv], hpre⟩, rfl, rfl⟩
  | wait hc _ | load hc | head hc | countLoad hc | countStore hc =>
    rw [hc] at h
    exact ⟨h, rfl, rfl⟩

/-- What each thread has done, in every reachable state. -/
theorem reachable_threads {n : Nat} {s : State} (hr : (system n).Reachable s) :
    s.prod.Wrote n s.stored ∧ s.cons.Received s.popped := by
  induction hr with
  | init hi =>
    obtain ⟨data, h, count, -, rfl⟩ := hi
    exact ⟨producerTest_wrote (Nat.zero_le n) rfl, by simp [State.initial, Consumer.Received]⟩
  | @next a s t _ hs ih =>
    obtain ⟨hp, hc⟩ := ih
    cases a with
    | producer =>
      obtain ⟨hw, hcons, hpop⟩ := producerStep_wrote hs hp
      exact ⟨hw, by rw [hcons, hpop]; exact hc⟩
    | consumer =>
      obtain ⟨hw, hprod, hst⟩ := consumerStep_received hs hc
      exact ⟨by rw [hprod, hst]; exact hp, hw⟩

/-! ## Tokens -/

/-- The queue seen through its semaphores. -/
def State.tokens (n : Nat) (s : State) : Tokens where
  free := s.q.semNotFull
  full := s.q.semNotEmpty
  puts := s.prod.index n
  gets := s.popped.length
  putting := s.prod.holds
  getting := s.cons.holds

theorem producerTest_counts (n i : Nat) :
    (producerTest n i).index n = i ∧ (producerTest n i).holds = false := by
  unfold producerTest
  split <;> exact ⟨rfl, rfl⟩

theorem afterPush_counts {n i : Nat} (hi : i ≤ n) :
    (afterPush n i).index n = i + 1 ∧ (afterPush n i).holds = false := by
  unfold afterPush
  split
  · exact producerTest_counts n (i + 1)
  · have hin : i = n := by omega
    exact ⟨by rw [hin]; rfl, rfl⟩

theorem producerStep_tokens {n : Nat} {s t : State} (hs : producerStep n s = some t)
    (h : s.prod.Wrote n s.stored) :
    (∃ b, Handshake.Step b (s.tokens n) (t.tokens n)) ∨ t.tokens n = s.tokens n := by
  cases producerStep_inv hs with
  | wait hp hk =>
    have hb := Step.beginPut (t := s.tokens n) (semWait_eq_some hk)
      (by simp [State.tokens, hp, Producer.holds])
    exact Or.inl ⟨_, by simpa [State.tokens, hp, Producer.index, Producer.holds] using hb⟩
  | post hp =>
    rw [hp] at h
    have hb := Step.endPut (t := s.tokens n) (by simp [State.tokens, hp, Producer.holds])
    obtain ⟨hidx, hholds⟩ := afterPush_counts h.2
    refine Or.inl ⟨.endPut, ?_⟩
    simp only [State.tokens, hidx, hholds]
    simpa [State.tokens, hp, Producer.index] using hb
  | print hp | store hp | tail hp | countLoad hp | countStore hp =>
    exact Or.inr (by simp [State.tokens, hp, Producer.index, Producer.holds])

theorem consumerStep_tokens {n : Nat} {s t : State} (hs : consumerStep s = some t) :
    (∃ b, Handshake.Step b (s.tokens n) (t.tokens n)) ∨ t.tokens n = s.tokens n := by
  cases consumerStep_inv hs with
  | wait hc hk =>
    have hb := Step.beginGet (t := s.tokens n) (semWait_eq_some hk)
      (by simp [State.tokens, hc, Consumer.holds])
    exact Or.inl ⟨_, by simpa [State.tokens, hc, Consumer.holds] using hb⟩
  | post hc =>
    have hb := Step.endGet (t := s.tokens n) (by simp [State.tokens, hc, Consumer.holds])
    exact Or.inl ⟨_, by simpa [State.tokens, hc, Consumer.holds] using hb⟩
  | load hc | head hc | countLoad hc | countStore hc | print hc _ | last hc _ =>
    exact Or.inr (by simp [State.tokens, hc, Consumer.holds])

/-- **The semaphores are a handshake** with 5 tokens. -/
theorem tokens_simulation (n : Nat) :
    Simulation (system n) (Handshake.system notFullInit) (State.tokens n) where
  init := by
    rintro s ⟨data, h, count, -, rfl⟩
    obtain ⟨hidx, hholds⟩ := producerTest_counts n 0
    simp only [Handshake.system, State.tokens, State.initial, hidx, hholds]
    rfl
  step := by
    intro a s t hr hs
    cases a with
    | producer => exact producerStep_tokens hs (reachable_threads hr).1
    | consumer => exact consumerStep_tokens hs

theorem reachable_tokens {n : Nat} {s : State} (hr : (system n).Reachable s) :
    Balanced notFullInit (s.tokens n) :=
  reachable_balanced ((tokens_simulation n).reachable hr)

/-! ## Slots -/

/-- The queue seen through its slots, past pending updates of `tail` and `head`. -/
def State.ring (s : State) : Spsc Int where
  data := s.q.data
  unread := s.unread
  front := s.cons.front s.q.head
  back := s.prod.back s.q.tail
  stored := s.stored
  loaded := s.popped ++ s.cons.inFlight

theorem producerTest_back (n i tail : Nat) : (producerTest n i).back tail = tail := by
  unfold producerTest
  split <;> rfl

theorem afterPush_back (n i tail : Nat) : (afterPush n i).back tail = tail := by
  unfold afterPush
  split
  · exact producerTest_back n (i + 1) tail
  · rfl

/-- Only the store of a push changes the ring. -/
theorem producerStep_ring {n : Nat} {s t : State} (hs : producerStep n s = some t) :
    t.ring = s.ring ∨
      ∃ i, s.prod = .pushing i .store ∧ t.ring = s.ring.put queueSize (item n i) := by
  cases producerStep_inv hs with
  | store hp => exact Or.inr ⟨_, hp, by simp [State.ring, hp, Producer.back, Spsc.put]⟩
  | post hp =>
    refine Or.inl ?_
    simp only [State.ring, afterPush_back]
    rw [hp]
    rfl
  | print hp | wait hp _ | tail hp | countLoad hp | countStore hp =>
    exact Or.inl (by simp [State.ring, hp, Producer.back])

/-- Only the load of a pop changes the ring. -/
theorem consumerStep_ring {s t : State} (hs : consumerStep s = some t) :
    t.ring = s.ring ∨ s.cons = .popping .load ∧ t.ring = s.ring.get queueSize := by
  cases consumerStep_inv hs with
  | load hc =>
    exact Or.inr ⟨hc, by simp [State.ring, hc, Consumer.front, Consumer.inFlight, Spsc.get]⟩
  | wait hc _ | head hc | countLoad hc | countStore hc | post hc | print hc _ | last hc _ =>
    exact Or.inl (by simp [State.ring, hc, Consumer.front, Consumer.inFlight])

/-- The number of unread values, counted through the tokens. -/
theorem ring_length {n : Nat} {s : State} (hr : (system n).Reachable s) {len : Nat}
    (h : s.ring.Sound queueSize len) :
    s.popped.length + s.cons.inFlight.length + len = s.prod.index n + s.prod.hasStored.toNat := by
  have hlen := h.length
  have hw := congrArg List.length (reachable_threads hr).1.1
  simp only [State.ring, List.length_append] at hlen
  simp only [List.length_map, List.length_range] at hw
  omega

/-- A producer that is about to store has found a free slot. -/
theorem store_room {n : Nat} {s : State} (hr : (system n).Reachable s) {len i : Nat}
    (h : s.ring.Sound queueSize len) (hp : s.prod = .pushing i .store) : len < notFullInit := by
  have hlen := ring_length hr h
  have hfree := (reachable_tokens hr).free
  simp only [State.tokens, hp, Producer.holds, Bool.toNat_true] at hfree
  simp only [hp, Producer.hasStored, Bool.toNat_false] at hlen
  omega

/-- A consumer that is about to load has an unread value. -/
theorem load_unread {n : Nat} {s : State} (hr : (system n).Reachable s) {len : Nat}
    (h : s.ring.Sound queueSize len) (hc : s.cons = .popping .load) : 0 < len := by
  have hlen := ring_length hr h
  have hfull := (reachable_tokens hr).full
  simp only [State.tokens, hc, Consumer.holds, Bool.toNat_true] at hfull
  simp only [hc, Consumer.inFlight, List.length_nil] at hlen
  omega

theorem ring_le {n : Nat} {s : State} (hr : (system n).Reachable s) {len : Nat}
    (h : s.ring.Sound queueSize len) : len ≤ notFullInit := by
  have hlen := ring_length hr h
  have hfree := (reachable_tokens hr).free
  have hst := s.prod.hasStored_le
  simp only [State.tokens] at hfree
  omega

/-- **The slots are a ring** of one writer and one reader. -/
theorem reachable_ring {n : Nat} {s : State} (hr : (system n).Reachable s) :
    ∃ len, s.ring.Sound queueSize len := by
  induction hr with
  | init hi =>
    obtain ⟨data, h, count, hh, rfl⟩ := hi
    refine ⟨0, hh, ?_, rfl, by simp [State.ring, State.initial]⟩
    simp only [State.ring, State.initial, producerTest_back]
    exact (Nat.mod_eq_of_lt hh).symm
  | @next a s t hr hs ih =>
    obtain ⟨len, h⟩ := ih
    cases a with
    | producer =>
      rcases producerStep_ring hs with he | ⟨i, hp, he⟩
      · exact ⟨len, by rwa [he]⟩
      · have hlt := Nat.lt_trans (store_room hr h hp) (show notFullInit < queueSize by decide)
        exact ⟨len + 1, by rw [he]; exact h.put hlt _⟩
    | consumer =>
      rcases consumerStep_ring hs with he | ⟨hc, he⟩
      · exact ⟨len, by rwa [he]⟩
      · have hpos := load_unread hr h hc
        have hle := Nat.le_trans (ring_le hr h) (show notFullInit ≤ queueSize by decide)
        obtain ⟨m, rfl⟩ := Nat.exists_eq_add_of_lt hpos
        rw [Nat.zero_add] at h hle
        exact ⟨m, by rw [he]; exact h.get hle⟩

/-! ## The queue as a whole -/

/-- `0, 1, …, n - 1, SENTINEL`. -/
def script (n : Nat) : List Int := (List.range n).map (fun i : Nat => (i : Int)) ++ [sentinel]

theorem script_eq (n : Nat) : (List.range (n + 1)).map (item n) = script n := by
  rw [script, List.range_succ, List.map_append]
  congr 1
  · apply List.map_congr_left
    intro i hi
    rw [item, if_pos (List.mem_range.mp hi)]
  · simp [item]

/-- Both threads have returned. -/
def Done (s : State) : Prop := s.prod = .done ∧ s.cons = .done

theorem index_le {n : Nat} {s : State} (hr : (system n).Reachable s) :
    s.prod.index n + s.prod.hasStored.toNat ≤ n + 1 := by
  obtain ⟨-, h⟩ := (reachable_threads hr).1
  have hst := Bool.toNat_le s.prod.hasStored
  cases hp : s.prod with
  | printing i =>
    rw [hp] at h hst
    simp only [Producer.index] at *
    omega
  | pushing i pc =>
    rw [hp] at h hst
    simp only [Producer.index] at *
    omega
  | done => exact Nat.le_refl _

theorem popped_script {n : Nat} {s : State} (hr : (system n).Reachable s) :
    s.popped <+: script n := by
  obtain ⟨len, h⟩ := reachable_ring hr
  have hlaw := h.law
  simp only [State.ring, (reachable_threads hr).1.1] at hlaw
  have hpre : s.popped <+: (List.range (s.prod.index n + s.prod.hasStored.toNat)).map (item n) := by
    rw [← hlaw, List.append_assoc]
    exact List.prefix_append _ _
  have hall : (List.range (s.prod.index n + s.prod.hasStored.toNat)).map (item n) <+:
      (List.range (n + 1)).map (item n) := by
    rw [← Nat.min_eq_left (index_le hr), ← List.take_range]
    exact (List.take_prefix _ _).map _
  rw [← script_eq]
  exact hpre.trans hall

theorem items_ne_sentinel {n : Nat} :
    ∀ val ∈ (List.range n).map (fun i : Nat => (i : Int)), val ≠ sentinel := by
  intro val hm
  obtain ⟨i, -, rfl⟩ := List.mem_map.mp hm
  simp only [sentinel]
  omega

/-- The consumer stops exactly at the end of the script. -/
theorem popped_length {n : Nat} {s : State} (hr : (system n).Reachable s) :
    (∀ pc, s.cons = .popping pc → s.popped.length ≤ n) ∧ (s.cons = .done → s.popped = script n) := by
  have hrec := (reachable_threads hr).2
  have hcut := List.prefix_concat_iff.mp (popped_script hr)
  constructor
  · intro pc hc
    rw [hc] at hrec
    rcases hcut with he | hpre
    · exact absurd rfl (hrec sentinel (by rw [he]; simp))
    · simpa using hpre.length_le
  · intro hc
    rw [hc] at hrec
    obtain ⟨pre, hpop, -⟩ := hrec
    rcases hcut with he | hpre
    · exact he
    · have hm : sentinel ∈ s.popped := by rw [hpop]; simp
      exact absurd rfl (items_ne_sentinel sentinel (hpre.subset hm))

theorem producer_blocked {n : Nat} {s : State} (h : producerStep n s = none) :
    s.prod = .done ∨ ∃ i, s.prod = .pushing i .wait ∧ s.q.semNotFull = 0 := by
  unfold producerStep at h
  split at h
  case h_2 i hp => exact Or.inr ⟨i, hp, semWait_map_eq_none h⟩
  case h_8 hp => exact Or.inl hp
  all_goals cases h

theorem consumer_blocked {s : State} (h : consumerStep s = none) :
    s.cons = .done ∨ s.cons = .popping .wait ∧ s.q.semNotEmpty = 0 := by
  unfold consumerStep at h
  split at h
  case h_1 hc => exact Or.inr ⟨hc, semWait_map_eq_none h⟩
  case h_8 hc => exact Or.inl hc
  all_goals cases h

/-- Before both threads are done, one of them can move. -/
theorem progress {n : Nat} {s : State} (hr : (system n).Reachable s) (hd : ¬ Done s) :
    ∃ a t, step n a s = some t := by
  by_contra hno
  have hblock := step_eq_none hno
  have hbal := reachable_tokens hr
  have hidx := index_le hr
  rcases producer_blocked (hblock .producer) with hp | ⟨i, hp, hfree⟩
  · rcases consumer_blocked (hblock .consumer) with hc | ⟨hc, hfull⟩
    · exact hd ⟨hp, hc⟩
    -- the consumer still misses an item, but everything has been pushed
    · have hlen := (popped_length hr).1 _ hc
      have haccount := hbal.full
      simp only [State.tokens, hp, hc, hfull, Producer.index, Consumer.holds,
        Bool.toNat_false] at haccount
      omega
  · rcases consumer_blocked (hblock .consumer) with hc | ⟨hc, hfull⟩
    -- the producer still has an item, but the consumer has got them all
    · have hlen := congrArg List.length ((popped_length hr).2 hc)
      have haccount := hbal.free
      simp only [State.tokens, hp, hfree, Producer.index, Producer.holds,
        Bool.toNat_false] at haccount
      simp only [hp, Producer.index, Producer.hasStored, Bool.toNat_false] at hidx
      simp only [script, List.length_append, List.length_map, List.length_range,
        List.length_singleton] at hlen
      have hpos : 0 < notFullInit := by decide
      omega
    · have hlive := hbal.live (by decide) (by simp [State.tokens, hp, Producer.holds])
        (by simp [State.tokens, hc, Consumer.holds])
      simp only [State.tokens] at hlive
      omega

/-- When both threads are done, all tokens are back. -/
theorem done_tokens {n : Nat} {s : State} (hr : (system n).Reachable s) (hd : Done s) :
    s.q.semNotFull = notFullInit ∧ s.q.semNotEmpty = 0 := by
  obtain ⟨hp, hc⟩ := hd
  obtain ⟨hfree, hfull⟩ := reachable_tokens hr
  simp only [State.tokens, hp, hc, Producer.index, Producer.holds, Consumer.holds,
    Bool.toNat_false] at hfree hfull
  have hlen := congrArg List.length ((popped_length hr).2 hc)
  simp only [script, List.length_append, List.length_map, List.length_range,
    List.length_singleton] at hlen
  omega

/-- **The semaphore queue is correct** for one producer and one consumer, for every
interleaving of their memory accesses. -/
theorem sem_queue_correct (n : Nat) {s : State} (hr : (system n).Reachable s) :
    (∀ i, s.prod = .pushing i .store → s.unread s.q.tail = false) ∧
    (∀ i, s.prod = .pushing i .store → s.cons = .popping .load → s.q.tail ≠ s.q.head) ∧
    s.stored.length ≤ s.popped.length + notFullInit ∧
    s.popped <+: script n ∧
    (¬ Done s → ∃ a t, step n a s = some t) ∧
    (Done s → s.popped = script n ∧ s.q.semNotFull = notFullInit ∧ s.q.semNotEmpty = 0) := by
  obtain ⟨len, h⟩ := reachable_ring hr
  have hback : ∀ i, s.prod = .pushing i .store → s.unread s.q.tail = false := by
    intro i hp
    have hlt := Nat.lt_trans (store_room hr h hp) (show notFullInit < queueSize by decide)
    have hb := h.back_read hlt
    simpa only [State.ring, hp, Producer.back] using hb
  refine ⟨hback, ?_, ?_, popped_script hr, progress hr, ?_⟩
  · intro i hp hc he
    have hf := h.front_unread (load_unread hr h hc)
    simp only [State.ring, hc, Consumer.front] at hf
    rw [← he, hback i hp] at hf
    cases hf
  · have hw := congrArg List.length (reachable_threads hr).1.1
    have hfree := (reachable_tokens hr).free
    have hst := s.prod.hasStored_le
    simp only [List.length_map, List.length_range] at hw
    simp only [State.tokens] at hfree
    omega
  · intro hd
    exact ⟨(popped_length hr).2 hd.2, done_tokens hr hd⟩

/-- One item and the sentinel, across the end of the array. -/
theorem wrapped_correct :
    ∃ s, (system 1).Reachable s ∧ Done s ∧ s.popped = [0, sentinel] ∧ s.q.head = 1 := by
  have h0 : (system 1).Reachable (State.initial 1 (fun _ => 0) 7 0) :=
    .init ⟨_, 7, 0, by decide, rfl⟩
  have hr := h0.run (List.replicate 13 .producer ++ List.replicate 14 .consumer) rfl
  exact ⟨_, hr, ⟨rfl, rfl⟩, ((sem_queue_correct 1 hr).2.2.2.2.2 ⟨rfl, rfl⟩).1, rfl⟩

end LearnLinux.SemQueue
