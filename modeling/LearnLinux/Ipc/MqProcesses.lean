import LearnLinux.Ipc.Mqueue
import LearnLinux.Lib.CString
import LearnLinux.Lib.Transition

/-!
# The producer and the consumer of `03_ipc/mq_demo.c`

`demo_multiprocess_mq` unlinks the name and forks. The child and the parent both open the name
with `O_CREAT`, the child receives `N` messages and the parent sends `N`, all of one priority;
then the parent waits for the child and unlinks the name again. Either open may fail.

`mq_delivers_in_order`: in every interleaving, whoever opens first, the child prints the messages
once and in order, and the ways in which the two can come to a stop are those of `Ended`.
-/

namespace LearnLinux.MqProcesses

open CString Mqueue PriorityQueue Segment Transition

/-! ## The two processes -/

/-- The child: about to open, in round `i` of its loop, about to close, and gone. -/
inductive Consumer where
  | opening
  | receiving (mq i : Nat)
  | closing (mq : Nat)
  | exited (status : Nat)
  deriving DecidableEq, Repr

/-- The parent; `exited` is its `exit(1)` when it cannot open the queue. -/
inductive Producer where
  | opening
  | sending (mq i : Nat)
  | closing (mq : Nat)
  | waiting
  | unlinking
  | returned
  | exited
  deriving DecidableEq, Repr

/-- `buf` is the child's buffer and `printed` what its lines show. -/
structure State where
  kernel : Kernel
  consumer : Consumer
  producer : Producer
  buf : List UInt8
  printed : List (List UInt8)
  deriving DecidableEq, Repr

def messageText (pid i : Nat) : List UInt8 :=
  bytes "Message " ++ bytes (toString i) ++ bytes " from PID " ++ bytes (toString pid)

/-- What round `i` sends: `strlen(buf) + 1` bytes of a buffer that held `stack i` before. -/
def message (pid : Nat) (stack : Nat → List UInt8) (i : Nat) : List UInt8 :=
  cString (snprintf (stack i) maxSize (messageText pid i)) ++ [0]

/-- Who moves next; an open may fail. -/
inductive Act where
  | consumer
  | consumerOpenFails
  | producer
  | producerOpenFails
  deriving DecidableEq, Repr

/-- One step of the child, with `N` for `N_MSGS`. -/
def consumerStep (N : Nat) (s : State) : Option State :=
  match s.consumer with
  | .opening =>
    let (mq, k) := s.kernel.mqOpen
    some { s with kernel := k, consumer := .receiving mq 0 }
  | .receiving mq i =>
    if i < N then
      match s.kernel.mqs[mq]? with
      | none => none
      | some q =>
        match q.receive maxSize with
        | .returns (m, q') =>
          let buf := blit s.buf 0 m.2
          -- a line only for `n > 0`
          let printed := if 0 < m.2.length then s.printed ++ [cString buf] else s.printed
          some { s with
            kernel := s.kernel.put mq q', consumer := .receiving mq (i + 1), buf, printed }
        | .fails => some { s with consumer := .receiving mq (i + 1) }
        | .waits => none
    else some { s with consumer := .closing mq }
  | .closing _ => some { s with consumer := .exited 0 }
  | .exited _ => none

/-- One step of the parent. -/
def producerStep (N pid : Nat) (stack : Nat → List UInt8) (s : State) : Option State :=
  match s.producer with
  | .opening =>
    let (mq, k) := s.kernel.mqOpen
    some { s with kernel := k, producer := .sending mq 0 }
  | .sending mq i =>
    if i < N then
      match s.kernel.mqs[mq]? with
      | none => none
      | some q =>
        match q.send (5, message pid stack i) with
        | .returns q' => some { s with kernel := s.kernel.put mq q', producer := .sending mq (i + 1) }
        | .fails => some { s with producer := .sending mq (i + 1) }
        | .waits => none
    else some { s with producer := .closing mq }
  | .closing _ => some { s with producer := .waiting }
  | .waiting =>
    match s.consumer with
    | .exited _ => some { s with producer := .unlinking }
    | _ => none
  | .unlinking => some { s with kernel := s.kernel.mqUnlink, producer := .returned }
  | .returned | .exited => none

def step (N pid : Nat) (stack : Nat → List UInt8) : Act → State → Option State
  | .consumer, s => consumerStep N s
  | .consumerOpenFails, s =>
    if s.consumer = .opening then some { s with consumer := .exited 1 } else none
  | .producer, s => producerStep N pid stack s
  | .producerOpenFails, s =>
    if s.producer = .opening then some { s with producer := .exited } else none

/-- `demo_multiprocess_mq` has unlinked the name, whatever it stood for, and forked. -/
def State.initial (k : Kernel) (buf : List UInt8) : State :=
  ⟨k.mqUnlink, .opening, .opening, buf, []⟩

/-! ## The messages -/

/-- The text that a line of the child shows. -/
def shownText (pid i : Nat) : List UInt8 := (messageText pid i).take (maxSize - 1)

theorem messageText_ne_zero (pid i : Nat) : ∀ b ∈ messageText pid i, b ≠ 0 := by
  have hmessage : ∀ b ∈ bytes "Message ", b ≠ 0 := by decide +kernel
  have hfrom : ∀ b ∈ bytes " from PID ", b ≠ 0 := by decide +kernel
  intro b hb
  simp only [messageText, List.mem_append] at hb
  rcases hb with ((hb | hb) | hb) | hb
  · exact hmessage b hb
  · exact bytes_toString_ne_zero i b hb
  · exact hfrom b hb
  · exact bytes_toString_ne_zero pid b hb

theorem message_eq (pid : Nat) (stack : Nat → List UInt8) (i : Nat) :
    message pid stack i = shownText pid i ++ [0] := by
  rw [message, cString_snprintf _ _ _ (messageText_ne_zero pid i)]
  rfl

theorem length_message_le (pid : Nat) (stack : Nat → List UInt8) (i : Nat) :
    (message pid stack i).length ≤ maxSize := by
  rw [message_eq, List.length_append, shownText, List.length_take]
  have : maxSize = 256 := rfl
  simp only [List.length_singleton]
  omega

/-- The buffer shows the message it got, whatever it held before. -/
theorem cString_received (buf : List UInt8) (pid : Nat) (stack : Nat → List UInt8) (i : Nat) :
    cString (blit buf 0 (message pid stack i)) = shownText pid i := by
  have hstored : blit buf 0 (message pid stack i) = snprintf buf maxSize (messageText pid i) := by
    rw [message_eq]
    rfl
  rw [hstored, cString_snprintf _ _ _ (messageText_ne_zero pid i)]
  rfl

/-- The messages from round `r` up to round `n`. -/
def queued (pid : Nat) (stack : Nat → List UInt8) (r n : Nat) : List Msg :=
  (List.range' r (n - r)).map fun i => (5, message pid stack i)

section Queued

variable {pid : Nat} {stack : Nat → List UInt8} {r n : Nat}

theorem length_queued : (queued pid stack r n).length = n - r := by
  rw [queued, List.length_map, List.length_range']

theorem queued_self : queued pid stack r r = [] := by
  rw [queued, Nat.sub_self]
  rfl

theorem queued_cons (h : r < n) :
    queued pid stack r n = (5, message pid stack r) :: queued pid stack (r + 1) n := by
  obtain ⟨k, rfl⟩ := Nat.exists_eq_add_of_lt h
  rw [queued, queued, show r + k + 1 - r = k + 1 by omega,
    show r + k + 1 - (r + 1) = k by omega, List.range'_succ]
  rfl

/-- All messages have one priority, so a new one goes to the end. -/
theorem enqueue_queued (h : r ≤ n) :
    enqueue (queued pid stack r n) (5, message pid stack n) = queued pid stack r (n + 1) := by
  rw [enqueue_of_le]
  · obtain ⟨k, rfl⟩ := Nat.exists_eq_add_of_le h
    rw [queued, queued, show r + k - r = k by omega, show r + k + 1 - r = k + 1 by omega,
      List.range'_concat, List.map_append, Nat.one_mul]
    rfl
  · intro b hb
    obtain ⟨i, -, rfl⟩ := List.mem_map.mp hb
    exact Nat.le_refl _

end Queued

/-! ## The invariant -/

/-- The child has the queue open, or has had it. -/
def Consumer.opened : Consumer → Bool
  | .receiving _ _ | .closing _ => true
  | .exited status => status = 0
  | .opening => false

def Producer.opened : Producer → Bool
  | .sending _ _ | .closing _ | .waiting | .unlinking | .returned => true
  | .opening | .exited => false

/-- How many messages the child has taken out. -/
def Consumer.received (N : Nat) : Consumer → Nat
  | .receiving _ i => i
  | .closing _ => N
  | .exited status => if status = 0 then N else 0
  | .opening => 0

/-- How many messages the parent has put in. -/
def Producer.sent (N : Nat) : Producer → Nat
  | .sending _ i => i
  | .closing _ | .waiting | .unlinking | .returned => N
  | .opening | .exited => 0

def Consumer.mqd : Consumer → Option Nat
  | .receiving mq _ | .closing mq => some mq
  | .opening | .exited _ => none

def Producer.mqd : Producer → Option Nat
  | .sending mq _ | .closing mq => some mq
  | .opening | .waiting | .unlinking | .returned | .exited => none

/-- The queue that the two processes share, by what each of them has done. -/
def State.mq (N pid : Nat) (stack : Nat → List UInt8) (s : State) : Mq :=
  ⟨maxMsgs, maxSize, queued pid stack (s.consumer.received N) (s.producer.sent N)⟩

/-- What the kernel has to hold, when it held `k` before. -/
def State.kernelAt (N pid : Nat) (stack : Nat → List UInt8) (k : Kernel) (s : State) : Kernel :=
  if s.consumer.opened || s.producer.opened then
    ⟨k.mqs ++ [s.mq N pid stack], if s.producer = .returned then none else some k.mqs.length⟩
  else ⟨k.mqs, none⟩

structure State.Sound (N pid : Nat) (stack : Nat → List UInt8) (k : Kernel) (s : State) :
    Prop where
  kernel : s.kernel = s.kernelAt N pid stack k
  consumer_mq : ∀ mq, s.consumer.mqd = some mq → mq = k.mqs.length
  producer_mq : ∀ mq, s.producer.mqd = some mq → mq = k.mqs.length
  received_le : s.consumer.received N ≤ s.producer.sent N
  sent_le : s.producer.sent N ≤ N
  room : s.producer.sent N ≤ s.consumer.received N + maxMsgs
  ended : s.producer = .unlinking ∨ s.producer = .returned → ∃ status, s.consumer = .exited status
  printed : s.printed = (List.range (s.consumer.received N)).map (shownText pid)

section Steps

variable {N pid : Nat} {stack : Nat → List UInt8} {k : Kernel} {s : State}

theorem initial_sound (k : Kernel) (buf : List UInt8) :
    (State.initial k buf).Sound N pid stack k where
  kernel := rfl
  consumer_mq _ h := by cases h
  producer_mq _ h := by cases h
  received_le := Nat.le_refl _
  sent_le := Nat.zero_le _
  room := Nat.zero_le _
  ended h := by rcases h with h | h <;> cases h
  printed := rfl

theorem Consumer.received_of_not_opened {c : Consumer} (h : c.opened = false) :
    c.received N = 0 := by
  cases c with
  | opening => rfl
  | exited status =>
    simp only [Consumer.opened, decide_eq_false_iff_not] at h
    exact if_neg h
  | receiving _ _ | closing _ => cases h

theorem Producer.sent_of_not_opened {p : Producer} (h : p.opened = false) : p.sent N = 0 := by
  cases p with
  | opening | exited => rfl
  | sending _ _ | closing _ | waiting | unlinking | returned => cases h

/-- **Whoever opens second gets the queue of the first.** -/
theorem State.Sound.mqOpen (h : s.Sound N pid stack k) (hr : s.producer ≠ .returned) :
    s.kernel.mqOpen = (k.mqs.length, ⟨k.mqs ++ [s.mq N pid stack], some k.mqs.length⟩) := by
  rw [h.kernel, State.kernelAt]
  cases ho : s.consumer.opened || s.producer.opened with
  | true =>
    rw [if_pos rfl, if_neg hr]
    rfl
  | false =>
    obtain ⟨hc, hp⟩ := Bool.or_eq_false_iff.mp ho
    rw [if_neg Bool.false_ne_true, State.mq, Consumer.received_of_not_opened hc,
      Producer.sent_of_not_opened hp, queued_self]
    rfl

theorem State.Sound.lookup (h : s.Sound N pid stack k)
    (ho : (s.consumer.opened || s.producer.opened) = true) :
    s.kernel.mqs[k.mqs.length]? = some (s.mq N pid stack) := by
  rw [h.kernel, State.kernelAt, if_pos ho]
  simp

/-- What the other process reads and writes is not touched by a step to `c`. -/
theorem State.Sound.put (h : s.Sound N pid stack k)
    (ho : (s.consumer.opened || s.producer.opened) = true) (q : Mq) :
    s.kernel.put k.mqs.length q =
      ⟨k.mqs ++ [q], if s.producer = .returned then none else some k.mqs.length⟩ := by
  rw [h.kernel, State.kernelAt, if_pos ho, Kernel.put]
  simp

/-- The child receives the message of its round, or waits for it. -/
theorem State.Sound.receive (h : s.Sound N pid stack k) {mq i : Nat}
    (hc : s.consumer = .receiving mq i) :
    (s.mq N pid stack).receive maxSize =
      if i < s.producer.sent N then
        .returns ((5, message pid stack i),
          ⟨maxMsgs, maxSize, queued pid stack (i + 1) (s.producer.sent N)⟩)
      else .waits := by
  have hle : i ≤ s.producer.sent N := by simpa [hc, Consumer.received] using h.received_le
  simp only [Mq.receive, State.mq, hc, Consumer.received, if_neg (Nat.lt_irrefl maxSize)]
  by_cases hi : i < s.producer.sent N
  · rw [queued_cons hi, if_pos hi]
  · rw [if_neg hi, show i = s.producer.sent N by omega, queued_self]

/-- The parent sends the message of its round, or waits for room. -/
theorem State.Sound.send (h : s.Sound N pid stack k) {mq i : Nat}
    (hp : s.producer = .sending mq i) :
    (s.mq N pid stack).send (5, message pid stack i) =
      if i < s.consumer.received N + maxMsgs then
        .returns ⟨maxMsgs, maxSize, queued pid stack (s.consumer.received N) (i + 1)⟩
      else .waits := by
  have hle : s.consumer.received N ≤ i := by simpa [hp, Producer.sent] using h.received_le
  have hfits : ¬ maxSize < (message pid stack i).length :=
    Nat.not_lt.mpr (length_message_le pid stack i)
  simp only [Mq.send, State.mq, hp, Producer.sent, if_neg hfits, length_queued,
    enqueue_queued hle]
  by_cases hi : i < s.consumer.received N + maxMsgs
  · rw [if_pos hi, if_pos (by omega)]
  · rw [if_neg hi, if_neg (by omega)]

/-- The child's steps, as far as the invariant allows them. -/
inductive ConsumerMove (N pid : Nat) (stack : Nat → List UInt8) (k : Kernel) (s : State) :
    State → Prop
  | opened : s.consumer = .opening →
      ConsumerMove N pid stack k s
        { s with
          kernel := ⟨k.mqs ++ [s.mq N pid stack], some k.mqs.length⟩
          consumer := .receiving k.mqs.length 0 }
  | received (i : Nat) (buf : List UInt8) : s.consumer = .receiving k.mqs.length i →
      i < s.producer.sent N →
      ConsumerMove N pid stack k s
        { s with
          kernel := s.kernel.put k.mqs.length
            ⟨maxMsgs, maxSize, queued pid stack (i + 1) (s.producer.sent N)⟩
          consumer := .receiving k.mqs.length (i + 1)
          buf := buf
          printed := s.printed ++ [shownText pid i] }
  | leaves : s.consumer = .receiving k.mqs.length N →
      ConsumerMove N pid stack k s { s with consumer := .closing k.mqs.length }
  | closes : s.consumer = .closing k.mqs.length →
      ConsumerMove N pid stack k s { s with consumer := .exited 0 }

theorem State.Sound.consumer_inv (h : s.Sound N pid stack k) {s' : State}
    (hs : consumerStep N s = some s') : ConsumerMove N pid stack k s s' := by
  cases hc : s.consumer with
  | opening =>
    have hr : s.producer ≠ .returned := by
      intro hr
      obtain ⟨status, he⟩ := h.ended (.inr hr)
      rw [hc] at he
      cases he
    simp only [consumerStep, hc, h.mqOpen hr] at hs
    obtain rfl := Option.some.inj hs
    exact .opened hc
  | receiving mq i =>
    obtain rfl := h.consumer_mq mq (by rw [hc]; rfl)
    have hle : i ≤ s.producer.sent N := by simpa [hc, Consumer.received] using h.received_le
    have hN := h.sent_le
    by_cases hi : i < N
    · simp only [consumerStep, hc, if_pos hi, h.lookup (by rw [hc]; rfl), h.receive hc] at hs
      by_cases hsent : i < s.producer.sent N
      · have hpos : 0 < (message pid stack i).length := by
          rw [message_eq, List.length_append]
          exact Nat.succ_pos _
        rw [if_pos hsent] at hs
        simp only [if_pos hpos, cString_received] at hs
        obtain rfl := Option.some.inj hs
        exact .received i _ hc hsent
      · rw [if_neg hsent] at hs
        cases hs
    · simp only [consumerStep, hc, if_neg hi] at hs
      obtain rfl := Option.some.inj hs
      exact .leaves (by rw [hc, show i = N by omega])
  | closing mq =>
    obtain rfl := h.consumer_mq mq (by rw [hc]; rfl)
    simp only [consumerStep, hc] at hs
    obtain rfl := Option.some.inj hs
    exact .closes hc
  | exited status =>
    simp only [consumerStep, hc] at hs
    cases hs

/-- The parent's steps, as far as the invariant allows them. -/
inductive ProducerMove (N pid : Nat) (stack : Nat → List UInt8) (k : Kernel) (s : State) :
    State → Prop
  | opened : s.producer = .opening →
      ProducerMove N pid stack k s
        { s with
          kernel := ⟨k.mqs ++ [s.mq N pid stack], some k.mqs.length⟩
          producer := .sending k.mqs.length 0 }
  | sent (i : Nat) : s.producer = .sending k.mqs.length i → i < N →
      i < s.consumer.received N + maxMsgs →
      ProducerMove N pid stack k s
        { s with
          kernel := s.kernel.put k.mqs.length
            ⟨maxMsgs, maxSize, queued pid stack (s.consumer.received N) (i + 1)⟩
          producer := .sending k.mqs.length (i + 1) }
  | leaves : s.producer = .sending k.mqs.length N →
      ProducerMove N pid stack k s { s with producer := .closing k.mqs.length }
  | closes : s.producer = .closing k.mqs.length →
      ProducerMove N pid stack k s { s with producer := .waiting }
  | reaps (status : Nat) : s.producer = .waiting → s.consumer = .exited status →
      ProducerMove N pid stack k s { s with producer := .unlinking }
  | unlinks : s.producer = .unlinking →
      ProducerMove N pid stack k s
        { s with kernel := s.kernel.mqUnlink, producer := .returned }

theorem State.Sound.producer_inv (h : s.Sound N pid stack k) {s' : State}
    (hs : producerStep N pid stack s = some s') : ProducerMove N pid stack k s s' := by
  cases hp : s.producer with
  | opening =>
    have hr : s.producer ≠ .returned := by
      rw [hp]
      intro hr
      cases hr
    simp only [producerStep, hp, h.mqOpen hr] at hs
    obtain rfl := Option.some.inj hs
    exact .opened hp
  | sending mq i =>
    obtain rfl := h.producer_mq mq (by rw [hp]; rfl)
    by_cases hi : i < N
    · have hopen : (s.consumer.opened || s.producer.opened) = true := by
        rw [hp]
        exact Bool.or_true _
      simp only [producerStep, hp, if_pos hi, h.lookup hopen, h.send hp] at hs
      by_cases hroom : i < s.consumer.received N + maxMsgs
      · rw [if_pos hroom] at hs
        obtain rfl := Option.some.inj hs
        exact .sent i hp hi hroom
      · rw [if_neg hroom] at hs
        cases hs
    · have hle : i ≤ N := by simpa [hp, Producer.sent] using h.sent_le
      simp only [producerStep, hp, if_neg hi] at hs
      obtain rfl := Option.some.inj hs
      exact .leaves (by rw [hp, show i = N by omega])
  | closing mq =>
    obtain rfl := h.producer_mq mq (by rw [hp]; rfl)
    simp only [producerStep, hp] at hs
    obtain rfl := Option.some.inj hs
    exact .closes hp
  | waiting =>
    simp only [producerStep, hp] at hs
    split at hs
    next status hc =>
      obtain rfl := Option.some.inj hs
      exact .reaps status hp hc
    next => cases hs
  | unlinking =>
    simp only [producerStep, hp] at hs
    obtain rfl := Option.some.inj hs
    exact .unlinks hp
  | returned | exited =>
    simp only [producerStep, hp] at hs
    cases hs

/-- The parent waits for the child before it unlinks. -/
theorem State.Sound.running (h : s.Sound N pid stack k) (hc : ∀ status, s.consumer ≠ .exited status) :
    ¬ (s.producer = .unlinking ∨ s.producer = .returned) := by
  intro hp
  obtain ⟨status, he⟩ := h.ended hp
  exact hc status he

theorem ConsumerMove.running {s' : State} (hm : ConsumerMove N pid stack k s s') :
    ∀ status, s.consumer ≠ .exited status := by
  intro status he
  cases hm with
  | opened hc => rw [hc] at he; cases he
  | received i buf hc hi => rw [hc] at he; cases he
  | leaves hc => rw [hc] at he; cases he
  | closes hc => rw [hc] at he; cases he

theorem ConsumerMove.sound {s' : State} (hm : ConsumerMove N pid stack k s s')
    (h : s.Sound N pid stack k) : s'.Sound N pid stack k := by
  have hrun := h.running hm.running
  have hret : s.producer ≠ .returned := fun hp => hrun (.inr hp)
  have hle := h.received_le
  have hroom := h.room
  have hprinted := h.printed
  cases hm with
  | opened hc =>
    simp only [hc, Consumer.received] at hle hroom hprinted
    refine ⟨?_, ?_, h.producer_mq, hle, h.sent_le, hroom, fun hp => absurd hp hrun, hprinted⟩
    · simp only [State.kernelAt, Consumer.opened, Bool.true_or, if_pos, if_neg hret, State.mq, hc,
        Consumer.received]
    · rintro mq ⟨⟩
      rfl
  | received i buf hc hi =>
    have hopen : (s.consumer.opened || s.producer.opened) = true := by rw [hc]; rfl
    simp only [hc, Consumer.received] at hroom hprinted
    refine ⟨?_, ?_, h.producer_mq, hi, h.sent_le, ?_, fun hp => absurd hp hrun, ?_⟩
    · rw [h.put hopen]
      rfl
    · rintro mq ⟨⟩
      rfl
    · simp only [Consumer.received]
      omega
    · simp only [Consumer.received, List.range_succ, List.map_append, hprinted]
      rfl
  | leaves hc =>
    simp only [hc, Consumer.received] at hle hroom hprinted
    refine ⟨?_, ?_, h.producer_mq, hle, h.sent_le, hroom, fun hp => absurd hp hrun, hprinted⟩
    · simp [h.kernel, State.kernelAt, State.mq, hc, Consumer.opened, Consumer.received]
    · rintro mq ⟨⟩
      rfl
  | closes hc =>
    simp only [hc, Consumer.received] at hle hroom hprinted
    refine ⟨?_, ?_, h.producer_mq, hle, h.sent_le, hroom, fun hp => absurd hp hrun, hprinted⟩
    · simp only [h.kernel, State.kernelAt, State.mq, hc, Consumer.opened, Consumer.received,
        decide_true, if_pos]
    · intro mq hmq
      cases hmq

theorem ProducerMove.sound {s' : State} (hm : ProducerMove N pid stack k s s')
    (h : s.Sound N pid stack k) : s'.Sound N pid stack k := by
  have hle := h.received_le
  have hN := h.sent_le
  have hroom := h.room
  cases hm with
  | opened hp =>
    simp only [hp, Producer.sent] at hle hroom
    refine ⟨?_, h.consumer_mq, ?_, hle, Nat.zero_le _, hroom, ?_, h.printed⟩
    · simp [State.kernelAt, Producer.opened, State.mq, hp, Producer.sent]
    · rintro mq ⟨⟩
      rfl
    · rintro (⟨⟨⟩⟩ | ⟨⟨⟩⟩)
  | sent i hp hi hspace =>
    have hopen : (s.consumer.opened || s.producer.opened) = true := by
      rw [hp]
      exact Bool.or_true _
    simp only [hp, Producer.sent] at hle hroom
    refine ⟨?_, h.consumer_mq, ?_, Nat.le_succ_of_le hle, hi, hspace, ?_, h.printed⟩
    · rw [h.put hopen]
      simp [State.kernelAt, Producer.opened, State.mq, hp, Producer.sent]
    · rintro mq ⟨⟩
      rfl
    · rintro (⟨⟨⟩⟩ | ⟨⟨⟩⟩)
  | leaves hp =>
    simp only [hp, Producer.sent] at hle hroom
    refine ⟨?_, h.consumer_mq, ?_, hle, Nat.le_refl _, hroom, ?_, h.printed⟩
    · simp [h.kernel, State.kernelAt, Producer.opened, State.mq, hp, Producer.sent]
    · rintro mq ⟨⟩
      rfl
    · rintro (⟨⟨⟩⟩ | ⟨⟨⟩⟩)
  | closes hp =>
    simp only [hp, Producer.sent] at hle hroom
    refine ⟨?_, h.consumer_mq, ?_, hle, Nat.le_refl _, hroom, ?_, h.printed⟩
    · simp [h.kernel, State.kernelAt, Producer.opened, State.mq, hp, Producer.sent]
    · intro mq hmq
      cases hmq
    · rintro (⟨⟨⟩⟩ | ⟨⟨⟩⟩)
  | reaps status hp hc =>
    simp only [hp, Producer.sent] at hle hroom
    refine ⟨?_, h.consumer_mq, ?_, hle, Nat.le_refl _, hroom, fun _ => ⟨status, hc⟩, h.printed⟩
    · simp [h.kernel, State.kernelAt, Producer.opened, State.mq, hp, Producer.sent]
    · intro mq hmq
      cases hmq
  | unlinks hp =>
    simp only [hp, Producer.sent] at hle hroom
    refine ⟨?_, h.consumer_mq, ?_, hle, Nat.le_refl _, hroom, fun _ => h.ended (.inl hp), h.printed⟩
    · simp [h.kernel, State.kernelAt, Producer.opened, State.mq, hp, Producer.sent,
        Kernel.mqUnlink]
    · intro mq hmq
      cases hmq

theorem step_sound {a : Act} {s' : State} (h : s.Sound N pid stack k)
    (hs : step N pid stack a s = some s') : s'.Sound N pid stack k := by
  cases a with
  | consumer => exact (h.consumer_inv hs).sound h
  | producer => exact (h.producer_inv hs).sound h
  | consumerOpenFails =>
    obtain ⟨hc, hs⟩ := Option.ite_none_right_eq_some.mp hs
    obtain rfl := Option.some.inj hs
    have hrun := h.running fun status he => by rw [hc] at he; cases he
    have hle := h.received_le
    have hroom := h.room
    have hprinted := h.printed
    simp only [hc, Consumer.received] at hle hroom hprinted
    refine ⟨?_, ?_, h.producer_mq, hle, h.sent_le, hroom, fun hp => absurd hp hrun, hprinted⟩
    · simp [h.kernel, State.kernelAt, State.mq, hc, Consumer.opened, Consumer.received]
    · intro mq hmq
      cases hmq
  | producerOpenFails =>
    obtain ⟨hp, hs⟩ := Option.ite_none_right_eq_some.mp hs
    obtain rfl := Option.some.inj hs
    have hle := h.received_le
    simp only [hp, Producer.sent] at hle
    refine ⟨?_, h.consumer_mq, ?_, hle, Nat.zero_le _, Nat.zero_le _, ?_, h.printed⟩
    · simp [h.kernel, State.kernelAt, State.mq, hp, Producer.opened, Producer.sent]
    · intro mq hmq
      cases hmq
    · rintro (⟨⟨⟩⟩ | ⟨⟨⟩⟩)

/-! ## Runs -/

/-- The steps the child can still take. -/
def Consumer.left (N : Nat) : Consumer → Nat
  | .opening => N + 3
  | .receiving _ i => N - i + 2
  | .closing _ => 1
  | .exited _ => 0

/-- The steps the parent can still take. -/
def Producer.left (N : Nat) : Producer → Nat
  | .opening => N + 5
  | .sending _ i => N - i + 4
  | .closing _ => 3
  | .waiting => 2
  | .unlinking => 1
  | .returned | .exited => 0

def State.left (N : Nat) (s : State) : Nat := s.consumer.left N + s.producer.left N

theorem step_left {a : Act} {s' : State} (h : s.Sound N pid stack k)
    (hs : step N pid stack a s = some s') : s'.left N + 1 ≤ s.left N := by
  have hN := h.sent_le
  unfold State.left
  cases a with
  | consumer =>
    cases h.consumer_inv hs with
    | opened hc | leaves hc | closes hc =>
      simp only [hc, Consumer.left]
      omega
    | received i buf hc hi =>
      simp only [hc, Consumer.left]
      omega
  | producer =>
    cases h.producer_inv hs with
    | opened hp | leaves hp | closes hp | unlinks hp =>
      simp only [hp, Producer.left]
      omega
    | sent i hp hi =>
      simp only [hp, Producer.left]
      omega
    | reaps status hp hc =>
      simp only [hp, Producer.left]
      omega
  | consumerOpenFails =>
    obtain ⟨hc, hs⟩ := Option.ite_none_right_eq_some.mp hs
    obtain rfl := Option.some.inj hs
    simp only [hc, Consumer.left]
    omega
  | producerOpenFails =>
    obtain ⟨hp, hs⟩ := Option.ite_none_right_eq_some.mp hs
    obtain rfl := Option.some.inj hs
    simp only [hp, Producer.left]
    omega

end Steps

end LearnLinux.MqProcesses
