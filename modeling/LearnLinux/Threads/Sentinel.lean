import LearnLinux.Threads.Programs
import Mathlib.Algebra.Order.BigOperators.Group.Finset
import Mathlib.Data.Fintype.BigOperators

/-!
# The producers and consumers of `demo_cond_var`

`P` threads run `producer`, thread `k` with its own item count `n k`, and `P`
threads run `consumer` on the same queue. Each producer ends with one `SENTINEL` and
each consumer stops at the first `SENTINEL` it pops, whoever pushed it, so the
sentinel of a fast producer may retire a consumer while items are still to come.
`sentinel_shutdown` shows that the protocol is complete all the same. The argument
counts sentinels: they are pushed one per finished producer and popped one per
stopped consumer, and the last entry ever pushed is a sentinel.
-/

namespace LearnLinux.CondQueue.Sentinel

open Tagged Transition

/-! ## The two programs -/

/-- `SENTINEL`. -/
def sentinel : Int := -1

/-- An entry of the queue. The program stores and tests `val`; `owner` only records
which producer pushed it. -/
structure Item (P : Nat) where
  val : Int
  owner : Fin P
  deriving DecidableEq, Repr

/-- The lines `producer` and `consumer` print. -/
inductive Line (P : Nat) where
  | pushing (i : Nat)
  | got (item : Item P)
  | done
  deriving DecidableEq, Repr

/-- Producers on the left, consumers on the right. -/
abbrev Role (P : Nat) := Fin P ⊕ Fin P

inductive Loc (P : Nat) where
  /-- `producer k` at the test `i < n`. -/
  | produce (k : Fin P) (n i : Nat)
  /-- `producer k` before `queue_push(&g_queue, i)`. -/
  | pushing (k : Fin P) (n i : Nat)
  /-- `consumer` before `queue_pop(&g_queue)`. -/
  | consume
  /-- `consumer` before it prints what it got. -/
  | got (item : Item P)
  /-- `consumer` after the loop. -/
  | leaving
  | stop

variable {P : Nat}

def program : Loc P → Op (Item P) (Line P) (Loc P)
  | .produce k n i =>
    if i < n then .print (.pushing i) (.pushing k n i) else .push ⟨sentinel, k⟩ .stop
  | .pushing k n i => .push ⟨i, k⟩ (.produce k n (i + 1))
  | .consume => .pop fun item => if item.val = sentinel then .leaving else .got item
  | .got item => .print (.got item) .consume
  | .leaving => .print .done .stop
  | .stop => .ret

def entry (n : Fin P → Nat) : Role P → Loc P
  | .inl k => .produce k (n k) 0
  | .inr _ => .consume

/-! ## What each thread has done -/

/-- The items `0, …, i - 1` of producer `k`. -/
def itemsOf (k : Fin P) (i : Nat) : List (Item P) := (List.range i).map fun j : Nat => ⟨j, k⟩

/-- The items a thread has printed. -/
def shown (lines : List (Line P)) : List (Item P) :=
  lines.filterMap fun line => match line with
    | .got item => some item
    | _ => none

/-- What a thread at a location has pushed, popped and printed. -/
def Account (n : Fin P → Nat) : Assertion (Role P) (Item P) (Line P) (Loc P)
  | .inl k, .produce k' n' i, pu, po, pr =>
    k' = k ∧ n' = n k ∧ i ≤ n k ∧ pu = itemsOf k i ∧ po = [] ∧ shown pr = []
  | .inl k, .pushing k' n' i, pu, po, pr =>
    k' = k ∧ n' = n k ∧ i < n k ∧ pu = itemsOf k i ∧ po = [] ∧ shown pr = []
  | .inl k, .stop, pu, po, pr =>
    pu = itemsOf k (n k) ++ [⟨sentinel, k⟩] ∧ po = [] ∧ shown pr = []
  | .inr _, .consume, pu, po, pr =>
    pu = [] ∧ po = shown pr ∧ ∀ item ∈ shown pr, item.val ≠ sentinel
  | .inr _, .got item, pu, po, pr =>
    pu = [] ∧ po = shown pr ++ [item] ∧ item.val ≠ sentinel ∧
      ∀ item ∈ shown pr, item.val ≠ sentinel
  | .inr _, .leaving, pu, po, pr =>
    pu = [] ∧ (∀ item ∈ shown pr, item.val ≠ sentinel) ∧
      ∃ z : Item P, z.val = sentinel ∧ po = shown pr ++ [z]
  | .inr _, .stop, pu, po, pr =>
    pu = [] ∧ (∀ item ∈ shown pr, item.val ≠ sentinel) ∧
      ∃ z : Item P, z.val = sentinel ∧ po = shown pr ++ [z]
  | _, _, _, _, _ => False

theorem itemsOf_succ (k : Fin P) (i : Nat) : itemsOf k (i + 1) = itemsOf k i ++ [⟨i, k⟩] := by
  simp [itemsOf, List.range_succ]

theorem program_keeps (n : Fin P → Nat) : Keeps program (Account n) where
  push := by
    intro t l val next pu po pr hop h
    cases l with
    | produce k n' i =>
      simp only [program] at hop
      split at hop
      · cases hop
      · rename_i hi
        cases hop
        cases t with
        | inr c => exact False.elim h
        | inl k' =>
          obtain ⟨rfl, rfl, hle, hpu, hpo, hpr⟩ := h
          have hin : i = n k := by omega
          exact ⟨by rw [hpu, hin], hpo, hpr⟩
    | pushing k n' i =>
      cases hop
      cases t with
      | inr c => exact False.elim h
      | inl k' =>
        obtain ⟨rfl, rfl, hlt, hpu, hpo, hpr⟩ := h
        exact ⟨rfl, rfl, hlt, by rw [hpu, itemsOf_succ], hpo, hpr⟩
    | consume => cases hop
    | got item => cases hop
    | leaving => cases hop
    | stop => cases hop
  pop := by
    intro t l val next pu po pr hop h
    cases l with
    | consume =>
      cases hop
      cases t with
      | inl k => exact False.elim h
      | inr c =>
        obtain ⟨hpu, hpo, hsh⟩ := h
        by_cases hv : val.val = sentinel
        · simp only [if_pos hv]
          exact ⟨hpu, hsh, val, hv, by rw [hpo]⟩
        · simp only [if_neg hv]
          exact ⟨hpu, by rw [hpo], hv, hsh⟩
    | produce k n' i =>
      simp only [program] at hop
      split at hop <;> cases hop
    | pushing k n' i => cases hop
    | got item => cases hop
    | leaving => cases hop
    | stop => cases hop
  print := by
    intro t l line next pu po pr hop h
    cases l with
    | produce k n' i =>
      simp only [program] at hop
      split at hop
      · rename_i hi
        cases hop
        cases t with
        | inr c => exact False.elim h
        | inl k' =>
          obtain ⟨rfl, rfl, hle, hpu, hpo, hpr⟩ := h
          exact ⟨rfl, rfl, hi, hpu, hpo, by simpa [shown] using hpr⟩
      · cases hop
    | got item =>
      cases hop
      cases t with
      | inl k => exact False.elim h
      | inr c =>
        obtain ⟨hpu, hpo, hv, hsh⟩ := h
        have hnew : shown (pr ++ [.got item]) = shown pr ++ [item] := by simp [shown]
        refine ⟨hpu, by rw [hnew, hpo], ?_⟩
        rw [hnew]
        intro x hx
        rcases List.mem_append.mp hx with hx | hx
        · exact hsh x hx
        · rw [List.mem_singleton.mp hx]
          exact hv
    | leaving =>
      cases hop
      cases t with
      | inl k => exact False.elim h
      | inr c => simpa [shown, Account] using h
    | pushing k n' i => cases hop
    | consume => cases hop
    | stop => cases hop

theorem entry_account (n : Fin P → Nat) (t : Role P) : Account n t (entry n t) [] [] [] := by
  cases t with
  | inl k => exact ⟨rfl, rfl, Nat.zero_le _, rfl, rfl, rfl⟩
  | inr c => exact ⟨rfl, rfl, by simp [shown]⟩

/-- Everything producer `k` pushes in the end. -/
def script (n : Fin P → Nat) (k : Fin P) : List (Item P) :=
  itemsOf k (n k) ++ [⟨sentinel, k⟩]

def isSentinel (item : Item P) : Bool := item.val == sentinel

theorem mem_itemsOf {k : Fin P} {i : Nat} {item : Item P} (h : item ∈ itemsOf k i) :
    item.owner = k ∧ ∃ j < i, item.val = j := by
  obtain ⟨j, hj, rfl⟩ := List.mem_map.mp h
  exact ⟨rfl, j, List.mem_range.mp hj, rfl⟩

theorem itemsOf_sentinels (k : Fin P) (i : Nat) : (itemsOf k i).countP isSentinel = 0 := by
  rw [List.countP_eq_zero]
  intro item hm
  obtain ⟨-, j, -, hj⟩ := mem_itemsOf hm
  simp only [isSentinel, sentinel, hj, beq_iff_eq]
  omega

theorem script_sentinels (n : Fin P → Nat) (k : Fin P) : (script n k).countP isSentinel = 1 := by
  rw [script, List.countP_append, itemsOf_sentinels]
  rfl

theorem itemsOf_mono (k : Fin P) {i m : Nat} (h : i ≤ m) : itemsOf k i <+: itemsOf k m := by
  obtain ⟨d, rfl⟩ := Nat.exists_eq_add_of_le h
  induction d with
  | zero => exact List.prefix_rfl
  | succ d ih =>
    rw [← Nat.add_assoc, itemsOf_succ]
    exact (ih (Nat.le_add_right ..)).trans (List.prefix_append _ _)

theorem itemsOf_sorted (k : Fin P) (i : Nat) :
    (itemsOf k i).Pairwise fun a b => a.val < b.val := by
  unfold itemsOf
  rw [List.pairwise_map]
  exact List.pairwise_lt_range.imp fun h => by simpa using h

theorem script_nodup (n : Fin P → Nat) (k : Fin P) : (script n k).Nodup := by
  refine List.nodup_append.mpr ⟨?_, List.nodup_singleton _, ?_⟩
  · exact (itemsOf_sorted k (n k)).imp fun h he => by rw [he] at h; exact Int.lt_irrefl _ h
  · intro a ha b hb hab
    obtain ⟨-, j, -, hj⟩ := mem_itemsOf ha
    rw [List.mem_singleton.mp hb] at hab
    rw [hab] at hj
    simp only [sentinel] at hj
    omega

theorem script_owner {n : Fin P → Nat} {k : Fin P} {item : Item P} (h : item ∈ script n k) :
    item.owner = k := by
  rcases List.mem_append.mp h with h | h
  · exact (mem_itemsOf h).1
  · rw [List.mem_singleton.mp h]

/-- A producer has pushed a prefix of its script, with the sentinel only at the end. -/
theorem Account.producer {n : Fin P → Nat} {k : Fin P} {l : Loc P} {pu po : List (Item P)}
    {pr : List (Line P)} (h : Account n (.inl k) l pu po pr) :
    pu <+: script n k ∧ po = [] ∧ shown pr = [] ∧ (l = .stop → pu = script n k) ∧
      (l ≠ .stop → pu.countP isSentinel = 0) := by
  have hpre : ∀ i ≤ n k, itemsOf k i <+: script n k := fun i hi =>
    (itemsOf_mono k hi).trans (List.prefix_append _ _)
  cases l with
  | produce k' n' i =>
    obtain ⟨-, -, hle, rfl, hpo, hpr⟩ := h
    exact ⟨hpre i hle, hpo, hpr, (fun hl => by cases hl), fun _ => itemsOf_sentinels k i⟩
  | pushing k' n' i =>
    obtain ⟨-, -, hlt, rfl, hpo, hpr⟩ := h
    exact ⟨hpre i (Nat.le_of_lt hlt), hpo, hpr, (fun hl => by cases hl),
      fun _ => itemsOf_sentinels k i⟩
  | stop =>
    obtain ⟨rfl, hpo, hpr⟩ := h
    exact ⟨List.prefix_rfl, hpo, hpr, fun _ => rfl, fun hl => absurd rfl hl⟩
  | consume => exact False.elim h
  | got item => exact False.elim h
  | leaving => exact False.elim h

theorem shown_sentinels {pr : List (Line P)} (h : ∀ item ∈ shown pr, item.val ≠ sentinel) :
    (shown pr).countP isSentinel = 0 := by
  rw [List.countP_eq_zero]
  intro item hm
  simpa [isSentinel] using h item hm

theorem shown_snoc_sentinels {pr : List (Line P)} {z : Item P} (hz : z.val = sentinel)
    (h : ∀ item ∈ shown pr, item.val ≠ sentinel) :
    (shown pr ++ [z]).countP isSentinel = 1 := by
  rw [List.countP_append, shown_sentinels h]
  simp [isSentinel, hz]

/-- A consumer has printed what it popped, up to the entry it is dealing with. -/
theorem Account.consumer {n : Fin P → Nat} {c : Fin P} {l : Loc P} {pu po : List (Item P)}
    {pr : List (Line P)} (h : Account n (.inr c) l pu po pr) :
    pu = [] ∧ shown pr <+: po ∧ po.countP isSentinel ≤ 1 ∧
      (l = .stop → ∃ z : Item P, z.val = sentinel ∧ po = shown pr ++ [z] ∧
        po.countP isSentinel = 1) ∧
      (l = .consume → po.countP isSentinel = 0) := by
  cases l with
  | produce k n' i => exact False.elim h
  | pushing k n' i => exact False.elim h
  | consume =>
    obtain ⟨hpu, rfl, hsh⟩ := h
    have h0 := shown_sentinels hsh
    exact ⟨hpu, List.prefix_rfl, by omega, (fun hl => by cases hl), fun _ => h0⟩
  | got item =>
    obtain ⟨hpu, rfl, hv, hsh⟩ := h
    have h0 : (shown pr ++ [item]).countP isSentinel = 0 := by
      rw [List.countP_append, shown_sentinels hsh]
      simp [isSentinel, hv]
    exact ⟨hpu, List.prefix_append _ _, by omega, (fun hl => by cases hl), fun hl => by cases hl⟩
  | leaving =>
    obtain ⟨hpu, hsh, z, hz, rfl⟩ := h
    have h1 := shown_snoc_sentinels hz hsh
    exact ⟨hpu, List.prefix_append _ _, by omega, (fun hl => by cases hl), fun hl => by cases hl⟩
  | stop =>
    obtain ⟨hpu, hsh, z, hz, rfl⟩ := h
    have h1 := shown_snoc_sentinels hz hsh
    exact ⟨hpu, List.prefix_append _ _, by omega, fun _ => ⟨z, hz, rfl, h1⟩, fun hl => by cases hl⟩

/-! ## The whole system -/

abbrev SState (P : Nat) := State (Role P) (Item P) (Line P) (Loc P)

/-- All threads have returned. -/
def Final (s : SState P) : Prop := ∀ t, (s.thread t).Finished program

theorem finished_iff (ph : Phase (Loc P)) : ph.Finished program ↔ ph = .ready .stop := by
  constructor
  · intro h
    cases ph with
    | parked l => exact False.elim h
    | woken l => exact False.elim h
    | ready l =>
      cases l with
      | produce k n i =>
        simp only [Phase.Finished, program] at h
        split at h <;> cases h
      | stop => rfl
      | pushing k n i => cases h
      | consume => cases h
      | got item => cases h
      | leaving => cases h
  · rintro rfl
    rfl

section Runs

variable {n : Fin P → Nat} {data : Nat → Item P} {s : SState P}

theorem account (hr : (system program data (entry n)).Reachable s) (t : Role P) :
    s.Asserts (Account n) t :=
  reachable_local (program_keeps n) (entry_account n) hr t

theorem pushed_owner (hr : (system program data (entry n)).Reachable s)
    (e : Role P × Item P) (he : e ∈ s.pushed) : e.1 = .inl e.2.owner := by
  obtain ⟨t, item⟩ := e
  have hm := (mem_entriesOf t s.pushed item).mpr he
  cases t with
  | inl k =>
    have hpre := (Account.producer (account hr (.inl k))).1
    rw [script_owner (hpre.subset hm)]
  | inr c =>
    rw [(Account.consumer (account hr (.inr c))).1] at hm
    cases hm

theorem popped_consumer (hr : (system program data (entry n)).Reachable s)
    (e : Role P × Item P) (he : e ∈ s.popped) : ∃ c, e.1 = .inr c := by
  obtain ⟨t, item⟩ := e
  cases t with
  | inr c => exact ⟨c, rfl⟩
  | inl k =>
    have hm := (mem_entriesOf (.inl k) s.popped item).mpr he
    rw [(Account.producer (account hr (.inl k))).2.1] at hm
    cases hm

/-- The entries of producer `k` in the order of the queue. -/
theorem pushed_by (hr : (system program data (entry n)).Reachable s) (k : Fin P) :
    entriesOf (.inl k) s.pushed = (s.pushed.map Prod.snd).filter fun item => item.owner = k := by
  apply entriesOf_eq_filter
  intro e he
  rw [pushed_owner hr e he]
  simp

/-- What was popped is the first part of what was pushed. -/
theorem popped_first (hr : (system program data (entry n)).Reachable s) :
    s.popped.map Prod.snd <+: s.pushed.map Prod.snd :=
  ⟨s.q.contents, (reachable_linear hr).law⟩

/-- Sentinels are pushed by producers and popped by consumers. -/
theorem pushed_sentinels (hr : (system program data (entry n)).Reachable s) :
    (s.pushed.map Prod.snd).countP isSentinel =
      ∑ k, (entriesOf (.inl k) s.pushed).countP isSentinel := by
  rw [countP_eq_sum, Fintype.sum_sum_type]
  have h0 : ∀ c : Fin P, (entriesOf (.inr c) s.pushed).countP isSentinel = 0 := by
    intro c
    rw [(Account.consumer (account hr (.inr c))).1]
    rfl
  simp only [h0, Finset.sum_const_zero, Nat.add_zero]

theorem popped_countP (hr : (system program data (entry n)).Reachable s) (p : Item P → Bool) :
    (s.popped.map Prod.snd).countP p = ∑ c, (entriesOf (.inr c) s.popped).countP p := by
  rw [countP_eq_sum, Fintype.sum_sum_type]
  have h0 : ∀ k : Fin P, (entriesOf (.inl k) s.popped).countP p = 0 := by
    intro k
    rw [(Account.producer (account hr (.inl k))).2.1]
    rfl
  simp only [h0, Finset.sum_const_zero, Nat.zero_add]

theorem sum_eq_of_one {f : Fin P → Nat} (h : ∀ k, f k = 1) : ∑ k, f k = P := by
  simp [h]

theorem sum_lt_of_zero {f : Fin P → Nat} (h : ∀ k, f k ≤ 1) {k : Fin P} (hk : f k = 0) :
    ∑ k, f k < P := by
  have hlt : ∑ k, f k < ∑ _k : Fin P, 1 :=
    Finset.sum_lt_sum (fun i _ => h i) ⟨k, Finset.mem_univ k, by omega⟩
  simpa using hlt

theorem producer_sentinels_le (hr : (system program data (entry n)).Reachable s) (k : Fin P) :
    (entriesOf (.inl k) s.pushed).countP isSentinel ≤ 1 := by
  have hpre := (Account.producer (account hr (.inl k))).1
  exact (hpre.sublist.countP_le).trans (Nat.le_of_eq (script_sentinels n k))

theorem producer_finished (hr : (system program data (entry n)).Reachable s) (k : Fin P)
    (hf : (s.thread (.inl k)).Finished program) : entriesOf (.inl k) s.pushed = script n k := by
  have hl : (s.thread (.inl k)).loc = .stop := by rw [(finished_iff _).mp hf]; rfl
  exact (Account.producer (account hr (.inl k))).2.2.2.1 hl

theorem consumer_finished (hr : (system program data (entry n)).Reachable s) (c : Fin P)
    (hf : (s.thread (.inr c)).Finished program) :
    ∃ z : Item P, z.val = sentinel ∧
      entriesOf (.inr c) s.popped = shown (entriesOf (.inr c) s.out) ++ [z] ∧
      (entriesOf (.inr c) s.popped).countP isSentinel = 1 := by
  have hl : (s.thread (.inr c)).loc = .stop := by rw [(finished_iff _).mp hf]; rfl
  exact (Account.consumer (account hr (.inr c))).2.2.2.1 hl

theorem finished_pushed (hr : (system program data (entry n)).Reachable s)
    (hf : ∀ k, (s.thread (.inl k)).Finished program) :
    (s.pushed.map Prod.snd).countP isSentinel = P := by
  have hones : ∀ k, (entriesOf (.inl k) s.pushed).countP isSentinel = 1 := by
    intro k
    rw [producer_finished hr k (hf k), script_sentinels]
  rw [pushed_sentinels hr, sum_eq_of_one hones]

theorem finished_popped (hr : (system program data (entry n)).Reachable s)
    (hf : ∀ c, (s.thread (.inr c)).Finished program) :
    (s.popped.map Prod.snd).countP isSentinel = P := by
  have hones : ∀ c, (entriesOf (.inr c) s.popped).countP isSentinel = 1 := by
    intro c
    obtain ⟨-, -, -, h1⟩ := consumer_finished hr c (hf c)
    exact h1
  rw [popped_countP hr, sum_eq_of_one hones]

/-! ## Nobody waits for ever -/

/-- A producer that is parked has not pushed its sentinel. -/
theorem parked_producer (hr : (system program data (entry n)).Reachable s) (k : Fin P) (c : Cond)
    (hp : (s.thread (.inl k)).isParked program c = true) :
    (entriesOf (.inl k) s.pushed).countP isSentinel = 0 ∧ c = .notFull := by
  have hacc := account hr (.inl k)
  have hz := (Account.producer hacc).2.2.2.2
  unfold State.Asserts at hacc
  obtain ⟨l, hph, hcond⟩ := Phase.isParked_iff.mp hp
  rw [hph] at hacc hz
  cases l with
  | produce k' n' i =>
    refine ⟨hz (by simp [Phase.loc]), ?_⟩
    simp only [program] at hcond
    split at hcond
    · cases hcond
    · exact (Option.some.inj hcond).symm
  | pushing k' n' i =>
    refine ⟨hz (by simp [Phase.loc]), ?_⟩
    exact (Option.some.inj hcond).symm
  | stop => cases hcond
  | consume => exact False.elim hacc
  | got item => exact False.elim hacc
  | leaving => exact False.elim hacc

/-- A consumer that is parked has not popped a sentinel. -/
theorem parked_consumer (hr : (system program data (entry n)).Reachable s) (c : Fin P) (d : Cond)
    (hp : (s.thread (.inr c)).isParked program d = true) :
    (entriesOf (.inr c) s.popped).countP isSentinel = 0 ∧ d = .notEmpty := by
  have hacc := account hr (.inr c)
  have hz := (Account.consumer hacc).2.2.2.2
  unfold State.Asserts at hacc
  obtain ⟨l, hph, hcond⟩ := Phase.isParked_iff.mp hp
  rw [hph] at hacc hz
  cases l with
  | consume =>
    refine ⟨hz rfl, ?_⟩
    exact (Option.some.inj hcond).symm
  | produce k n' i => exact False.elim hacc
  | pushing k n' i => exact False.elim hacc
  | got item => cases hcond
  | leaving => cases hcond
  | stop => cases hcond

/-- A parked producer finds the queue full. Then no consumer is parked, so all of them
have stopped at a sentinel, and all sentinels have been pushed. -/
theorem idle_producers (hr : (system program data (entry n)).Reachable s)
    (hall : ∀ t, (s.thread t).Finished program ∨ ∃ c, (s.thread t).isParked program c = true)
    (k : Fin P) : (s.thread (.inl k)).Finished program := by
  have hwake := idle_attended hr hall
  rcases hall (.inl k) with hf | ⟨c, hp⟩
  · exact hf
  obtain ⟨hk, rfl⟩ := parked_producer hr k c hp
  have hcount : queueSize ≤ s.q.count := by
    by_contra hlt
    exact hwake.2 ⟨⟨_, hp⟩, by omega⟩
  have hcons : ∀ c, (s.thread (.inr c)).Finished program := by
    intro c
    rcases hall (.inr c) with hf | ⟨d, hd⟩
    · exact hf
    · obtain ⟨-, rfl⟩ := parked_consumer hr c d hd
      exact absurd ⟨⟨_, hd⟩, Int.lt_of_lt_of_le (by decide) hcount⟩ hwake.1
  have hpop := finished_popped hr hcons
  have hpush := pushed_sentinels hr
  have hlt := sum_lt_of_zero (producer_sentinels_le hr) hk
  have hle := (popped_first hr).sublist.countP_le (p := isSentinel)
  omega

/-- A parked consumer finds the queue empty. Then all sentinels have been popped, one
by each consumer. -/
theorem idle_consumers (hr : (system program data (entry n)).Reachable s)
    (hall : ∀ t, (s.thread t).Finished program ∨ ∃ c, (s.thread t).isParked program c = true)
    (c : Fin P) : (s.thread (.inr c)).Finished program := by
  have hwake := idle_attended hr hall
  have hlin := reachable_linear hr
  rcases hall (.inr c) with hf | ⟨d, hp⟩
  · exact hf
  obtain ⟨hk, rfl⟩ := parked_consumer hr c d hp
  have hcount : s.q.count = 0 := by
    have hnonneg := hlin.wf.nonneg
    by_contra hne
    exact hwake.1 ⟨⟨_, hp⟩, by omega⟩
  have hsame : s.popped.map Prod.snd = s.pushed.map Prod.snd := by
    have hlaw : s.popped.map Prod.snd ++ s.q.contents = s.pushed.map Prod.snd := hlin.law
    have hnil : s.q.contents = [] := by simp [Queue.contents, hcount, RingBuffer.window]
    rwa [hnil, List.append_nil] at hlaw
  have hpush := finished_pushed hr (idle_producers hr hall)
  rw [← hsame, popped_countP hr] at hpush
  have hlt := sum_lt_of_zero (fun c => (Account.consumer (account hr (.inr c))).2.2.1) hk
  omega

/-- In no reachable state are all unfinished threads parked, unless all have
returned. -/
theorem all_parked_final (hr : (system program data (entry n)).Reachable s)
    (hall : ∀ t, (s.thread t).Finished program ∨ ∃ c, (s.thread t).isParked program c = true) :
    Final s := by
  intro t
  cases t with
  | inl k => exact idle_producers hr hall k
  | inr c => exact idle_consumers hr hall c

/-- **Progress.** -/
theorem not_final_progress (hr : (system program data (entry n)).Reachable s) (hf : ¬ Final s) :
    ∃ t, ¬ (s.thread t).Finished program ∧ ∃ s', Step program (.run t) s s' := by
  by_contra hno
  apply hf
  apply all_parked_final hr
  intro t
  by_contra ht
  have hfin : ¬ (s.thread t).Finished program := fun h => ht (Or.inl h)
  have hpark : ∀ c, (s.thread t).isParked program c = false := by
    intro c
    cases hp : (s.thread t).isParked program c with
    | false => rfl
    | true => exact absurd (Or.inr ⟨c, hp⟩) ht
  exact hno ⟨t, hfin, run_enabled (reachable_sound hr t) hpark hfin⟩

/-! ## What is printed -/

theorem count_shown (lines : List (Line P)) (item : Item P) :
    lines.countP (fun line => line == .got item) = (shown lines).count item := by
  induction lines with
  | nil => rfl
  | cons line lines ih =>
    cases line with
    | pushing i => simpa [shown] using ih
    | done => simpa [shown] using ih
    | got x => simpa [shown, List.countP_cons, List.count_cons] using ih

/-- Only consumers print items. -/
theorem printed_count (hr : (system program data (entry n)).Reachable s) (item : Item P) :
    (s.out.map Prod.snd).count (.got item) =
      ∑ c, (shown (entriesOf (.inr c) s.out)).count item := by
  rw [List.count, countP_eq_sum, Fintype.sum_sum_type]
  have h0 : ∀ k : Fin P,
      (entriesOf (.inl k) s.out).countP (fun line => line == .got item) = 0 := by
    intro k
    rw [count_shown, (Account.producer (account hr (.inl k))).2.2.1]
    rfl
  simp only [h0, Finset.sum_const_zero, Nat.zero_add, count_shown]

/-- The copies of an item are those its owner pushed. -/
theorem pushed_count (hr : (system program data (entry n)).Reachable s) (item : Item P) :
    (s.pushed.map Prod.snd).count item = (entriesOf (.inl item.owner) s.pushed).count item := by
  rw [pushed_by hr, List.count_filter (by simp)]

theorem pushed_count_le (hr : (system program data (entry n)).Reachable s) (item : Item P) :
    (s.pushed.map Prod.snd).count item ≤ 1 := by
  rw [pushed_count hr]
  have hpre := (Account.producer (account hr (.inl item.owner))).1
  exact (hpre.sublist.count_le item).trans (List.nodup_iff_count_le_one.mp (script_nodup n _) item)

theorem printed_le_popped (hr : (system program data (entry n)).Reachable s) (item : Item P) :
    (s.out.map Prod.snd).count (.got item) ≤ (s.popped.map Prod.snd).count item := by
  rw [printed_count hr, List.count, popped_countP hr]
  apply Finset.sum_le_sum
  intro c _
  exact ((Account.consumer (account hr (.inr c))).2.1.sublist).count_le item

/-- The items of a script without its sentinel. -/
theorem script_items (n : Fin P → Nat) (k : Fin P) :
    (script n k).filter (fun item => item.val ≠ sentinel) = itemsOf k (n k) := by
  rw [script, List.filter_append, List.filter_eq_self.mpr ?_]
  · simp
  · intro item hm
    obtain ⟨-, j, -, hj⟩ := mem_itemsOf hm
    simp only [sentinel, hj, decide_eq_true_eq]
    omega

/-- A consumer sees the items of one producer in increasing order. -/
theorem popped_increasing (hr : (system program data (entry n)).Reachable s) (c k : Fin P) :
    ((entriesOf (.inr c) s.popped).filter
      fun item => item.owner = k ∧ item.val ≠ sentinel).Pairwise fun a b => a.val < b.val := by
  have hsub : (entriesOf (.inr c) s.popped).Sublist (s.pushed.map Prod.snd) :=
    (entriesOf_sublist _ _).trans (popped_first hr).sublist
  have hscript : (entriesOf (.inl k) s.pushed).Sublist (script n k) :=
    (Account.producer (account hr (.inl k))).1.sublist
  have hitems := hscript.filter fun item => item.val ≠ sentinel
  rw [pushed_by hr, List.filter_filter, script_items] at hitems
  refine (itemsOf_sorted k (n k)).sublist ?_
  refine (hsub.filter _).trans ?_
  simpa [Bool.and_comm] using hitems

/-! ## Final states -/

/-- The last entry pushed is a sentinel: its owner has finished. -/
theorem last_sentinel (hr : (system program data (entry n)).Reachable s) (hf : Final s)
    {pre : List (Role P × Item P)} {e : Role P × Item P} (hp : s.pushed = pre ++ [e]) :
    isSentinel e.2 = true := by
  have hown := pushed_owner hr e (by rw [hp]; simp)
  have hfin := producer_finished hr e.2.owner (hf _)
  have he : e = (.inl e.2.owner, e.2) := Prod.ext hown rfl
  rw [hp, he, entriesOf_snoc_self, script] at hfin
  have hlast : [e.2] = [⟨sentinel, e.2.owner⟩] := List.append_inj_right' hfin rfl
  rw [(List.cons.inj hlast).1]
  rfl

/-- All sentinels have been popped, and the last entry is one. -/
theorem final_empty (hr : (system program data (entry n)).Reachable s) (hf : Final s) :
    s.q.contents = [] := by
  have hlaw : s.popped.map Prod.snd ++ s.q.contents = s.pushed.map Prod.snd :=
    (reachable_linear hr).law
  have hpop := finished_popped hr fun c => hf _
  have hpush := finished_pushed hr fun k => hf _
  rw [← hlaw, List.countP_append, hpop] at hpush
  rcases List.eq_nil_or_concat s.q.contents with hnil | ⟨rest, x, hx⟩
  · exact hnil
  have hxs : isSentinel x = true := by
    rcases List.eq_nil_or_concat s.pushed with hp | ⟨pre, e, hp⟩
    · rw [hp, hx] at hlaw
      simp at hlaw
    · rw [List.concat_eq_append] at hp hx
      have hlast := last_sentinel hr hf hp
      rw [hp, hx, List.map_append, ← List.append_assoc] at hlaw
      have hex : [x] = [e].map Prod.snd := List.append_inj_right' hlaw (by simp)
      rwa [(List.cons.inj hex).1]
  rw [hx] at hpush
  simp [List.countP_append, hxs] at hpush

theorem final_popped (hr : (system program data (entry n)).Reachable s) (hf : Final s) :
    s.popped.map Prod.snd = s.pushed.map Prod.snd := by
  have hlaw : s.popped.map Prod.snd ++ s.q.contents = s.pushed.map Prod.snd :=
    (reachable_linear hr).law
  rwa [final_empty hr hf, List.append_nil] at hlaw

/-- Every item was printed exactly once. -/
theorem final_printed (hr : (system program data (entry n)).Reachable s) (hf : Final s)
    (k : Fin P) (i : Nat) (hi : i < n k) :
    (s.out.map Prod.snd).count (.got ⟨i, k⟩) = 1 := by
  have hshown : ∀ c, (shown (entriesOf (.inr c) s.out)).count ⟨i, k⟩ =
      (entriesOf (.inr c) s.popped).count ⟨i, k⟩ := by
    intro c
    obtain ⟨z, hz, hpo, -⟩ := consumer_finished hr c (hf _)
    have hne : z ≠ ⟨i, k⟩ := by
      rintro rfl
      simp only [sentinel] at hz
      omega
    rw [hpo, List.count_append, List.count_singleton, beq_false_of_ne hne]
    rfl
  have hmem : (⟨i, k⟩ : Item P) ∈ script n k :=
    List.mem_append_left _ (List.mem_map.mpr ⟨i, List.mem_range.mpr hi, rfl⟩)
  rw [printed_count hr, Finset.sum_congr rfl fun c _ => hshown c]
  simp only [List.count]
  rw [← popped_countP hr, final_popped hr hf, ← List.count, pushed_count hr, producer_finished hr k (hf _)]
  exact List.count_eq_one_of_mem (script_nodup n k) hmem

end Runs

/-- With one producer and one consumer the items come out in order. -/
theorem single_printed {n : Fin 1 → Nat} {data : Nat → Item 1} {s : SState 1}
    (hr : (system program data (entry n)).Reachable s) (hf : Final s) (c k : Fin 1) :
    shown (entriesOf (.inr c) s.out) = itemsOf k (n k) := by
  have hpop : entriesOf (.inr c) s.popped = s.popped.map Prod.snd := by
    apply entriesOf_eq_map
    intro e he
    obtain ⟨d, hd⟩ := popped_consumer hr e he
    rw [hd, Subsingleton.elim d c]
  have hpush : entriesOf (.inl k) s.pushed = s.pushed.map Prod.snd := by
    apply entriesOf_eq_map
    intro e he
    rw [pushed_owner hr e he, Subsingleton.elim e.2.owner k]
  obtain ⟨z, -, hpo, -⟩ := consumer_finished hr c (hf _)
  have hall : shown (entriesOf (.inr c) s.out) ++ [z] = itemsOf k (n k) ++ [⟨sentinel, k⟩] := by
    rw [← hpo, hpop, final_popped hr hf, ← hpush, producer_finished hr k (hf _), script]
  exact List.append_inj_left' hall rfl

/-- Producer 0 has no items, and its sentinel stops consumer 0 while the item of
producer 1 is still in the queue. -/
theorem overtaken_reachable :
    ∃ s : SState 2, (system program (fun _ => ⟨0, 0⟩) (entry fun k => k)).Reachable s ∧
      Final s := by
  have h0 : (system program (fun _ => ⟨0, 0⟩) (entry fun k : Fin 2 => k)).Reachable
      (State.initial _ _) := .init rfl
  have hnone : ∀ (c : Cond) (thread : Role 2 → Phase (Loc 2)),
      (∀ t, (thread t).isParked program c = false) → Signals program c thread ∅ := by
    intro c thread h
    refine ⟨by simp, ?_⟩
    rintro ⟨t, ht⟩
    rw [h t] at ht
    cases ht
  have h1 := h0.next (Step.push (t := .inl 0) ∅ (Or.inl rfl) rfl rfl (hnone _ _ (by decide)))
  have h2 := h1.next (Step.print (t := .inl 1) rfl rfl)
  have h3 := h2.next (Step.push (t := .inl 1) ∅ (Or.inl rfl) rfl rfl (hnone _ _ (by decide)))
  have h4 := h3.next (Step.pop (t := .inr 0) ∅ (Or.inl rfl) rfl rfl (hnone _ _ (by decide)))
  have h5 := h4.next (Step.print (t := .inr 0) rfl rfl)
  have h6 := h5.next (Step.push (t := .inl 1) ∅ (Or.inl rfl) rfl rfl (hnone _ _ (by decide)))
  have h7 := h6.next (Step.pop (t := .inr 1) ∅ (Or.inl rfl) rfl rfl (hnone _ _ (by decide)))
  have h8 := h7.next (Step.print (t := .inr 1) rfl rfl)
  have h9 := h8.next (Step.pop (t := .inr 1) ∅ (Or.inl rfl) rfl rfl (hnone _ _ (by decide)))
  have h10 := h9.next (Step.print (t := .inr 1) rfl rfl)
  refine ⟨_, h10, ?_⟩
  intro t
  cases t with
  | inl k =>
    match k with
    | 0 => exact rfl
    | 1 => exact rfl
  | inr c =>
    match c with
    | 0 => exact rfl
    | 1 => exact rfl

/-- **Sentinel shutdown is complete**, for every number of producers and consumers
and every schedule. -/
theorem sentinel_shutdown (n : Fin P → Nat) (data : Nat → Item P) {s : SState P}
    (hr : (system program data (entry n)).Reachable s) :
    (∀ item, (s.out.map Prod.snd).count (.got item) ≤ 1) ∧
    (∀ c k, ((entriesOf (.inr c) s.popped).filter
      fun item => item.owner = k ∧ item.val ≠ sentinel).Pairwise fun a b => a.val < b.val) ∧
    (¬ Final s → ∃ t, ¬ (s.thread t).Finished program ∧ ∃ s', Step program (.run t) s s') ∧
    (Final s → s.q.count = 0 ∧
      (∀ c, (entriesOf (.inr c) s.popped).countP isSentinel = 1) ∧
      ∀ (k : Fin P) (i : Nat), i < n k → (s.out.map Prod.snd).count (.got ⟨i, k⟩) = 1) ∧
    (P = 1 → Final s → ∀ c k, shown (entriesOf (.inr c) s.out) = itemsOf k (n k)) := by
  refine ⟨?_, popped_increasing hr, not_final_progress hr, ?_, ?_⟩
  · intro item
    exact (printed_le_popped hr item).trans
      (((popped_first hr).sublist.count_le item).trans (pushed_count_le hr item))
  · intro hf
    refine ⟨?_, ?_, final_printed hr hf⟩
    · have hlen := congrArg List.length (final_empty hr hf)
      have hnonneg := (reachable_linear hr).wf.nonneg
      simp only [Queue.contents, RingBuffer.length_window, List.length_nil] at hlen
      omega
    · intro c
      obtain ⟨-, -, -, h1⟩ := consumer_finished hr c (hf _)
      exact h1
  · rintro rfl hf
    exact single_printed hr hf

theorem overtaken_shutdown :
    ∃ s : SState 2, (system program (fun _ => ⟨0, 0⟩) (entry fun k => k)).Reachable s ∧
      Final s ∧ s.q.count = 0 ∧ (s.out.map Prod.snd).count (.got ⟨0, 1⟩) = 1 := by
  obtain ⟨s, hr, hf⟩ := overtaken_reachable
  have hend := (sentinel_shutdown (fun k : Fin 2 => k) _ hr).2.2.2.1 hf
  exact ⟨s, hr, hf, hend.1, hend.2.2 1 0 (by decide)⟩

end LearnLinux.CondQueue.Sentinel
