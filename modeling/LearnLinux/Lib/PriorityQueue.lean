import Mathlib.Data.List.Sort

/-!
Queues with priorities, for any type of bodies: a message goes behind everything that is at
least as urgent and in front of everything that is less urgent. Such a queue is sorted by
priority, and the messages of one priority keep the order in which they came.
-/

namespace LearnLinux.PriorityQueue

/-- A priority and a body; a larger number is more urgent. -/
abbrev Message (α : Type*) := Nat × α

variable {α : Type*}

def enqueue (q : List (Message α)) (m : Message α) : List (Message α) :=
  q.orderedInsert (fun a b => b.1 < a.1) m

/-- The queue after the messages `ms` have come, in this order. -/
def enqueueAll (q ms : List (Message α)) : List (Message α) := ms.foldl enqueue q

/-- The most urgent messages are in front. -/
def Descending (q : List (Message α)) : Prop := q.Pairwise fun a b => b.1 ≤ a.1

/-- The messages of one priority. -/
def level (p : Nat) (q : List (Message α)) : List (Message α) := q.filter fun m => m.1 = p

theorem length_enqueue (q : List (Message α)) (m : Message α) :
    (enqueue q m).length = q.length + 1 :=
  List.orderedInsert_length _ q m

theorem enqueue_descending {q : List (Message α)} (h : Descending q) (m : Message α) :
    Descending (enqueue q m) := by
  induction q with
  | nil => exact List.pairwise_singleton _ m
  | cons b q ih =>
    obtain ⟨hb, hq⟩ := List.pairwise_cons.mp h
    rw [enqueue, List.orderedInsert_cons]
    by_cases hm : b.1 < m.1
    · rw [if_pos hm]
      refine List.pairwise_cons.mpr ⟨fun c hc => ?_, h⟩
      rcases List.mem_cons.mp hc with rfl | hc
      · exact Nat.le_of_lt hm
      · exact Nat.le_trans (hb c hc) (Nat.le_of_lt hm)
    · rw [if_neg hm]
      refine List.pairwise_cons.mpr ⟨fun c hc => ?_, ih hq⟩
      rcases (List.mem_orderedInsert _).mp hc with rfl | hc
      · exact Nat.le_of_not_lt hm
      · exact hb c hc

/-- A message that is no more urgent than any other goes to the end. -/
theorem enqueue_of_le {q : List (Message α)} {m : Message α} (h : ∀ b ∈ q, m.1 ≤ b.1) :
    enqueue q m = q ++ [m] := by
  induction q with
  | nil => rfl
  | cons b q ih =>
    have hb := h b List.mem_cons_self
    rw [enqueue, List.orderedInsert_cons, if_neg (Nat.not_lt.mpr hb), List.cons_append]
    exact congrArg (b :: ·) (ih fun c hc => h c (List.mem_cons_of_mem b hc))

/-- **First in, first out** among the messages of one priority. -/
theorem level_enqueue (p : Nat) {q : List (Message α)} (h : Descending q) (m : Message α) :
    level p (enqueue q m) = level p q ++ level p [m] := by
  induction q with
  | nil => rfl
  | cons b q ih =>
    obtain ⟨hb, hq⟩ := List.pairwise_cons.mp h
    rw [enqueue, List.orderedInsert_cons]
    by_cases hm : b.1 < m.1
    · rw [if_pos hm]
      by_cases hp : m.1 = p
      · -- everything behind is less urgent than `p`
        have hnil : level p (b :: q) = [] := by
          refine List.filter_eq_nil_iff.mpr fun c hc => ?_
          have hle : c.1 ≤ b.1 := by
            rcases List.mem_cons.mp hc with rfl | hc
            · exact Nat.le_refl _
            · exact hb c hc
          simp only [decide_eq_true_eq]
          omega
        rw [show level p (m :: b :: q) = m :: level p (b :: q) from
          List.filter_cons_of_pos (by simpa using hp), hnil]
        simp [level, hp]
      · simp [level, hp]
    · have ih' := ih hq
      simp only [level, enqueue] at ih' ⊢
      rw [if_neg hm, List.filter_cons, List.filter_cons, ih']
      split <;> rfl

theorem enqueueAll_cons (q : List (Message α)) (m : Message α) (ms : List (Message α)) :
    enqueueAll q (m :: ms) = enqueueAll (enqueue q m) ms := rfl

theorem length_enqueueAll (q ms : List (Message α)) :
    (enqueueAll q ms).length = q.length + ms.length := by
  induction ms generalizing q with
  | nil => rfl
  | cons m ms ih =>
    rw [enqueueAll_cons, ih, length_enqueue, List.length_cons]
    omega

theorem enqueueAll_descending {q : List (Message α)} (h : Descending q) (ms : List (Message α)) :
    Descending (enqueueAll q ms) := by
  induction ms generalizing q with
  | nil => exact h
  | cons m ms ih => exact ih (enqueue_descending h m)

theorem level_enqueueAll (p : Nat) {q : List (Message α)} (h : Descending q)
    (ms : List (Message α)) : level p (enqueueAll q ms) = level p q ++ level p ms := by
  induction ms generalizing q with
  | nil => exact (List.append_nil _).symm
  | cons m ms ih =>
    rw [enqueueAll_cons, ih (enqueue_descending h m), level_enqueue p h, List.append_assoc]
    exact congrArg (level p q ++ ·) (List.filter_append [m] ms).symm

end LearnLinux.PriorityQueue
