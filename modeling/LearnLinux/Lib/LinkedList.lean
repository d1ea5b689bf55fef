import Mathlib.Data.List.Nodup
import Mathlib.Logic.Function.Basic

/-!
Singly linked lists in a heap, for any type of cell with a `next` field; address 0
is the null pointer. `Chain` lists the cells from a pointer on, with their addresses.
A chain depends on its own cells only, it is determined by the addresses and data of
its cells, and a cell is taken out of it by redirecting the pointer that leads to it.
-/

namespace LearnLinux.LinkedList

variable {κ : Type*} (next : κ → Nat)

/-- The nodes met from pointer `p` on. -/
inductive Chain (heap : Nat → Option κ) : Nat → List (Nat × κ) → Prop
  | nil : Chain heap 0 []
  | cons {a : Nat} {c : κ} {nodes : List (Nat × κ)} :
      a ≠ 0 → heap a = some c → Chain heap (next c) nodes → Chain heap a ((a, c) :: nodes)

variable {next} {heap heap' : Nat → Option κ} {p : Nat} {nodes : List (Nat × κ)}

theorem Chain.cons_inv {n : Nat × κ} (h : Chain next heap p (n :: nodes)) :
    p = n.1 ∧ p ≠ 0 ∧ heap n.1 = some n.2 ∧ Chain next heap (next n.2) nodes := by
  cases h with
  | cons h0 hc hr => exact ⟨rfl, h0, hc, hr⟩

theorem Chain.null_iff (h : Chain next heap p nodes) : p = 0 ↔ nodes = [] := by
  cases h with
  | nil => simp
  | cons h0 _ _ => simp [h0]

theorem Chain.mem {n : Nat × κ} (h : Chain next heap p nodes) (hn : n ∈ nodes) :
    heap n.1 = some n.2 := by
  induction h with
  | nil => cases hn
  | cons _ hc _ ih =>
    rcases List.mem_cons.mp hn with rfl | hn
    · exact hc
    · exact ih hn

theorem Chain.unique {nodes' : List (Nat × κ)} (h : Chain next heap p nodes)
    (h' : Chain next heap p nodes') : nodes = nodes' := by
  induction h generalizing nodes' with
  | nil => exact (h'.null_iff.mp rfl).symm
  | @cons a c nodes h0 hc _ ih =>
    cases h' with
    | nil => exact absurd rfl h0
    | @cons _ c' nodes' _ hc' hrest =>
      rw [hc] at hc'
      cases hc'
      rw [ih hrest]

/-- The links carry no information of their own: two chains with the same addresses and
the same data are one list, also in different heaps. -/
theorem Chain.eq_of_data {δ : Type*} {data : κ → δ} {p' : Nat} {nodes' : List (Nat × κ)}
    (hdata : ∀ c c', data c = data c' → next c = next c' → c = c')
    (h : Chain next heap p nodes) (h' : Chain next heap' p' nodes')
    (he : nodes.map (Prod.map id data) = nodes'.map (Prod.map id data)) :
    p = p' ∧ nodes = nodes' := by
  induction h generalizing p' nodes' with
  | nil =>
    cases h' with
    | nil => exact ⟨rfl, rfl⟩
    | cons _ _ _ => simp at he
  | @cons a c nodes h0 hc _ ih =>
    cases h' with
    | nil => simp at he
    | @cons _ c' nodes' _ _ hrest =>
      rw [List.map_cons, List.map_cons, List.cons.injEq, Prod.map_apply, Prod.map_apply,
        Prod.mk.injEq] at he
      obtain ⟨⟨ha, hd⟩, hnodes⟩ := he
      obtain ⟨hnext, rfl⟩ := ih hrest hnodes
      have hp : a = p' := ha
      rw [hp, hdata c c' hd hnext]
      exact ⟨rfl, rfl⟩

/-- **Frame rule.** -/
theorem Chain.frame (h : Chain next heap p nodes) (hf : ∀ n ∈ nodes, heap' n.1 = heap n.1) :
    Chain next heap' p nodes := by
  induction h with
  | nil => exact .nil
  | @cons a c nodes h0 hc _ ih =>
    refine .cons h0 ?_ (ih fun n hn => hf n (List.mem_cons_of_mem _ hn))
    rw [hf (a, c) List.mem_cons_self, hc]

/-- **Unlinking.** The cell `c` at `r` is taken out by giving its predecessor, at
`a`, the successor of `c`. -/
theorem Chain.unlink {pre post : List (Nat × κ)} {a r : Nat} {ca ca' c : κ}
    (h : Chain next heap p (pre ++ (a, ca) :: (r, c) :: post)) (hnext : next ca' = next c)
    (ha : heap' a = some ca') (hf : ∀ n ∈ pre ++ post, heap' n.1 = heap n.1) :
    Chain next heap' p (pre ++ (a, ca') :: post) := by
  induction pre generalizing p with
  | nil =>
    obtain ⟨rfl, h0, -, hrest⟩ := h.cons_inv
    obtain ⟨-, -, -, hpost⟩ := hrest.cons_inv
    refine .cons h0 ha ?_
    rw [hnext]
    exact hpost.frame hf
  | cons n pre ih =>
    obtain ⟨rfl, h0, hn, hrest⟩ := h.cons_inv
    refine .cons h0 ?_ (ih hrest fun m hm => hf m (List.mem_cons_of_mem _ hm))
    rw [hf n List.mem_cons_self, hn]

end LearnLinux.LinkedList
