import Mathlib.Algebra.Order.BigOperators.Group.List
import Mathlib.Algebra.Order.Ring.Nat
import Mathlib.Order.Interval.Finset.Nat

/-!
Blocks of addresses and their total size: blocks that share no address and lie in
one range are together no longer than the range.
-/

namespace LearnLinux.AddressSpace

/-- The `size` addresses from `base` on. -/
structure Extent where
  base : Nat
  size : Nat
  deriving DecidableEq, Repr

/-- The blocks share no address. -/
def Extent.Apart (a b : Extent) : Prop :=
  a.size = 0 ∨ b.size = 0 ∨ a.base + a.size ≤ b.base ∨ b.base + b.size ≤ a.base

instance (a b : Extent) : Decidable (a.Apart b) :=
  inferInstanceAs (Decidable (a.size = 0 ∨ b.size = 0 ∨ a.base + a.size ≤ b.base ∨
    b.base + b.size ≤ a.base))

/-- The addresses of a list of blocks. -/
def cover : List Extent → Finset Nat
  | [] => ∅
  | e :: l => Finset.Ico e.base (e.base + e.size) ∪ cover l

theorem mem_cover {l : List Extent} {x : Nat} :
    x ∈ cover l ↔ ∃ e ∈ l, e.base ≤ x ∧ x < e.base + e.size := by
  induction l with
  | nil => simp [cover]
  | cons e l ih => simp [cover, ih]

theorem card_cover {l : List Extent} (h : l.Pairwise Extent.Apart) :
    (cover l).card = (l.map Extent.size).sum := by
  induction l with
  | nil => rfl
  | cons e l ih =>
    obtain ⟨he, hl⟩ := List.pairwise_cons.mp h
    have hdisj : Disjoint (Finset.Ico e.base (e.base + e.size)) (cover l) := by
      rw [Finset.disjoint_left]
      intro x hx hc
      obtain ⟨d, hd, hlo, hhi⟩ := mem_cover.mp hc
      obtain ⟨hlo', hhi'⟩ := Finset.mem_Ico.mp hx
      have hapart := he d hd
      unfold Extent.Apart at hapart
      omega
    rw [cover, Finset.card_union_of_disjoint hdisj, Nat.card_Ico, ih hl, List.map_cons,
      List.sum_cons]
    omega

/-- **Blocks that are apart fit their range.** -/
theorem sum_size_le {l : List Extent} {lo hi : Nat} (h : l.Pairwise Extent.Apart)
    (hb : ∀ e ∈ l, lo ≤ e.base ∧ e.base + e.size ≤ hi) :
    (l.map Extent.size).sum ≤ hi - lo := by
  have hsub : cover l ⊆ Finset.Ico lo hi := by
    intro x hx
    obtain ⟨e, he, hlo, hhi⟩ := mem_cover.mp hx
    have hbe := hb e he
    exact Finset.mem_Ico.mpr ⟨by omega, by omega⟩
  have hcard := Finset.card_le_card hsub
  rwa [card_cover h, Nat.card_Ico] at hcard

/-- Releasing one of the blocks leaves the others. -/
theorem filter_base_perm {l rest : List Extent} {b : Extent} (h : l.Perm (b :: rest))
    (hn : (l.map Extent.base).Nodup) :
    (l.filter fun e => e.base ≠ b.base).Perm rest := by
  have hnodup := (h.map Extent.base).nodup_iff.mp hn
  have hne : ∀ e ∈ rest, decide (e.base ≠ b.base) = true := by
    intro e he
    have hb := (List.nodup_cons.mp hnodup).1
    refine decide_eq_true fun heq => hb ?_
    rw [← heq]
    exact List.mem_map_of_mem he
  have hf := h.filter fun e => decide (e.base ≠ b.base)
  rwa [List.filter_cons_of_neg (by simp), List.filter_eq_self.mpr hne] at hf

end LearnLinux.AddressSpace
