import Mathlib.Algebra.BigOperators.Group.Finset.Piecewise
import Mathlib.Data.Fintype.Basic

/-!
Logs whose entries are tagged with who made them. `entriesOf t` is the part of a
log made by `t`, and counts over the whole log are sums over the tags.
-/

namespace LearnLinux.Tagged

variable {ι γ : Type*} [DecidableEq ι]

/-- The entries of `t`, in order. -/
def entriesOf (t : ι) (log : List (ι × γ)) : List γ :=
  (log.filter fun e => e.1 = t).map Prod.snd

@[simp] theorem entriesOf_snoc_self (t : ι) (log : List (ι × γ)) (x : γ) :
    entriesOf t (log ++ [(t, x)]) = entriesOf t log ++ [x] := by
  simp [entriesOf]

theorem entriesOf_snoc_of_ne {t u : ι} (h : u ≠ t) (log : List (ι × γ)) (x : γ) :
    entriesOf u (log ++ [(t, x)]) = entriesOf u log := by
  simp [entriesOf, h.symm]

theorem mem_entriesOf (t : ι) (log : List (ι × γ)) (x : γ) :
    x ∈ entriesOf t log ↔ (t, x) ∈ log := by
  simp [entriesOf]

theorem entriesOf_sublist (t : ι) (log : List (ι × γ)) :
    (entriesOf t log).Sublist (log.map Prod.snd) :=
  List.filter_sublist.map Prod.snd

/-- A log made by `t` alone. -/
theorem entriesOf_eq_map (t : ι) (log : List (ι × γ)) (h : ∀ e ∈ log, e.1 = t) :
    entriesOf t log = log.map Prod.snd := by
  unfold entriesOf
  rw [List.filter_eq_self.mpr (by simpa using h)]

/-- When the entries show who made them, the part of `t` is a filter of the log. -/
theorem entriesOf_eq_filter (t : ι) (log : List (ι × γ)) (p : γ → Bool)
    (h : ∀ e ∈ log, (e.1 = t ↔ p e.2 = true)) :
    entriesOf t log = (log.map Prod.snd).filter p := by
  unfold entriesOf
  rw [List.filter_map]
  congr 1
  apply List.filter_congr
  intro e he
  have := h e he
  cases hp : p e.2 with
  | false => simpa [hp] using this
  | true => simpa [hp] using this

/-- **Counting by tag.** -/
theorem countP_eq_sum [Fintype ι] (p : γ → Bool) (log : List (ι × γ)) :
    (log.map Prod.snd).countP p = ∑ t, (entriesOf t log).countP p := by
  induction log with
  | nil => simp [entriesOf]
  | cons e log ih =>
    have hsum : ∀ t, (entriesOf t (e :: log)).countP p =
        (if t = e.1 then (if p e.2 then 1 else 0) else 0) + (entriesOf t log).countP p := by
      intro t
      by_cases ht : t = e.1
      · simp only [entriesOf, ht, List.filter_cons, decide_true, if_true, List.map_cons,
          List.countP_cons]
        omega
      · have hne : ¬ e.1 = t := fun h => ht h.symm
        simp [entriesOf, ht, hne]
    simp only [hsum, Finset.sum_add_distrib, Finset.sum_ite_eq', Finset.mem_univ, if_true,
      List.map_cons, List.countP_cons, ih]
    omega

end LearnLinux.Tagged
