import Mathlib.Algebra.BigOperators.Group.Finset.Basic
import Mathlib.Algebra.Order.BigOperators.Group.Finset
import Mathlib.Data.Fintype.Basic

/-!
Counting the members of a finite family that are in a given phase, and how the
count moves when the family changes at one member or grows.
-/

namespace LearnLinux.Census

variable {ι σ : Type*} [Fintype ι]

/-- The number of `t` with `p (f t)`. -/
def census (p : σ → Bool) (f : ι → σ) : Nat := ∑ t, (p (f t)).toNat

theorem census_pos_iff (p : σ → Bool) (f : ι → σ) :
    0 < census p f ↔ ∃ t, p (f t) = true := by
  rw [Nat.pos_iff_ne_zero, census, Ne, Finset.sum_eq_zero_iff]
  constructor
  · intro h
    by_contra hn
    apply h
    intro t _
    cases hp : p (f t) with
    | false => rfl
    | true => exact absurd ⟨t, hp⟩ hn
  · rintro ⟨t, ht⟩ h
    have h0 := h t (Finset.mem_univ t)
    rw [ht] at h0
    exact absurd h0 (by decide)

theorem census_eq_zero_iff (p : σ → Bool) (f : ι → σ) :
    census p f = 0 ↔ ∀ t, p (f t) = false := by
  have h := census_pos_iff p f
  constructor
  · intro h0 t
    cases hp : p (f t) with
    | false => rfl
    | true =>
      have := h.mpr ⟨t, hp⟩
      omega
  · intro hall
    by_contra hne
    obtain ⟨t, ht⟩ := h.mp (Nat.pos_of_ne_zero hne)
    exact absurd (hall t) (by simp [ht])

/-- Two sums that agree away from `t` differ by what `t` contributes. -/
theorem sum_off [DecidableEq ι] (f g : ι → Nat) (t : ι) (h : ∀ u, u ≠ t → g u = f u) :
    ∑ u, g u + f t = ∑ u, f u + g t := by
  have hrest : ∑ u ∈ Finset.univ.erase t, g u = ∑ u ∈ Finset.univ.erase t, f u := by
    apply Finset.sum_congr rfl
    intro u hu
    rw [h u (Finset.ne_of_mem_erase hu)]
  have hg := Finset.add_sum_erase Finset.univ g (Finset.mem_univ t)
  have hf := Finset.add_sum_erase Finset.univ f (Finset.mem_univ t)
  omega

/-- A sum over a family that changes at `t`. -/
theorem sum_update [DecidableEq ι] (w : σ → Nat) (f : ι → σ) (t : ι) (x : σ) :
    ∑ u, w (Function.update f t x u) + w (f t) = ∑ u, w (f u) + w x := by
  have hoff := sum_off (fun u => w (f u)) (fun u => w (Function.update f t x u)) t
    fun u hu => by rw [Function.update_of_ne hu]
  simpa only [Function.update_self] using hoff

/-- Two families that agree away from `t` differ by what `t` contributes. -/
theorem census_off [DecidableEq ι] (p : σ → Bool) (f g : ι → σ) (t : ι)
    (h : ∀ u, u ≠ t → p (g u) = p (f u)) :
    census p g + (p (f t)).toNat = census p f + (p (g t)).toNat := by
  apply sum_off (fun u => (p (f u)).toNat) (fun u => (p (g u)).toNat) t
  intro u hu
  rw [h u hu]

/-- The count grows when no member leaves the phase and `t` enters it. -/
theorem census_lt (p : σ → Bool) (f g : ι → σ) (h : ∀ t, p (f t) = true → p (g t) = true)
    (t : ι) (hf : p (f t) = false) (hg : p (g t) = true) : census p f < census p g := by
  apply Finset.sum_lt_sum
  · intro u _
    cases hp : p (f u) with
    | false => exact Nat.zero_le _
    | true => rw [h u hp]
  · exact ⟨t, Finset.mem_univ t, by simp [hf, hg]⟩

end LearnLinux.Census
