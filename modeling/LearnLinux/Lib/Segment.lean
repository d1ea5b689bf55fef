import Mathlib.Data.List.Basic

/-!
Byte ranges of a buffer, for any element type. `slice` reads a range and
`blit` overwrites one, as `memcpy` and `memmove` do. A `blit` that leaves the
buffer makes the list longer, so an out-of-bounds store is visible as a changed
length and is never cut off silently.
-/

namespace LearnLinux.Segment

variable {α : Type*}

/-- The `len` elements of `xs` from offset `off` on. -/
def slice (xs : List α) (off len : Nat) : List α := (xs.drop off).take len

/-- `xs` with `ys` stored from offset `off` on. -/
def blit (xs : List α) (off : Nat) (ys : List α) : List α :=
  xs.take off ++ ys ++ xs.drop (off + ys.length)

theorem length_slice (xs : List α) (off len : Nat) (h : off + len ≤ xs.length) :
    (slice xs off len).length = len := by
  simp only [slice, List.length_take, List.length_drop]
  omega

@[simp] theorem slice_zero (xs : List α) (len : Nat) : slice xs 0 len = xs.take len := by
  simp [slice]

theorem length_blit (xs ys : List α) (off : Nat) (h : off + ys.length ≤ xs.length) :
    (blit xs off ys).length = xs.length := by
  simp only [blit, List.length_append, List.length_take, List.length_drop]
  omega

theorem le_length_blit (xs ys : List α) (off : Nat) (ho : off ≤ xs.length) :
    off + ys.length ≤ (blit xs off ys).length := by
  simp only [blit, List.length_append, List.length_take, List.length_drop]
  omega

/-- A store leaves everything before its offset alone. -/
theorem take_blit_of_le (xs ys : List α) (off k : Nat) (hk : k ≤ off) (ho : off ≤ xs.length) :
    (blit xs off ys).take k = xs.take k := by
  have hl : k ≤ (xs.take off).length := by
    rw [List.length_take]
    omega
  rw [blit, List.append_assoc, List.take_append_of_le_length hl, List.take_take,
    Nat.min_eq_left hk]

/-- The prefix that ends with the stored range. -/
theorem take_blit_end (xs ys : List α) (off : Nat) (ho : off ≤ xs.length) :
    (blit xs off ys).take (off + ys.length) = xs.take off ++ ys := by
  have hl : (xs.take off ++ ys).length = off + ys.length := by
    simp only [List.length_append, List.length_take]
    omega
  rw [blit, ← hl, List.take_left]

/-- Reading back the stored range. -/
theorem slice_blit (xs ys : List α) (off : Nat) (ho : off ≤ xs.length) :
    slice (blit xs off ys) off ys.length = ys := by
  have hl : (xs.take off).length = off := by
    rw [List.length_take]
    omega
  have hd : slice (blit xs off ys) off ys.length =
      ((blit xs off ys).take (off + ys.length)).drop off := by
    rw [List.drop_take, Nat.add_sub_cancel_left, slice]
  rw [hd, take_blit_end xs ys off ho, List.drop_left' hl]

/-- Shifting `[n, n + m)` to the front of the buffer drops `n` elements from the
prefix of length `n + m`. -/
theorem take_blit_shift (xs : List α) (n m : Nat) (h : n + m ≤ xs.length) :
    (blit xs 0 (slice xs n m)).take m = (xs.take (n + m)).drop n := by
  have hs := take_blit_end xs (slice xs n m) 0 (Nat.zero_le _)
  rw [length_slice xs n m h, Nat.zero_add] at hs
  rw [hs, List.take_zero, List.nil_append, slice, List.drop_take, Nat.add_sub_cancel_left]

/-- An entry of the image of a prefix comes from the entry at the same place. -/
theorem getElem?_map_take {β : Type*} {f : α → β} {xs : List α} {k i : Nat} {y : β}
    (h : ((xs.take k).map f)[i]? = some y) : ∃ x, xs[i]? = some x ∧ y = f x := by
  rw [List.getElem?_map] at h
  obtain ⟨x, hx, rfl⟩ := Option.map_eq_some_iff.mp h
  rw [List.getElem?_take] at hx
  split at hx
  · exact ⟨x, hx, rfl⟩
  · cases hx

theorem length_flatMap_le {β : Type*} {xs : List β} {f g : β → List α}
    (hle : ∀ x ∈ xs, (f x).length ≤ (g x).length) :
    (xs.flatMap f).length ≤ (xs.flatMap g).length := by
  induction xs with
  | nil => exact Nat.le_refl _
  | cons x xs ih =>
    obtain ⟨hx, hxs⟩ := List.forall_mem_cons.mp hle
    rw [List.flatMap_cons, List.flatMap_cons, List.length_append, List.length_append]
    exact Nat.add_le_add hx (ih hxs)

/-- Pieces that are together as long as what they stand for, and none of them longer,
are all whole. -/
theorem flatMap_eq_flatMap_iff {β : Type*} {xs : List β} {f g : β → List α}
    (hle : ∀ x ∈ xs, (f x).length ≤ (g x).length) :
    xs.flatMap f = xs.flatMap g ↔ ∀ x ∈ xs, f x = g x := by
  refine ⟨fun h => ?_, fun h => List.flatMap_congr h⟩
  induction xs with
  | nil =>
    intro x hx
    cases hx
  | cons x xs ih =>
    obtain ⟨hx, hxs⟩ := List.forall_mem_cons.mp hle
    rw [List.flatMap_cons, List.flatMap_cons] at h
    have hlen : (f x).length = (g x).length := by
      have htotal := congrArg List.length h
      rw [List.length_append, List.length_append] at htotal
      have hrest := length_flatMap_le hxs
      omega
    obtain ⟨hfx, hfxs⟩ := List.append_inj h hlen
    exact List.forall_mem_cons.mpr ⟨hfx, ih hxs hfxs⟩

end LearnLinux.Segment
