import Mathlib.Data.List.Basic
import Mathlib.Logic.Function.Basic

/-!
Circular buffers over an array `data`, for any element type and capacity. Slot `i`
after `head` is `(head + i) % cap`, and `window` lists the `count` slots from `head`
on. Two slots less than one revolution apart are different (`slot_ne`), so a store
behind a window that is not full leaves the window alone. `Spsc` is the ring of one
writer and one reader that share no lock.
-/

namespace LearnLinux.RingBuffer

variable {α : Type*} {cap : Nat}

/-- The `count` slots from `head` on, in order. -/
def window (cap : Nat) (data : Nat → α) (head count : Nat) : List α :=
  (List.range count).map fun i => data ((head + i) % cap)

@[simp] theorem length_window (cap : Nat) (data : Nat → α) (head count : Nat) :
    (window cap data head count).length = count := by
  simp [window]

theorem slot_ne (head i j : Nat) (hij : i < j) (hj : j < i + cap) :
    (head + i) % cap ≠ (head + j) % cap := by
  intro h
  have hd := Nat.sub_mod_eq_zero_of_mod_eq h.symm
  rw [show head + j - (head + i) = j - i by omega, Nat.mod_eq_of_lt (by omega)] at hd
  omega

/-- The slot behind a window that is not full is none of its slots. -/
theorem tail_not_in_window (head count i : Nat) (hc : count < cap) (hi : i < count) :
    (head + i) % cap ≠ (head + count) % cap :=
  slot_ne head i count hi (by omega)

/-- A store behind the window appends to it. -/
theorem window_push (data : Nat → α) (head count : Nat) (v : α) (hc : count < cap) :
    window cap (Function.update data ((head + count) % cap) v) head (count + 1) =
      window cap data head count ++ [v] := by
  have hold : ∀ i ∈ List.range count,
      Function.update data ((head + count) % cap) v ((head + i) % cap) =
        data ((head + i) % cap) := by
    intro i hi
    rw [Function.update_of_ne (tail_not_in_window head count i hc (List.mem_range.mp hi))]
  simp only [window, List.range_succ, List.map_append, List.map_cons, List.map_nil,
    Function.update_self]
  rw [List.map_congr_left hold]

/-- Moving `head` by one slot takes the first element off the window. -/
theorem window_pop (data : Nat → α) (head count : Nat) (hh : head < cap) :
    window cap data head (count + 1) =
      data head :: window cap data ((head + 1) % cap) count := by
  have hshift : ∀ i ∈ List.range count,
      data ((head + (i + 1)) % cap) = data (((head + 1) % cap + i) % cap) := by
    intro i _
    rw [Nat.mod_add_mod, Nat.add_assoc, Nat.add_comm 1 i]
  unfold window
  rw [List.range_succ_eq_map, List.map_cons, List.map_map, Nat.add_zero, Nat.mod_eq_of_lt hh]
  congr 1
  exact List.map_congr_left hshift

/-! ## One writer, one reader -/

/-- The slots, which of them hold a value that was not loaded yet, the next slot to
load and to store, and everything stored and loaded so far. -/
structure Spsc (α : Type*) where
  data : Nat → α
  unread : Nat → Bool
  front : Nat
  back : Nat
  stored : List α
  loaded : List α

def Spsc.put (cap : Nat) (r : Spsc α) (v : α) : Spsc α where
  data := Function.update r.data r.back v
  unread := Function.update r.unread r.back true
  front := r.front
  back := (r.back + 1) % cap
  stored := r.stored ++ [v]
  loaded := r.loaded

def Spsc.get (cap : Nat) (r : Spsc α) : Spsc α where
  data := r.data
  unread := Function.update r.unread r.front false
  front := (r.front + 1) % cap
  back := r.back
  stored := r.stored
  loaded := r.loaded ++ [r.data r.front]

/-- With `len` unread values, they are the `len` slots from `front` on. -/
structure Spsc.Sound (cap : Nat) (r : Spsc α) (len : Nat) : Prop where
  front : r.front < cap
  back : r.back = (r.front + len) % cap
  law : r.loaded ++ window cap r.data r.front len = r.stored
  unread : ∀ slot, r.unread slot = true ↔ ∃ i < len, slot = (r.front + i) % cap

theorem Spsc.Sound.length {r : Spsc α} {len : Nat} (h : r.Sound cap len) :
    r.loaded.length + len = r.stored.length := by
  rw [← h.law, List.length_append, length_window]

/-- The next slot to store to holds nothing unread while there is room. -/
theorem Spsc.Sound.back_read {r : Spsc α} {len : Nat} (h : r.Sound cap len) (hlt : len < cap) :
    r.unread r.back = false := by
  by_contra hne
  obtain ⟨i, hi, hslot⟩ := (h.unread r.back).mp (by simpa using hne)
  rw [h.back] at hslot
  exact tail_not_in_window r.front len i hlt hi hslot.symm

/-- The next slot to load holds an unread value if there is one. -/
theorem Spsc.Sound.front_unread {r : Spsc α} {len : Nat} (h : r.Sound cap len) (hpos : 0 < len) :
    r.unread r.front = true :=
  (h.unread r.front).mpr ⟨0, hpos, by rw [Nat.add_zero, Nat.mod_eq_of_lt h.front]⟩

theorem Spsc.Sound.put {r : Spsc α} {len : Nat} (h : r.Sound cap len) (hlt : len < cap) (v : α) :
    (r.put cap v).Sound cap (len + 1) := by
  refine ⟨h.front, ?_, ?_, ?_⟩
  · simp only [Spsc.put]
    rw [h.back, Nat.mod_add_mod, Nat.add_assoc]
  · simp only [Spsc.put]
    rw [h.back, window_push r.data r.front len v hlt, ← List.append_assoc, h.law]
  · intro slot
    simp only [Spsc.put]
    constructor
    · intro hu
      by_cases hs : slot = r.back
      · exact ⟨len, Nat.lt_succ_self len, by rw [hs, h.back]⟩
      · rw [Function.update_of_ne hs] at hu
        obtain ⟨i, hi, rfl⟩ := (h.unread slot).mp hu
        exact ⟨i, Nat.lt_succ_of_lt hi, rfl⟩
    · rintro ⟨i, hi, rfl⟩
      rcases Nat.lt_succ_iff_lt_or_eq.mp hi with hi | rfl
      · have hne : (r.front + i) % cap ≠ r.back := by
          rw [h.back]
          exact tail_not_in_window r.front len i hlt hi
        rw [Function.update_of_ne hne]
        exact (h.unread _).mpr ⟨i, hi, rfl⟩
      · rw [← h.back, Function.update_self]

theorem Spsc.Sound.get {r : Spsc α} {len : Nat} (h : r.Sound cap (len + 1)) (hle : len < cap) :
    (r.get cap).Sound cap len := by
  have hshift : ∀ i, (r.front + (i + 1)) % cap = ((r.front + 1) % cap + i) % cap := by
    intro i
    rw [Nat.mod_add_mod, Nat.add_assoc, Nat.add_comm 1 i]
  refine ⟨Nat.mod_lt _ (Nat.zero_lt_of_lt hle), ?_, ?_, ?_⟩
  · simp only [Spsc.get]
    rw [h.back, hshift]
  · have hlaw := h.law
    rw [window_pop r.data r.front len h.front] at hlaw
    simp only [Spsc.get]
    rw [List.append_assoc, List.singleton_append, hlaw]
  · intro slot
    have hfront : (r.front + 0) % cap = r.front := Nat.mod_eq_of_lt h.front
    simp only [Spsc.get]
    constructor
    · intro hu
      have hne : slot ≠ r.front := by
        rintro rfl
        rw [Function.update_self] at hu
        cases hu
      rw [Function.update_of_ne hne] at hu
      obtain ⟨i, hi, rfl⟩ := (h.unread slot).mp hu
      cases i with
      | zero => exact absurd hfront hne
      | succ i => exact ⟨i, Nat.lt_of_succ_lt_succ hi, hshift i⟩
    · rintro ⟨i, hi, rfl⟩
      have hne : ((r.front + 1) % cap + i) % cap ≠ r.front := by
        have hslot := @slot_ne cap r.front 0 (i + 1) (Nat.succ_pos i) (by omega)
        rw [hfront, hshift] at hslot
        exact hslot.symm
      rw [Function.update_of_ne hne]
      exact (h.unread _).mpr ⟨i + 1, Nat.succ_lt_succ hi, (hshift i).symm⟩

end LearnLinux.RingBuffer
