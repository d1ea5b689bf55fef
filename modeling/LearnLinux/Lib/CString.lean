import LearnLinux.Lib.Segment
import Mathlib.Data.List.TakeWhile

/-!
NUL-terminated strings in a byte buffer: reading with `%s`, and the store that
`snprintf` makes, which cuts the text to the size of the buffer and terminates it.
-/

namespace LearnLinux.CString

open Segment

/-- The bytes of an ASCII text. -/
def bytes (text : String) : List UInt8 := text.toList.map fun c => UInt8.ofNat c.toNat

/-- What `%s` prints from a buffer. -/
def cString (buf : List UInt8) : List UInt8 := buf.takeWhile fun b => b ≠ 0

/-- The buffer after `snprintf(buf, size, …)` of a text, for `0 < size`. -/
def snprintf (buf : List UInt8) (size : Nat) (text : List UInt8) : List UInt8 :=
  blit buf 0 (text.take (size - 1) ++ [0])

/-- A text without NUL is read back up to the size of the buffer. -/
theorem cString_snprintf (buf : List UInt8) (size : Nat) (text : List UInt8)
    (h : ∀ b ∈ text, b ≠ 0) : cString (snprintf buf size text) = text.take (size - 1) := by
  have htake : ∀ b ∈ text.take (size - 1), decide (b ≠ 0) = true := by
    intro b hb
    exact decide_eq_true (h b (List.mem_of_mem_take hb))
  rw [snprintf, blit, List.take_zero, List.nil_append, cString, List.append_assoc,
    List.takeWhile_append_of_pos htake]
  simp

/-- What stands behind a NUL does not matter. -/
theorem cString_append_nul (xs ys : List UInt8) : cString (xs ++ 0 :: ys) = cString xs := by
  induction xs with
  | nil => rfl
  | cons x xs ih =>
    unfold cString at ih ⊢
    by_cases hx : x = 0
    · simp [hx]
    · simp only [List.cons_append, List.takeWhile_cons, ih]

/-- What a terminated buffer holds in front of its terminator. -/
theorem cString_terminated (xs : List UInt8) : cString (xs ++ [0]) = cString xs :=
  cString_append_nul xs []

/-- What was read to the front of a buffer and terminated. -/
theorem cString_terminate (buf data : List UInt8) :
    cString (blit (blit buf 0 data) data.length [0]) = cString data := by
  have htake : (blit buf 0 data).take data.length = data := by
    have := take_blit_end buf data 0 (Nat.zero_le _)
    rwa [Nat.zero_add, List.take_zero, List.nil_append] at this
  rw [blit, htake, List.append_assoc, List.singleton_append, cString_append_nul]

theorem length_cString_le (xs : List UInt8) : (cString xs).length ≤ xs.length :=
  (List.takeWhile_prefix _).length_le

theorem cString_eq_self_iff {xs : List UInt8} : cString xs = xs ↔ 0 ∉ xs := by
  rw [cString, List.takeWhile_eq_self_iff]
  constructor
  · intro h h0
    simpa using h 0 h0
  · intro h b hb
    refine decide_eq_true ?_
    rintro rfl
    exact h hb

/-- A text that fits is in the buffer as it is. -/
theorem take_snprintf (buf : List UInt8) {size : Nat} {text : List UInt8}
    (h : text.length ≤ size - 1) : (snprintf buf size text).take text.length = text := by
  rw [snprintf, List.take_of_length_le h, blit, List.take_zero, List.nil_append,
    List.append_assoc, List.take_left]

theorem bytes_append (s t : String) : bytes (s ++ t) = bytes s ++ bytes t := by
  simp [bytes]

/-- Decimal digits hold no NUL. -/
theorem bytes_toString_ne_zero (n : Nat) : ∀ b ∈ bytes (toString n), b ≠ 0 := by
  intro b hb
  obtain ⟨c, hc, rfl⟩ := List.mem_map.mp hb
  rw [Nat.toString_eq_repr, Nat.toList_repr] at hc
  have hdigit := Nat.isDigit_of_mem_toDigits (by decide) (by decide) hc
  obtain ⟨hlo, hhi⟩ := Char.isDigit_iff_toNat.mp hdigit
  have hlo' : 48 ≤ c.toNat := hlo
  have hhi' : c.toNat ≤ 57 := hhi
  intro h0
  have hval : (UInt8.ofNat c.toNat).toNat = 0 := by rw [h0]; rfl
  rw [UInt8.toNat_ofNat', Nat.mod_eq_of_lt (by omega)] at hval
  omega

end LearnLinux.CString
