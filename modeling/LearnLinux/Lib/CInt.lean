import Mathlib.Algebra.Order.Ring.Int
import Mathlib.Tactic.Common

/-!
Fixed-width C arithmetic on natural numbers: `size_t` is 64 bits and wraps,
`int` is 32 bits, both little endian in memory. Each operation comes with the
lemma that says when it agrees with the exact one.
-/

namespace LearnLinux.CInt

/-- The number of values of `size_t`. -/
def sizeRange : Nat := 2 ^ 64

/-- `a + b` on `size_t`. -/
def addSize (a b : Nat) : Nat := (a + b) % sizeRange

/-- `a - b` on `size_t`. -/
def subSize (a b : Nat) : Nat := (a + (sizeRange - b % sizeRange)) % sizeRange

/-- The value of a `size_t` converted to `ssize_t`. -/
def toSsize (a : Nat) : Int := (BitVec.ofNat 64 a).toInt

/-- The value of a `size_t` converted to `int`. -/
def toInt (a : Nat) : Int := (BitVec.ofNat 32 a).toInt

theorem addSize_eq (a b : Nat) (h : a + b < sizeRange) : addSize a b = a + b :=
  Nat.mod_eq_of_lt h

theorem subSize_eq (a b : Nat) (hb : b ≤ a) (ha : a < sizeRange) : subSize a b = a - b := by
  unfold subSize
  rw [Nat.mod_eq_of_lt (Nat.lt_of_le_of_lt hb ha)]
  have hs : a + (sizeRange - b) = a - b + sizeRange := by omega
  rw [hs, Nat.add_mod_right]
  exact Nat.mod_eq_of_lt (by omega)

theorem toSsize_eq (a : Nat) (h : a < 2 ^ 63) : toSsize a = a := by
  unfold toSsize
  rw [BitVec.toInt_ofNat', Int.bmod_eq_of_le] <;> omega

theorem toInt_eq (a : Nat) (h : a < 2 ^ 31) : toInt a = a := by
  unfold toInt
  rw [BitVec.toInt_ofNat', Int.bmod_eq_of_le] <;> omega

/-! ## An `int` in memory -/

/-- `sizeof(int)`. -/
def sizeofInt : Nat := 4

/-- Byte `i` of the 32-bit pattern `w`. -/
def byteOf (w i : Nat) : UInt8 := UInt8.ofNat (w / 256 ^ i)

/-- The four bytes of an `int`. -/
def intBytes (v : Int) : List UInt8 :=
  let w := (v % 2 ^ 32).toNat
  [byteOf w 0, byteOf w 1, byteOf w 2, byteOf w 3]

/-- The `int` stored in a byte list, least significant byte first. -/
def intOfBytes (bs : List UInt8) : Int :=
  (BitVec.ofNat 32 (bs.foldr (fun b acc => b.toNat + 256 * acc) 0)).toInt

/-- Reading back what was stored, on the values an `int` has. -/
theorem intOfBytes_intBytes (v : Int) (hl : -2 ^ 31 ≤ v) (hu : v < 2 ^ 31) :
    intOfBytes (intBytes v) = v := by
  have hw : (v % 2 ^ 32).toNat < 2 ^ 32 := by omega
  have hf : (intBytes v).foldr (fun b acc => b.toNat + 256 * acc) 0 = (v % 2 ^ 32).toNat := by
    simp only [intBytes, byteOf, List.foldr_cons, List.foldr_nil, UInt8.toNat_ofNat']
    omega
  have hb : (v % 2 ^ 32).bmod (2 ^ 32) = v.bmod (2 ^ 32) := by
    exact_mod_cast Int.emod_bmod (x := v) (n := 2 ^ 32)
  unfold intOfBytes
  rw [hf, BitVec.toInt_ofNat', Int.toNat_of_nonneg (by omega), hb]
  exact Int.bmod_eq_of_le (by omega) (by omega)

end LearnLinux.CInt
