import LearnLinux.Lib.Segment
import Mathlib.Algebra.Order.Ring.Nat
import Mathlib.Data.List.SplitLengths

/-!
An open regular file: its contents and the position of the next transfer, over any type of bytes.
A `write` takes some of its bytes, a `read` returns some of what is ahead. Vectored transfers are
plain ones of the joined buffers, and `List.splitLengths` spreads what was read over the buffers.
-/

namespace LearnLinux.OpenFile

open Segment

variable {α : Type*}

structure File (α : Type*) where
  contents : List α
  pos : Nat
  deriving DecidableEq, Repr

/-- A file that was created or truncated. -/
def File.empty : File α := ⟨[], 0⟩

/-- A `write` of `xs` that takes `k` bytes of it, none when it fails. -/
def File.write (f : File α) (xs : List α) (k : Nat) : File α :=
  ⟨blit f.contents f.pos (xs.take k), f.pos + (xs.take k).length⟩

/-- `lseek` to an absolute position. -/
def File.seek (f : File α) (pos : Nat) : File α := { f with pos := pos }

/-- What a `read` of `count` bytes returns: `none` when it fails, at most `k` bytes otherwise. -/
def File.read (f : File α) (count : Nat) (got : Option Nat) : Option (List α) :=
  got.map fun k => (slice f.contents f.pos count).take k

/-- Several writes, each with the number of bytes that it takes. -/
def File.writeAll (f : File α) (writes : List (List α × Nat)) : File α :=
  writes.foldl (fun f w => f.write w.1 w.2) f

/-- The bytes that the writes take. -/
def taken (writes : List (List α × Nat)) : List α := writes.flatMap fun w => w.1.take w.2

theorem write_append {f : File α} (h : f.pos = f.contents.length) (xs : List α) (k : Nat) :
    f.write xs k = ⟨f.contents ++ xs.take k, (f.contents ++ xs.take k).length⟩ := by
  have hdrop : f.contents.drop (f.contents.length + (xs.take k).length) = [] :=
    List.drop_eq_nil_of_le (Nat.le_add_right _ _)
  rw [File.write, h, blit, List.take_length, hdrop, List.append_nil, List.length_append]

/-- Writes at the end of a file append what they take. -/
theorem writeAll_append (writes : List (List α × Nat)) {f : File α}
    (h : f.pos = f.contents.length) :
    f.writeAll writes = ⟨f.contents ++ taken writes, (f.contents ++ taken writes).length⟩ := by
  induction writes generalizing f with
  | nil =>
    simp only [File.writeAll, taken, List.foldl_nil, List.flatMap_nil, List.append_nil]
    rw [← h]
  | cons w writes ih =>
    have hw := write_append h w.1 w.2
    have hstep : f.writeAll (w :: writes) = (f.write w.1 w.2).writeAll writes := rfl
    rw [hstep, ih (by rw [hw]), hw]
    simp only [taken, List.flatMap_cons, List.append_assoc]

/-- **Scatter after gather.** Of the first `k` bytes of the joined buffers, each buffer gets back
what is left for it behind the buffers in front of it. -/
theorem getElem?_splitLengths_take (bufs : List (List α)) (k i : Nat) :
    ((bufs.map List.length).splitLengths (bufs.flatten.take k))[i]? =
      bufs[i]?.map (List.take (k - ((bufs.take i).map List.length).sum)) := by
  induction bufs generalizing k i with
  | nil => rfl
  | cons b bufs ih =>
    rw [List.map_cons, List.flatten_cons, List.splitLengths_cons]
    cases i with
    | zero =>
      have htake : ((b ++ bufs.flatten).take k).take b.length = b.take k := by
        rw [List.take_take, Nat.min_comm, ← List.take_take, List.take_left]
      simp [htake]
    | succ i =>
      have hdrop : ((b ++ bufs.flatten).take k).drop b.length =
          bufs.flatten.take (k - b.length) := by
        rw [List.drop_take, List.drop_left]
      rw [hdrop, List.getElem?_cons_succ, List.getElem?_cons_succ, ih, List.take_succ_cons,
        List.map_cons, List.sum_cons, Nat.sub_add_eq]

end LearnLinux.OpenFile
