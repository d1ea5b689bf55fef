import LearnLinux.Lib.CString
import LearnLinux.Lib.OpenFile

/-!
# The files of `06_file_io/fileio_demo.c`

`demo_basic_fileio` writes lines and reads them back, `demo_sendfile` copies a file inside the
kernel, and `demo_scatter_gather` writes several buffers with one `writev` and reads them back
with one `readv`. None of them looks at what `write`, `read`, `writev` or `readv` return, so the
kernel may take or return less than it was asked for, or nothing. The last two do not look at
`open` either; a descriptor of -1 makes every transfer fail.

`scatter_gather_round_trip`: what the buffers show in every such case, for any texts, and when they
all show their own. `basic_fileio_reads_back` and `sendfile_copies` are the same for the others.
-/

namespace LearnLinux.Files

open CString OpenFile Segment

/-! ## The demos -/

/-- What `demo_basic_fileio` prints. The terminator is stored at `buf[n]`. -/
structure Shown where
  n : Int
  text : List UInt8
  size : Nat
  deriving DecidableEq, Repr

/-- `writes` holds the lines with what `write` takes of each, and `buf` what is on the stack. A
terminator at `buf[-1]` leaves `buf` as it is. -/
def demoBasicFileio (writes : List (List UInt8 × Nat)) (got : Option Nat) (buf : List UInt8) :
    Shown :=
  let f := File.empty.writeAll writes
  match (f.seek 0).read 255 got with
  | none => ⟨-1, cString buf, f.contents.length⟩
  | some data => ⟨data.length, cString (blit (blit buf 0 data) data.length [0]), f.contents.length⟩

/-- The destination, and what `sendfile` returned; it is asked for `st_size` bytes. -/
def demoSendfile (writes : List (List UInt8 × Nat)) (got : Option Nat) : List UInt8 × Int :=
  let src := (File.empty.writeAll writes).contents
  match (File.mk src 0).read src.length got with
  | none => ([], -1)
  | some data => ((File.empty.write data data.length).contents, data.length)

/-- The buffers `r1`, `r2`, … with their terminators, for the texts `h1`, `h2`, … of which `writev`
takes `k` bytes; `rs` is what they held before. -/
def demoScatterGather (hs : List (List UInt8)) (k : Nat) (got : Option Nat)
    (rs : List (List UInt8)) : List (List UInt8) :=
  let f := File.empty.write hs.flatten k
  let data := ((f.seek 0).read (hs.map List.length).sum got).getD []
  let filled := List.zipWith (blit · 0 ·) rs ((hs.map List.length).splitLengths data)
  List.zipWith (fun r h => blit r h.length [0]) filled hs

/-! ## What comes back -/

theorem contents_writeAll (writes : List (List UInt8 × Nat)) :
    (File.empty.writeAll writes).contents = taken writes := by
  rw [writeAll_append writes rfl]
  rfl

theorem contents_write (xs : List UInt8) (k : Nat) :
    (File.empty.write xs k).contents = xs.take k := by
  rw [write_append rfl]
  rfl

theorem read_seek_zero (f : File UInt8) (count k : Nat) :
    (f.seek 0).read count (some k) = some (f.contents.take (min k count)) := by
  rw [File.read, Option.map_some, File.seek, slice_zero, List.take_take]

/-- The bytes that make it into the file and back. -/
def carried (k : Nat) (got : Option Nat) : Nat := min (got.getD 0) k

theorem scatterGather_data (hs : List (List UInt8)) (k : Nat) (got : Option Nat) :
    (((File.empty.write hs.flatten k).seek 0).read (hs.map List.length).sum got).getD [] =
      hs.flatten.take (carried k got) := by
  cases got with
  | none => simp [File.read, carried]
  | some m =>
    rw [read_seek_zero, contents_write, Option.getD_some, List.take_take, carried,
      Option.getD_some, ← List.length_flatten]
    rcases Nat.le_total m hs.flatten.length with hle | hle
    · rw [Nat.min_eq_left hle]
    · rw [Nat.min_eq_right hle, List.take_eq_take_iff]
      omega

/-! ## Lines and copies -/

/-- **What the first demo shows**: as much of the file as the buffer and the `read` hold, and its
size. The terminator is in the buffer exactly when the `read` does not fail. -/
theorem basic_fileio_reads_back (writes : List (List UInt8 × Nat)) (got : Option Nat)
    (buf : List UInt8) :
    (demoBasicFileio writes got buf).size = (taken writes).length ∧
    (0 ≤ (demoBasicFileio writes got buf).n ∧ (demoBasicFileio writes got buf).n < 256 ↔
      got ≠ none) ∧
    (∀ m, got = some m →
      (demoBasicFileio writes got buf).n = ((taken writes).take (min m 255)).length ∧
      (demoBasicFileio writes got buf).text = cString ((taken writes).take (min m 255))) := by
  cases got with
  | none =>
    have hout : demoBasicFileio writes none buf =
        ⟨-1, cString buf, (File.empty.writeAll writes).contents.length⟩ := rfl
    rw [hout, contents_writeAll]
    refine ⟨rfl, ⟨fun h => ?_, fun h => absurd rfl h⟩, fun m hm => (by cases hm)⟩
    have hn : (0 : Int) ≤ -1 := h.1
    exact absurd hn (by decide)
  | some m =>
    have hread := read_seek_zero (File.empty.writeAll writes) 255 m
    rw [contents_writeAll] at hread
    have hout : demoBasicFileio writes (some m) buf =
        ⟨((taken writes).take (min m 255)).length, cString ((taken writes).take (min m 255)),
          (taken writes).length⟩ := by
      simp only [demoBasicFileio, hread, contents_writeAll, cString_terminate]
    rw [hout]
    have hlen : ((taken writes).take (min m 255)).length < 256 := by
      have := List.length_take_le (min m 255) (taken writes)
      omega
    refine ⟨rfl, ⟨fun _ => Option.some_ne_none m, fun _ => ⟨Int.natCast_nonneg _, ?_⟩⟩, ?_⟩
    · exact Int.ofNat_lt.mpr hlen
    · intro m' hm'
      cases hm'
      exact ⟨rfl, rfl⟩

/-- What `sendfile` says it has copied is the length of the copy, which is a beginning of the
file, and all of it when `sendfile` may go to the end. -/
theorem sendfile_copies (writes : List (List UInt8 × Nat)) (m : Nat) :
    demoSendfile writes (some m) =
      ((taken writes).take m, (((taken writes).take m).length : Int)) := by
  have hread : (File.mk (taken writes) 0).read (taken writes).length (some m) =
      some ((taken writes).take m) := by
    rw [File.read, Option.map_some, slice_zero, List.take_length]
  simp only [demoSendfile, contents_writeAll, hread, contents_write, List.take_length]

/-! ## Buffers -/

/-- Every buffer has room for its text and a terminator. -/
def Fits (hs rs : List (List UInt8)) : Prop :=
  rs.length = hs.length ∧
    ∀ (i : Nat) (h r : List UInt8), hs[i]? = some h → rs[i]? = some r → h.length < r.length

/-- What is read into the buffer of the text `h`, which comes behind the texts of `front`. -/
def piece (front : List (List UInt8)) (h : List UInt8) (carried : Nat) : List UInt8 :=
  h.take (carried - (front.map List.length).sum)

/-- The buffer of the text `h` when `p` was read into it. -/
theorem blit_filled (r : List UInt8) {h p : List UInt8} (hp : p.length ≤ h.length) :
    blit (blit r 0 p) h.length [0] =
      p ++ slice r p.length (h.length - p.length) ++ 0 :: r.drop (h.length + 1) := by
  have hfront : (blit r 0 p).take h.length = p ++ slice r p.length (h.length - p.length) := by
    rw [blit, List.take_zero, List.nil_append, Nat.zero_add, List.take_append,
      List.take_of_length_le hp, slice]
  have hback : (blit r 0 p).drop (h.length + 1) = r.drop (h.length + 1) := by
    rw [blit, List.take_zero, List.nil_append, Nat.zero_add, List.drop_append,
      List.drop_eq_nil_of_le (by omega), List.nil_append, List.drop_drop]
    congr 1
    omega
  have hone : ([0] : List UInt8).length = 1 := rfl
  rw [blit, hfront, hone, hback, List.append_assoc, List.singleton_append]

/-- **One buffer**: what was carried of its text, then what it held before, then the terminator. -/
theorem scatterGather_getElem? {hs rs : List (List UInt8)} {i : Nat} {h r : List UInt8} (k : Nat)
    (got : Option Nat) (hh : hs[i]? = some h) (hr : rs[i]? = some r) :
    (demoScatterGather hs k got rs)[i]? =
      some (piece (hs.take i) h (carried k got) ++
        slice r (piece (hs.take i) h (carried k got)).length
          (h.length - (piece (hs.take i) h (carried k got)).length) ++
        0 :: r.drop (h.length + 1)) := by
  have hpiece := getElem?_splitLengths_take hs (carried k got) i
  rw [hh, Option.map_some] at hpiece
  have hle : (piece (hs.take i) h (carried k got)).length ≤ h.length := List.length_take_le' _ _
  rw [demoScatterGather, scatterGather_data, List.getElem?_zipWith_eq_some]
  refine ⟨_, h, List.getElem?_zipWith_eq_some.mpr ⟨r, _, hr, hpiece, rfl⟩, hh, ?_⟩
  exact blit_filled r hle

theorem length_scatterGather (hs : List (List UInt8)) (k : Nat) (got : Option Nat)
    (rs : List (List UInt8)) (hlen : rs.length = hs.length) :
    (demoScatterGather hs k got rs).length = hs.length := by
  simp [demoScatterGather, hlen]

theorem sum_take_add_le {hs : List (List UInt8)} {i : Nat} {h : List UInt8} (hi : hs[i]? = some h) :
    ((hs.take i).map List.length).sum + h.length ≤ (hs.map List.length).sum := by
  induction hs generalizing i with
  | nil => cases hi
  | cons h' hs ih =>
    rw [List.map_cons, List.sum_cons]
    cases i with
    | zero =>
      cases hi
      simp
    | succ i =>
      have hrest := ih hi
      rw [List.take_succ_cons, List.map_cons, List.sum_cons]
      omega

/-- Every text is carried whole exactly when all bytes are carried. -/
theorem piece_eq_iff (hs : List (List UInt8)) (c : Nat) :
    (∀ (i : Nat) (h : List UInt8), hs[i]? = some h → piece (hs.take i) h c = h) ↔
      (hs.map List.length).sum ≤ c := by
  constructor
  · intro hwhole
    have hpieces : (hs.map List.length).splitLengths (hs.flatten.take c) = hs := by
      apply List.ext_getElem?
      intro i
      rw [getElem?_splitLengths_take]
      cases hi : hs[i]? with
      | none => rfl
      | some h => exact congrArg some (hwhole i h hi)
    have hflat := List.flatten_splitLengths (hs.flatten.take c) (hs.map List.length) (by
      rw [← List.length_flatten]
      exact List.length_take_le' _ _)
    rw [hpieces] at hflat
    rw [← List.length_flatten, hflat]
    exact List.length_take_le _ _
  · intro hle i h hi
    have hsum := sum_take_add_le hi
    exact List.take_of_length_le (by omega)

/-- Empty buffers show what was read into them. -/
theorem cString_append_zeros (p ys : List UInt8) (n : Nat) :
    cString (p ++ List.replicate n 0 ++ 0 :: ys) = cString p := by
  cases n with
  | zero => rw [List.replicate_zero, List.append_nil, cString_append_nul]
  | succ n => rw [List.replicate_succ, List.append_assoc, List.cons_append, cString_append_nul]

/-- Buffers of zeros with just enough room. -/
def zeros (hs : List (List UInt8)) : List (List UInt8) :=
  hs.map fun h => List.replicate (h.length + 1) 0

theorem zeros_fits (hs : List (List UInt8)) : Fits hs (zeros hs) := by
  refine ⟨List.length_map _, ?_⟩
  intro i h r hh hr
  rw [zeros, List.getElem?_map, hh] at hr
  cases hr
  rw [List.length_replicate]
  exact Nat.lt_succ_self _

theorem zeros_show {hs : List (List UInt8)} {i : Nat} {h : List UInt8} (k : Nat) (got : Option Nat)
    (hh : hs[i]? = some h) :
    ((demoScatterGather hs k got (zeros hs)).map cString)[i]? =
      some (cString (piece (hs.take i) h (carried k got))) := by
  have hr : (zeros hs)[i]? = some (List.replicate (h.length + 1) 0) := by
    rw [zeros, List.getElem?_map, hh]
    rfl
  rw [List.getElem?_map, scatterGather_getElem? k got hh hr, Option.map_some, slice,
    List.drop_replicate, List.take_replicate, cString_append_zeros]

/-- **The round trip of `writev` and `readv`**, for any texts, however much the two calls transfer.
The buffers show the texts whatever they held before exactly when all bytes go both ways. In every
case each buffer keeps its size and shows what was carried of its own text, followed by what it
held before. -/
theorem scatter_gather_round_trip (hs : List (List UInt8)) (k : Nat) (got : Option Nat)
    (hnul : ∀ h ∈ hs, 0 ∉ h) :
    ((∀ rs, Fits hs rs → (demoScatterGather hs k got rs).map cString = hs) ↔
      (hs.map List.length).sum ≤ min (got.getD 0) k) ∧
    ∀ rs, Fits hs rs → ∀ (i : Nat) (h r : List UInt8), hs[i]? = some h → rs[i]? = some r →
      ∃ b p, (demoScatterGather hs k got rs)[i]? = some b ∧ b.length = r.length ∧
        p = h.take (min (got.getD 0) k - ((hs.take i).map List.length).sum) ∧
        cString b = cString (p ++ slice r p.length (h.length - p.length)) := by
  refine ⟨⟨fun hshow => ?_, fun hle rs hfits => ?_⟩, fun rs hfits i h r hh hr => ?_⟩
  · refine (piece_eq_iff hs (carried k got)).mp fun i h hh => ?_
    have hzero := zeros_show k got hh
    rw [hshow _ (zeros_fits hs), hh] at hzero
    have hlen := length_cString_le (piece (hs.take i) h (carried k got))
    rw [← Option.some.inj hzero] at hlen
    have hprefix : piece (hs.take i) h (carried k got) <+: h := List.take_prefix _ _
    exact hprefix.eq_of_length_le hlen
  · have hwhole := (piece_eq_iff hs (carried k got)).mpr hle
    apply List.ext_getElem?
    intro i
    rw [List.getElem?_map]
    cases hh : hs[i]? with
    | none =>
      have hge := List.getElem?_eq_none_iff.mp hh
      rw [List.getElem?_eq_none (by rwa [length_scatterGather hs k got rs hfits.1])]
      rfl
    | some h =>
      have hi := (List.getElem?_eq_some_iff.mp hh).1
      obtain ⟨r, hr⟩ : ∃ r, rs[i]? = some r :=
        ⟨_, List.getElem?_eq_getElem (hfits.1 ▸ hi)⟩
      rw [scatterGather_getElem? k got hh hr, hwhole i h hh, Nat.sub_self, slice, List.take_zero,
        List.append_nil, Option.map_some, cString_append_nul,
        cString_eq_self_iff.mpr (hnul h (List.mem_of_getElem? hh))]
  · have hroom := hfits.2 i h r hh hr
    have hle : (piece (hs.take i) h (carried k got)).length ≤ h.length := List.length_take_le' _ _
    refine ⟨_, piece (hs.take i) h (carried k got), scatterGather_getElem? k got hh hr, ?_, rfl,
      cString_append_nul _ _⟩
    rw [List.length_append, List.length_append, length_slice _ _ _ (by omega), List.length_cons,
      List.length_drop]
    omega

/-- `h1`, `h2` and `h3` of the demo. -/
def demoTexts : List (List UInt8) :=
  [bytes "[HEADER] ", bytes "payload data ", bytes "[TRAILER]\n"]

/-- All 32 bytes make the round trip; after a `writev` of 12 bytes the second buffer shows three
bytes of its text and what it held before. -/
theorem scatter_gather_round_trip_demo :
    (∀ rs, Fits demoTexts rs →
      (demoScatterGather demoTexts 32 (some 32) rs).map cString = demoTexts) ∧
    ¬ (∀ rs, Fits demoTexts rs →
      (demoScatterGather demoTexts 12 (some 32) rs).map cString = demoTexts) ∧
    ((demoScatterGather demoTexts 12 (some 32) (List.replicate 3 (List.replicate 32 120)))[1]?.map
      cString) = some (bytes "payxxxxxxxxxx") := by
  have hnul : ∀ h ∈ demoTexts, 0 ∉ h := by decide +kernel
  refine ⟨(scatter_gather_round_trip demoTexts 32 (some 32) hnul).1.mpr (by decide +kernel), ?_,
    by decide +kernel⟩
  intro hshow
  have hle := (scatter_gather_round_trip demoTexts 12 (some 32) hnul).1.mp hshow
  revert hle
  decide +kernel

end LearnLinux.Files
