import LearnLinux.Chardev.Runs
import LearnLinux.Lib.CString

/-!
# The test program `10_device_driver/test/device_driver_test.c`

The program opens the device, writes `hello`, asks for the number of bytes, reads into an array of
16, writes once more, turns the echo off, resets the device and asks again. It checks no result.
The device keeps what earlier programs have left in it, and other programs may call the driver
between any two calls of the test.

`device_test_prints`: each line shows what the device holds when it is asked, the bytes up to the
first NUL. The terminator behind what was read is stored outside the array exactly when the device
holds 16 bytes or more.
-/

namespace LearnLinux.Chardev.DeviceTest

open CInt CString Segment

/-! ## The program -/

/-- `sizeof(buf)`. -/
def bufCount : Nat := 16

/-- What the local variables hold before they are written. -/
structure Locals where
  size : Vector UInt8 sizeofInt
  buf : Vector UInt8 bufCount

/-- A string literal, which cannot be written. -/
def literal (text : String) : UserBuf := ⟨bytes text ++ [0], 0, fun _ => none⟩

/-- A local variable. -/
def cell (contents : List UInt8) : UserBuf := ⟨contents, contents.length, fun _ => none⟩

/-- The calls of `main` on the open file, in order. -/
def testCall (file : Nat) (m : Locals) : Nat → Call
  | 0 => .write file (literal "hello") 5
  | 1 => .ioctl file chardevGsize (cell m.size.toList)
  | 2 => .read file (cell m.buf.toList) bufCount
  | 3 => .write file (literal "h") 1
  | 4 => .ioctl file chardevSecho (cell (intBytes 0))
  | 5 => .ioctl file chardevReset (cell [])
  | _ => .ioctl file chardevGsize (cell m.size.toList)

section Program

variable (file : Nat) (m : Locals) (others : Nat → List Call) (s : Node)

/-- The device before call `k` of the test, when the other programs make the calls `others k`
behind the one before it. -/
def before : Nat → Node
  | 0 => (s.run (others 0)).1
  | k + 1 => (((before k).call (testCall file m k)).1.run (others (k + 1))).1

def reply (k : Nat) : Reply := ((before file m others s k).call (testCall file m k)).2

/-- The variable `size` after a `CHARDEV_GSIZE`. -/
def sizeAfter (k : Nat) : Int :=
  intOfBytes (blit m.size.toList 0 (reply file m others s k).delivered)

/-- The return value of `read`. -/
def n : Int := (reply file m others s 2).ret

/-- `buf[n] = '\0'` is a store into `buf`. -/
def inside : Bool := decide (0 ≤ n file m others s ∧ n file m others s < bufCount)

/-- What `%s` prints behind a store into `buf`. -/
def content : List UInt8 :=
  cString (blit (blit m.buf.toList 0 (reply file m others s 2).delivered)
    (n file m others s).toNat [0])

/-- The bytes that the device holds before call `k`. -/
def held (k : Nat) : List UInt8 := (before file m others s k).dev.live

end Program

/-! ## What a call does -/

section Calls

variable {s : Node} {a : Spec} {file : Nat}

/-- The driver shows the bytes and the echo flag of the stream behind a call. -/
theorem call_exec (h : NodeShows s a) (c : Call) :
    (s.call c).1.dev.live = (a.st.exec (a.fpos c.file) c).1.bytes ∧
      (s.call c).1.dev.echo = (a.st.exec (a.fpos c.file) c).1.echo ∧
      (s.call c).2.toVisible = (a.st.exec (a.fpos c.file) c).2.2 := by
  obtain ⟨hs, hv⟩ := call_shows h c
  exact ⟨hs.dev.live, hs.dev.echo, hv⟩

theorem call_write (h : NodeShows s a) {ubuf : UserBuf} {count : Nat}
    (hbytes : count ≤ ubuf.bytes.length) :
    (s.call (.write file ubuf count)).1.dev.live =
      s.dev.live ++ ubuf.bytes.take (min count (bufSize - s.dev.live.length)) := by
  rw [(call_exec h _).1, h.dev.live]
  rcases a.st.write_cases ubuf count (a.fpos file) with ⟨hfull, ho⟩ | ⟨-, hfault, -⟩ | ⟨-, -, -, hs⟩
  · simp only [Stream.exec, Call.file, ho]
    rw [hfull, Nat.sub_self, Nat.min_zero, List.take_zero, List.append_nil]
  · omega
  · exact hs

theorem call_read (h : NodeShows s a) {ubuf : UserBuf} {count : Nat} (hroom : count ≤ ubuf.room) :
    (s.call (.read file ubuf count)).2.ret = (min count s.dev.live.length : Nat) ∧
      (s.call (.read file ubuf count)).2.delivered = s.dev.live.take count := by
  have hv := (call_exec h (.read file ubuf count)).2.2
  rw [h.dev.live]
  have hret := congrArg Visible.ret hv
  have hdel := congrArg Visible.delivered hv
  rcases a.st.read_cases ubuf count (a.fpos file) with
    ⟨hnil, ho⟩ | ⟨-, hfault, -⟩ | ⟨-, -, hn, hd, -⟩
  · simp only [Stream.exec, Call.file, ho] at hret hdel
    rw [hret, hdel, List.length_eq_zero_iff.mp hnil]
    simp
  · omega
  · rw [hret, hdel]
    refine ⟨hn, hd.trans ?_⟩
    rw [← List.take_take, List.take_length]

theorem call_ioctl (h : NodeShows s a) (cmd : Nat) (arg : UserBuf) :
    (s.call (.ioctl file cmd arg)).1.dev.live = if cmd = chardevReset then [] else s.dev.live := by
  rw [(call_exec h _).1, h.dev.live]
  exact a.st.ioctl_bytes cmd arg _

theorem call_gsize (h : NodeShows s a) {arg : UserBuf} (hroom : sizeofInt ≤ arg.room) :
    (s.call (.ioctl file chardevGsize arg)).2.delivered = intBytes s.dev.live.length := by
  have hdel := congrArg Visible.delivered (call_exec h (.ioctl file chardevGsize arg)).2.2
  rw [hdel, h.dev.live]
  have hne : chardevGsize ≠ chardevReset := by decide
  simp only [Stream.exec, Stream.ioctl, if_neg hne, if_true, if_neg (Nat.not_lt.mpr hroom)]

theorem call_secho (h : NodeShows s a) {arg : UserBuf} (hbytes : sizeofInt ≤ arg.bytes.length) :
    (s.call (.ioctl file chardevSecho arg)).1.dev.echo =
      intOfBytes (arg.bytes.take sizeofInt) := by
  rw [(call_exec h _).2.1]
  have hreset : chardevSecho ≠ chardevReset := by decide
  have hgsize : chardevSecho ≠ chardevGsize := by decide
  simp only [Stream.exec, Stream.ioctl, if_neg hreset, if_neg hgsize, if_true,
    if_neg (Nat.not_lt.mpr hbytes)]

/-- Only `CHARDEV_SECHO` sets the echo flag. -/
theorem call_echo (h : NodeShows s a) {cmd : Nat} (arg : UserBuf) (hcmd : cmd ≠ chardevSecho) :
    (s.call (.ioctl file cmd arg)).1.dev.echo = s.dev.echo := by
  rw [(call_exec h _).2.1, h.dev.echo]
  simp only [Stream.exec, Stream.ioctl, if_neg hcmd]
  split
  · rfl
  · split
    · split <;> rfl
    · rfl

/-- A program that does not write leaves an empty device empty. -/
theorem run_empty (h : NodeShows s a) (hs : s.dev.live = []) (cs : List Call)
    (hcs : ∀ file ubuf count, Call.write file ubuf count ∉ cs) : (s.run cs).1.dev.live = [] := by
  induction cs generalizing s a with
  | nil => exact hs
  | cons c cs ih =>
    refine ih (call_shows h c).1 ?_ fun file ubuf count hc => hcs file ubuf count (.tail _ hc)
    rw [(call_exec h c).1]
    have hbytes : a.st.bytes = [] := by rw [← h.dev.live, hs]
    cases c with
    | write file ubuf count => exact absurd (List.mem_cons_self) (hcs file ubuf count)
    | read file ubuf count => simp [Stream.exec, Stream.read, hbytes]
    | llseek file offset whence => exact hbytes
    | ioctl file cmd arg =>
      refine (a.st.ioctl_bytes cmd arg _).trans ?_
      split
      · rfl
      · exact hbytes

end Calls

/-! ## What the program prints -/

section Runs

variable {s : Node} {a : Spec} (file : Nat) (m : Locals) (others : Nat → List Call)

theorem before_shows (h : NodeShows s a) (k : Nat) :
    ∃ b, NodeShows (before file m others s k) b := by
  induction k with
  | zero =>
    obtain ⟨b, hb, -⟩ := run_shows (others 0) h
    exact ⟨b, hb⟩
  | succ k ih =>
    obtain ⟨b, hb⟩ := ih
    obtain ⟨c, hc, -⟩ := run_shows (others (k + 1)) (call_shows hb (testCall file m k)).1
    exact ⟨c, hc⟩

/-- `CHARDEV_GSIZE` overwrites all of `size`. -/
theorem intOfBytes_blit (old : Vector UInt8 sizeofInt) {len : Nat} (hlen : len ≤ bufSize) :
    intOfBytes (blit old.toList 0 (intBytes len)) = len := by
  have hall : blit old.toList 0 (intBytes len) = intBytes len := by
    have hdrop : old.toList.drop (0 + (intBytes len).length) = [] := by
      apply List.drop_eq_nil_of_le
      simp only [Vector.length_toList, Nat.zero_add]
      exact Nat.le_refl 4
    rw [blit, hdrop, List.take_zero, List.nil_append, List.append_nil]
  have hsize : bufSize = 4096 := rfl
  rw [hall, intOfBytes_intBytes]
  · omega
  · omega

theorem sizeAfter_eq (h : NodeShows s a) {k : Nat}
    (hk : testCall file m k = .ioctl file chardevGsize (cell m.size.toList)) :
    sizeAfter file m others s k = (held file m others s k).length := by
  obtain ⟨b, hb⟩ := before_shows file m others h k
  have hroom : sizeofInt ≤ (cell m.size.toList).room := by simp [cell]
  rw [sizeAfter, reply, hk, call_gsize hb hroom]
  apply intOfBytes_blit
  rw [hb.dev.live]
  exact b.st.bound

theorem read_eq (h : NodeShows s a) :
    n file m others s = (min bufCount (held file m others s 2).length : Nat) ∧
      (reply file m others s 2).delivered = (held file m others s 2).take bufCount := by
  obtain ⟨b, hb⟩ := before_shows file m others h 2
  exact call_read hb (by simp [cell])

theorem inside_iff (h : NodeShows s a) :
    inside file m others s = true ↔ (held file m others s 2).length < bufCount := by
  have hn := (read_eq file m others h).1
  have hcount : bufCount = 16 := rfl
  rw [inside, decide_eq_true_iff, hn]
  omega

theorem content_eq (h : NodeShows s a) (hin : inside file m others s = true) :
    content file m others s = cString (held file m others s 2) := by
  have hlt := (inside_iff file m others h).mp hin
  obtain ⟨hn, hdel⟩ := read_eq file m others h
  rw [List.take_of_length_le (Nat.le_of_lt hlt)] at hdel
  rw [content, hdel, hn, Int.toNat_natCast, Nat.min_eq_right (Nat.le_of_lt hlt), cString_terminate]

/-- Behind the reset the device is empty until some program writes. -/
theorem held_after_reset (h : NodeShows s a)
    (hquiet : ∀ file ubuf count, Call.write file ubuf count ∉ others 6) :
    held file m others s 6 = [] := by
  obtain ⟨b, hb⟩ := before_shows file m others h 5
  refine run_empty (call_shows hb _).1 ?_ (others 6) hquiet
  exact (call_ioctl hb chardevReset _).trans (if_pos rfl)

/-- The device after the last call of the test. -/
def after (s : Node) : Node := ((before file m others s 6).call (testCall file m 6)).1

theorem before_zero (s : Node) (halone : ∀ k, others k = []) : before file m others s 0 = s := by
  rw [before, halone]
  rfl

theorem before_succ (s : Node) (halone : ∀ k, others k = []) (k : Nat) :
    before file m others s (k + 1) = ((before file m others s k).call (testCall file m k)).1 := by
  rw [before, halone]
  rfl

theorem held_alone (h : NodeShows s a) (halone : ∀ k, others k = []) :
    held file m others s 1 =
      s.dev.live ++ (bytes "hello").take (bufSize - s.dev.live.length) ∧
    held file m others s 2 = held file m others s 1 := by
  have h0 := before_zero file m others s halone
  have h1 := before_succ file m others s halone 0
  have h2 := before_succ file m others s halone 1
  constructor
  · rw [held, h1, h0]
    refine (call_write h (by decide)).trans ?_
    have htake : ∀ k, (literal "hello").bytes.take (min 5 k) = (bytes "hello").take k := by
      intro k
      rw [Nat.min_comm, ← List.take_take]
      rfl
    rw [htake]
  · obtain ⟨b, hb⟩ := before_shows file m others h 1
    rw [held, h2]
    exact (call_ioctl hb chardevGsize _).trans (if_neg (by decide))

theorem after_alone (h : NodeShows s a) (halone : ∀ k, others k = []) :
    (after file m others s).dev.live = [] ∧ (after file m others s).dev.echo = 0 := by
  obtain ⟨b4, hb4⟩ := before_shows file m others h 4
  obtain ⟨b5, hb5⟩ := before_shows file m others h 5
  obtain ⟨b6, hb6⟩ := before_shows file m others h 6
  have h5 := before_succ file m others s halone 4
  have h6 := before_succ file m others s halone 5
  have hecho : (before file m others s 5).dev.echo = 0 := by
    rw [h5]
    exact (call_secho hb4 (by decide)).trans (by decide)
  constructor
  · refine (call_ioctl hb6 chardevGsize _).trans ((if_neg (by decide)).trans ?_)
    exact held_after_reset file m others h (by rw [halone]; simp)
  · refine (call_echo hb6 _ (by decide)).trans ?_
    rw [h6]
    exact (call_echo hb5 _ (by decide)).trans hecho

theorem length_held_alone (h : NodeShows s a) (halone : ∀ k, others k = []) :
    (held file m others s 1).length = min (s.dev.live.length + 5) bufSize := by
  have hbound : s.dev.live.length ≤ bufSize := by
    rw [h.dev.live]
    exact a.st.bound
  have hhello : (bytes "hello").length = 5 := rfl
  rw [(held_alone file m others h halone).1, List.length_append, List.length_take, hhello]
  omega

theorem inside_alone (h : NodeShows s a) (halone : ∀ k, others k = []) :
    inside file m others s = true ↔ s.dev.live.length ≤ 10 := by
  have hsize : bufSize = 4096 := rfl
  have hcount : bufCount = 16 := rfl
  rw [inside_iff file m others h, (held_alone file m others h halone).2,
    length_held_alone file m others h halone]
  omega

theorem content_alone (h : NodeShows s a) (halone : ∀ k, others k = [])
    (hin : inside file m others s = true) :
    content file m others s = cString (s.dev.live ++ bytes "hello") := by
  have hten := (inside_alone file m others h halone).mp hin
  have hsize : bufSize = 4096 := rfl
  have hhello : (bytes "hello").length = 5 := rfl
  obtain ⟨hheld1, hheld2⟩ := held_alone file m others h halone
  rw [content_eq file m others h hin, hheld2, hheld1, List.take_of_length_le (by omega)]

end Runs

/-- **The test prints what the device holds**, whatever was called before it and whatever other
programs call in between. The two sizes are the numbers of bytes held at that moment, the second
one 0 unless some program writes behind the reset. The store behind `read` hits `buf` exactly when
fewer than 16 bytes are held, and then these are printed up to the first NUL. Run alone, the test
overruns `buf` exactly when the device held more than 10 bytes before, and leaves it empty with
the echo off. -/
theorem device_test_prints (buf : Vector UInt8 bufSize) (fpos : Nat → Loff) (calls : List Call)
    (file : Nat) (m : Locals) (others : Nat → List Call) :
    let s := ((chardevInit buf fpos).run calls).1
    let held := held file m others s
    sizeAfter file m others s 1 = (held 1).length ∧
    (inside file m others s = true ↔ (held 2).length < bufCount) ∧
    (inside file m others s = true →
      n file m others s = (held 2).length ∧ content file m others s = cString (held 2)) ∧
    sizeAfter file m others s 6 = (held 6).length ∧
    ((∀ file ubuf count, Call.write file ubuf count ∉ others 6) →
      sizeAfter file m others s 6 = 0) ∧
    ((∀ k, others k = []) →
      sizeAfter file m others s 1 = (min (s.dev.live.length + 5) bufSize : Nat) ∧
      (inside file m others s = true ↔ s.dev.live.length ≤ 10) ∧
      (inside file m others s = true →
        content file m others s = cString (s.dev.live ++ bytes "hello")) ∧
      (after file m others s).dev.live = [] ∧ (after file m others s).dev.echo = 0) := by
  intro s held
  obtain ⟨a, h, -⟩ := run_shows calls (chardevInit_shows buf fpos)
  have hsize1 : sizeAfter file m others s 1 = (held 1).length := sizeAfter_eq file m others h rfl
  have hsize6 : sizeAfter file m others s 6 = (held 6).length := sizeAfter_eq file m others h rfl
  have hinside := inside_iff file m others h
  refine ⟨hsize1, hinside, fun hin => ⟨?_, content_eq file m others h hin⟩, hsize6, fun hquiet => ?_,
    fun halone => ?_⟩
  · have hlt := hinside.mp hin
    rw [(read_eq file m others h).1, Nat.min_eq_right (Nat.le_of_lt hlt)]
  · have hnil : held 6 = [] := held_after_reset file m others h hquiet
    rw [hsize6, hnil]
    rfl
  · refine ⟨?_, inside_alone file m others h halone, content_alone file m others h halone,
      after_alone file m others h halone⟩
    exact hsize1.trans (congrArg _ (length_held_alone file m others h halone))

/-- An earlier program has left 11 bytes. The test stores its terminator behind `buf`. -/
theorem device_test_prints_overrun :
    let m : Locals := ⟨Vector.replicate sizeofInt 0, Vector.replicate bufCount 0⟩
    let s := ((chardevInit (Vector.replicate bufSize 0) fun _ => 0).run
      [.write 0 (literal "hello world") 11]).1
    s.dev.live = bytes "hello world" ∧ sizeAfter 1 m (fun _ => []) s 1 = 16 ∧
      inside 1 m (fun _ => []) s = false := by
  intro m s
  have hlive : s.dev.live = bytes "hello world" := by
    have h := chardevInit_shows (Vector.replicate bufSize 0) fun _ => 0
    exact (call_write h (by decide)).trans rfl
  have hlen : s.dev.live.length = 11 := by
    rw [hlive]
    rfl
  obtain ⟨hsize, hinside, -⟩ := (device_test_prints (Vector.replicate bufSize 0) (fun _ => 0)
    [.write 0 (literal "hello world") 11] 1 m (fun _ => [])).2.2.2.2.2 fun _ => rfl
  refine ⟨hlive, hsize.trans ?_, ?_⟩
  · rw [show ((chardevInit (Vector.replicate bufSize 0) fun _ => 0).run
      [.write 0 (literal "hello world") 11]).1.dev.live.length = 11 from hlen]
    rfl
  · rw [← Bool.not_eq_true, hinside]
    exact fun hle => absurd (hlen ▸ hle) (by decide)

end LearnLinux.Chardev.DeviceTest
