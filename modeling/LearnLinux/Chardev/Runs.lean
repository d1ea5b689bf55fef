import LearnLinux.Chardev.Stream

/-!
# Whole interleavings of driver calls

`Spec` is the byte stream with the file positions. A run of the driver shows a
run of `Spec` call by call (`run_shows`), so everything a run reveals is decided
by the stream alone. Two consequences:

* `chardev_fifo_stream`: the device is a bounded FIFO byte stream over every
  history of reads, writes, resets and faults;
* `failing_call_invisible`: a call that returns a negative value leaves no trace
  that a later call could see, although a faulting write may have scribbled over
  the free part of the buffer.
-/

namespace LearnLinux.Chardev

open CInt Fifo

/-! ## Runs of the stream -/

/-- The byte stream and the file positions. -/
structure Spec where
  st : Stream
  fpos : Nat → Loff

def Spec.call (a : Spec) (c : Call) : Spec × Visible :=
  let o := a.st.exec (a.fpos c.file) c
  (⟨o.1, Function.update a.fpos c.file o.2.1⟩, o.2.2)

/-- What callers see of a run: each reply and the position it leaves in `*ppos`. -/
def Spec.observe (a : Spec) : List Call → List (Visible × Loff)
  | [] => []
  | c :: cs => ((a.call c).2, (a.call c).1.fpos c.file) :: (a.call c).1.observe cs

def Node.observe (s : Node) : List Call → List (Visible × Loff)
  | [] => []
  | c :: cs => ((s.call c).2.toVisible, (s.call c).1.fpos c.file) :: (s.call c).1.observe cs

/-- The driver and its files show the stream and the same positions. -/
structure NodeShows (s : Node) (a : Spec) : Prop where
  dev : Shows s.dev a.st
  fpos : s.fpos = a.fpos

theorem call_shows {s : Node} {a : Spec} (h : NodeShows s a) (c : Call) :
    NodeShows (s.call c).1 (a.call c).1 ∧ (s.call c).2.toVisible = (a.call c).2 := by
  have hr := exec_refines h.dev (a.fpos c.file) c
  unfold Node.call Spec.call
  rw [h.fpos]
  exact ⟨⟨hr.dev, congrArg (Function.update a.fpos c.file) hr.ppos⟩, hr.visible⟩

theorem observe_shows (cs : List Call) {s : Node} {a : Spec} (h : NodeShows s a) :
    s.observe cs = a.observe cs := by
  induction cs generalizing s a with
  | nil => rfl
  | cons c cs ih =>
    obtain ⟨hs, hv⟩ := call_shows h c
    simp only [Node.observe, Spec.observe, ih hs, hv, hs.fpos]

/-- The empty stream that a freshly initialised device shows. -/
def Spec.start (fpos : Nat → Loff) : Spec := ⟨⟨[], Nat.zero_le _, 1⟩, fpos⟩

theorem chardevInit_shows (buf : Vector UInt8 bufSize) (fpos : Nat → Loff) :
    NodeShows (chardevInit buf fpos) (Spec.start fpos) :=
  ⟨⟨chardevInit_wf buf fpos, rfl, rfl⟩, rfl⟩

/-! ## The history of a run -/

/-- What a call did to the byte stream, from the call and its reply alone. -/
def eventOf : Call × Reply → Event UInt8
  | (.read _ _ _, r) => if 0 ≤ r.ret then .get r.delivered else .skip
  | (.write _ ubuf _, r) => if 0 ≤ r.ret then .put (ubuf.bytes.take r.ret.toNat) else .skip
  | (.llseek _ _ _, _) => .skip
  | (.ioctl _ cmd _, _) => if cmd = chardevReset then .clear else .skip

/-- The bytes returned by successful reads and accepted by successful writes
since the last `CHARDEV_RESET`. -/
def history (trace : List (Call × Reply)) : History UInt8 :=
  History.empty.replay (trace.map eventOf)

def Stream.fifo (st : Stream) : Bounded UInt8 bufSize := ⟨st.bytes, st.bound⟩

theorem Stream.append_bytes (st : Stream) (xs : List UInt8)
    (h : st.bytes.length + xs.length ≤ bufSize) : (st.append xs).bytes = st.bytes ++ xs := by
  show st.bytes ++ xs.take (bufSize - st.bytes.length) = st.bytes ++ xs
  rw [List.take_of_length_le (by omega)]

/-- A write of the stream either fails and changes nothing, or appends the first
`n = min count (BUF_SIZE - length)` bytes of the user and returns `n`. -/
theorem Stream.write_cases (st : Stream) (ubuf : UserBuf) (count : Nat) (ppos : Loff) :
    let n := min count (bufSize - st.bytes.length)
    let o := st.write ubuf count ppos
    (st.bytes.length = bufSize ∧ o = (st, ppos, { ret := -ENOSPC })) ∨
    (st.bytes.length ≠ bufSize ∧ ubuf.bytes.length < n ∧ o = (st, ppos, { ret := -EFAULT })) ∨
    (st.bytes.length ≠ bufSize ∧ n ≤ ubuf.bytes.length ∧ o.2.2.ret = n ∧
      o.1.bytes = st.bytes ++ ubuf.bytes.take n) := by
  intro n o
  by_cases hfull : st.bytes.length = bufSize
  · exact Or.inl ⟨hfull, if_pos hfull⟩
  refine Or.inr ?_
  by_cases hfault : ubuf.bytes.length < n
  · exact Or.inl ⟨hfull, hfault, (if_neg hfull).trans (if_pos hfault)⟩
  · refine Or.inr ⟨hfull, Nat.le_of_not_lt hfault, ?_, ?_⟩
    · simp only [o, Stream.write, if_neg hfull]
      rw [if_neg hfault]
    · simp only [o, Stream.write, if_neg hfull]
      rw [if_neg hfault]
      apply st.append_bytes
      have hb := st.bound
      rw [List.length_take]
      omega

/-- A read of the stream returns nothing, fails and changes nothing, or takes the
first `n = min count length` bytes and returns `n`. -/
theorem Stream.read_cases (st : Stream) (ubuf : UserBuf) (count : Nat) (ppos : Loff) :
    let n := min count st.bytes.length
    let o := st.read ubuf count ppos
    (st.bytes.length = 0 ∧ o = (st, ppos, { ret := 0 })) ∨
    (st.bytes.length ≠ 0 ∧ ubuf.room < n ∧ o.1 = st ∧ o.2.1 = ppos ∧ o.2.2.ret = -EFAULT) ∨
    (st.bytes.length ≠ 0 ∧ n ≤ ubuf.room ∧ o.2.2.ret = n ∧ o.2.2.delivered = st.bytes.take n ∧
      o.1.bytes = st.bytes.drop n) := by
  intro n o
  by_cases h0 : st.bytes.length = 0
  · exact Or.inl ⟨h0, if_pos h0⟩
  refine Or.inr ?_
  by_cases hroom : ubuf.room < n
  · refine Or.inl ⟨h0, hroom, ?_⟩
    simp only [o, Stream.read, if_neg h0]
    rw [if_pos hroom]
    exact ⟨rfl, rfl, rfl⟩
  · refine Or.inr ⟨h0, Nat.le_of_not_lt hroom, ?_⟩
    simp only [o, Stream.read, if_neg h0]
    rw [if_neg hroom]
    exact ⟨rfl, rfl, rfl⟩

/-- The six ways through the `switch` of `chardev_ioctl`. -/
theorem Stream.ioctl_cases (st : Stream) (cmd : Nat) (arg : UserBuf) (ppos : Loff) :
    let o := st.ioctl cmd arg ppos
    (cmd = chardevReset ∧ o.1.bytes = [] ∧ o.2.2.ret = 0) ∨
    (cmd = chardevGsize ∧ arg.room < sizeofInt ∧ o.1 = st ∧ o.2.1 = ppos ∧ o.2.2.ret = -EFAULT) ∨
    (cmd = chardevGsize ∧ sizeofInt ≤ arg.room ∧ o.1 = st ∧ o.2.2.ret = 0 ∧
      o.2.2.delivered = intBytes st.bytes.length) ∨
    (cmd = chardevSecho ∧ arg.bytes.length < sizeofInt ∧ o = (st, ppos, { ret := -EFAULT })) ∨
    (cmd = chardevSecho ∧ sizeofInt ≤ arg.bytes.length ∧ o.1.bytes = st.bytes ∧ o.2.2.ret = 0) ∨
    (cmd ≠ chardevReset ∧ cmd ≠ chardevGsize ∧ cmd ≠ chardevSecho ∧
      o = (st, ppos, { ret := -ENOTTY })) := by
  intro o
  by_cases hreset : cmd = chardevReset
  · refine Or.inl ⟨hreset, ?_⟩
    simp [o, Stream.ioctl, if_pos hreset, Stream.dropFront]
  refine Or.inr ?_
  by_cases hgsize : cmd = chardevGsize
  · by_cases hroom : arg.room < sizeofInt
    · refine Or.inl ⟨hgsize, hroom, ?_⟩
      simp [o, Stream.ioctl, if_neg hreset, if_pos hgsize, if_pos hroom]
    · refine Or.inr (Or.inl ⟨hgsize, Nat.le_of_not_lt hroom, ?_⟩)
      simp [o, Stream.ioctl, if_neg hreset, if_pos hgsize, if_neg hroom]
  refine Or.inr (Or.inr ?_)
  by_cases hsecho : cmd = chardevSecho
  · by_cases hfault : arg.bytes.length < sizeofInt
    · refine Or.inl ⟨hsecho, hfault, ?_⟩
      simp only [o, Stream.ioctl, if_neg hreset, if_neg hgsize, if_pos hsecho, if_pos hfault]
    · refine Or.inr (Or.inl ⟨hsecho, Nat.le_of_not_lt hfault, ?_⟩)
      simp [o, Stream.ioctl, if_neg hreset, if_neg hgsize, if_pos hsecho, if_neg hfault]
  · refine Or.inr (Or.inr ⟨hreset, hgsize, hsecho, ?_⟩)
    simp only [o, Stream.ioctl, if_neg hreset, if_neg hgsize, if_neg hsecho]

theorem commands_distinct :
    chardevReset ≠ chardevGsize ∧ chardevReset ≠ chardevSecho ∧ chardevGsize ≠ chardevSecho := by
  decide

/-- Only `CHARDEV_RESET` changes the bytes. -/
theorem Stream.ioctl_bytes (st : Stream) (cmd : Nat) (arg : UserBuf) (ppos : Loff) :
    (st.ioctl cmd arg ppos).1.bytes = if cmd = chardevReset then [] else st.bytes := by
  obtain ⟨hrg, hrs, -⟩ := commands_distinct
  rcases st.ioctl_cases cmd arg ppos with
    ⟨hc, hb, -⟩ | ⟨hc, -, hs, -⟩ | ⟨hc, -, hs, -⟩ | ⟨hc, -, ho⟩ | ⟨hc, -, hb, -⟩ | ⟨hc, -, -, ho⟩
  · rw [hb, if_pos hc]
  · rw [hs, if_neg (hc ▸ hrg.symm)]
  · rw [hs, if_neg (hc ▸ hrg.symm)]
  · rw [ho, if_neg (hc ▸ hrs.symm)]
  · rw [hb, if_neg (hc ▸ hrs.symm)]
  · rw [ho, if_neg hc]

/-- Every call is one event of the FIFO. -/
theorem Stream.exec_step (st : Stream) (ppos : Loff) (c : Call) (r : Reply)
    (hr : r.toVisible = (st.exec ppos c).2.2) :
    Step st.fifo (eventOf (c, r)) (st.exec ppos c).1.fifo := by
  have hret : r.ret = (st.exec ppos c).2.2.ret := by rw [← hr]
  have hdel : r.delivered = (st.exec ppos c).2.2.delivered := by rw [← hr]
  cases c with
  | read file ubuf count =>
    simp only [eventOf, hret, hdel, Stream.exec]
    rcases st.read_cases ubuf count ppos with ⟨-, ho⟩ | ⟨-, -, hs, -, hf⟩ | ⟨-, -, hn, hd, hs⟩
    · rw [ho]
      exact Step.get [] rfl
    · rw [hf, if_neg (by decide)]
      exact Step.skip (by rw [hs])
    · rw [hn, if_pos (Int.natCast_nonneg _), hd]
      exact Step.get _ ((List.take_append_drop _ _).symm.trans (by rw [Stream.fifo, ← hs]; rfl))
  | write file ubuf count =>
    simp only [eventOf, hret, Stream.exec]
    rcases st.write_cases ubuf count ppos with ⟨-, ho⟩ | ⟨-, -, ho⟩ | ⟨-, -, hn, hs⟩
    · rw [ho, if_neg (show ¬ 0 ≤ -ENOSPC by decide)]
      exact Step.skip rfl
    · rw [ho, if_neg (show ¬ 0 ≤ -EFAULT by decide)]
      exact Step.skip rfl
    · rw [hn, if_pos (Int.natCast_nonneg _), Int.toNat_natCast]
      exact Step.put _ hs
  | llseek file offset whence => exact Step.skip rfl
  | ioctl file cmd arg =>
    have hb := st.ioctl_bytes cmd arg ppos
    simp only [eventOf, Stream.exec]
    by_cases hreset : cmd = chardevReset
    · rw [if_pos hreset] at hb ⊢
      exact Step.clear hb
    · rw [if_neg hreset] at hb ⊢
      exact Step.skip hb

/-- Along every run the driver shows some stream, and the trace is a run of the
FIFO from the stream it started with. -/
theorem run_shows (cs : List Call) {s : Node} {a : Spec} (h : NodeShows s a) :
    ∃ a', NodeShows (s.run cs).1 a' ∧
      Run a.st.fifo ((s.run cs).2.map eventOf) a'.st.fifo := by
  induction cs generalizing s a with
  | nil => exact ⟨a, h, Run.nil _⟩
  | cons c cs ih =>
    obtain ⟨hs, hv⟩ := call_shows h c
    obtain ⟨a', ha', hrun⟩ := ih hs
    exact ⟨a', ha', Run.cons (a.st.exec_step _ c _ hv) hrun⟩

/-- **The device is a bounded FIFO byte stream.** After every list of calls, what
successful reads returned since the last reset, followed by the live bytes, is
what successful writes accepted since then. The next successful write accepts
exactly the first `min count (BUF_SIZE - buf_len)` bytes of the user, and the next
successful `CHARDEV_GSIZE` reports the accepted minus the returned bytes. -/
theorem chardev_fifo_stream (buf : Vector UInt8 bufSize) (fpos : Nat → Loff)
    (calls : List Call) :
    let s := ((chardevInit buf fpos).run calls).1
    let h := history ((chardevInit buf fpos).run calls).2
    h.got ++ s.dev.live = h.put ∧
    (∀ file ubuf count, 0 ≤ (s.call (.write file ubuf count)).2.ret →
      let n := min count (bufSize - s.dev.bufLen)
      (s.call (.write file ubuf count)).2.ret = n ∧ n ≤ ubuf.bytes.length ∧
      (s.call (.write file ubuf count)).1.dev.live = s.dev.live ++ ubuf.bytes.take n) ∧
    (∀ file arg, 0 ≤ (s.call (.ioctl file chardevGsize arg)).2.ret →
      intOfBytes (s.call (.ioctl file chardevGsize arg)).2.delivered =
        h.put.length - h.got.length) := by
  intro s h
  obtain ⟨a, hs, hrun⟩ := run_shows calls (chardevInit_shows buf fpos)
  have hlaw := run_explains hrun History.empty rfl
  have hlive : s.dev.live = a.st.bytes := hs.dev.live
  have hlen : a.st.bytes.length = s.dev.bufLen := hs.dev.length
  refine ⟨by rw [hlive]; exact hlaw, ?_, ?_⟩
  · intro file ubuf count hok n
    obtain ⟨hs', hv⟩ := call_shows hs (.write file ubuf count)
    have hret := congrArg Visible.ret hv
    rw [hs'.dev.live, hlive]
    rw [hret] at hok ⊢
    rcases a.st.write_cases ubuf count (a.fpos file) with ⟨-, ho⟩ | ⟨-, -, ho⟩ | ⟨-, hn, hr, hb⟩
    · exact absurd hok (by simp only [Spec.call, Stream.exec, Call.file, ho]; decide)
    · exact absurd hok (by simp only [Spec.call, Stream.exec, Call.file, ho]; decide)
    · rw [hlen] at hn hr hb
      exact ⟨hr, hn, hb⟩
  · intro file arg hok
    obtain ⟨-, hv⟩ := call_shows hs (.ioctl file chardevGsize arg)
    rw [congrArg Visible.ret hv] at hok
    rw [congrArg Visible.delivered hv]
    have hd : (a.call (.ioctl file chardevGsize arg)).2.delivered =
        intBytes a.st.bytes.length := by
      obtain ⟨hrg, -, hgs⟩ := commands_distinct
      rcases a.st.ioctl_cases chardevGsize arg (a.fpos file) with
        ⟨hc, -⟩ | ⟨-, -, -, -, hr⟩ | ⟨-, -, -, -, hd⟩ | ⟨hc, -⟩ | ⟨hc, -⟩ | ⟨-, hc, -⟩
      · exact absurd hc.symm hrg
      · exact absurd hok (by simp only [Spec.call, Stream.exec, Call.file, hr]; decide)
      · exact hd
      · exact absurd hc hgs
      · exact absurd hc hgs
      · exact absurd rfl hc
    have hcount : h.got.length + a.st.bytes.length = h.put.length := History.Explains.length hlaw
    have hb := a.st.bound
    unfold bufSize at hb
    rw [hd, intOfBytes_intBytes _ (by omega) (by omega)]
    omega

/-- User memory that can be read and written at will. -/
def userBytes (bytes : List UInt8) : UserBuf := ⟨bytes, 16, fun _ => none⟩

-- the calls of `test/device_driver_test.c`, on any freshly allocated buffer
example (buf : Vector UInt8 bufSize) :
    ((chardevInit buf fun _ => 0).observe
      [.write 0 (userBytes [104, 101, 108, 108, 111]) 5, .ioctl 0 chardevGsize (userBytes []),
        .read 0 (userBytes []) 16, .write 0 (userBytes [104]) 1,
        .ioctl 0 chardevSecho (userBytes [0, 0, 0, 0]), .ioctl 0 chardevReset (userBytes []),
        .ioctl 0 chardevGsize (userBytes [])]).map (fun o => (o.1.ret, o.1.delivered)) =
      [(5, []), (0, [5, 0, 0, 0]), (5, [104, 101, 108, 108, 111]), (1, []), (0, []), (0, []),
        (0, [0, 0, 0, 0])] := by
  rw [observe_shows _ (chardevInit_shows buf _)]
  decide +kernel

/-! ## Failing calls -/

/-- A failing stream operation changes neither the stream nor the position. -/
theorem Stream.exec_fail (st : Stream) (ppos : Loff) (c : Call)
    (hf : (st.exec ppos c).2.2.ret < 0) :
    (st.exec ppos c).1 = st ∧ (st.exec ppos c).2.1 = ppos := by
  cases c with
  | read file ubuf count =>
    simp only [Stream.exec] at hf ⊢
    rcases st.read_cases ubuf count ppos with ⟨-, ho⟩ | ⟨-, -, hs, hp, -⟩ | ⟨-, -, hn, -⟩
    · rw [ho]
      exact ⟨rfl, rfl⟩
    · exact ⟨hs, hp⟩
    · rw [hn] at hf
      omega
  | write file ubuf count =>
    simp only [Stream.exec] at hf ⊢
    rcases st.write_cases ubuf count ppos with ⟨-, ho⟩ | ⟨-, -, ho⟩ | ⟨-, -, hn, -⟩
    · rw [ho]
      exact ⟨rfl, rfl⟩
    · rw [ho]
      exact ⟨rfl, rfl⟩
    · rw [hn] at hf
      omega
  | llseek file offset whence => exact ⟨rfl, rfl⟩
  | ioctl file cmd arg =>
    simp only [Stream.exec] at hf ⊢
    rcases st.ioctl_cases cmd arg ppos with
      ⟨-, -, hr⟩ | ⟨-, -, hs, hp, -⟩ | ⟨-, -, -, hr, -⟩ | ⟨-, -, ho⟩ | ⟨-, -, -, hr⟩ | ⟨-, -, -, ho⟩
    · omega
    · exact ⟨hs, hp⟩
    · omega
    · rw [ho]
      exact ⟨rfl, rfl⟩
    · omega
    · rw [ho]
      exact ⟨rfl, rfl⟩

theorem Spec.call_fail (a : Spec) (c : Call) (hf : (a.call c).2.ret < 0) : (a.call c).1 = a := by
  obtain ⟨hs, hp⟩ := a.st.exec_fail _ c hf
  simp only [Spec.call, hs, hp, Function.update_eq_self]

/-- The failures of a call with return value `ret` on the device `dev`, and the
conditions under which each of them happens. -/
def FailsExactly (dev : ChardevData) (ret : Int) : Call → Prop
  | .read _ ubuf count =>
    (ret = -EFAULT ↔ dev.bufLen ≠ 0 ∧ ubuf.copyToUser (min count dev.bufLen) ≠ 0) ∧
    (ret < 0 → ret = -EFAULT)
  | .write _ ubuf count =>
    (ret = -ENOSPC ↔ dev.bufLen = bufSize) ∧
    (ret = -EFAULT ↔ dev.bufLen ≠ bufSize ∧
      ubuf.copyFromUser (min count (bufSize - dev.bufLen)) ≠ 0) ∧
    (ret < 0 → ret = -ENOSPC ∨ ret = -EFAULT)
  | .llseek _ _ _ => ret = -ESPIPE
  | .ioctl _ cmd arg =>
    (ret = -EFAULT ↔ cmd = chardevGsize ∧ arg.copyToUser sizeofInt ≠ 0 ∨
      cmd = chardevSecho ∧ arg.copyFromUser sizeofInt ≠ 0) ∧
    (ret = -ENOTTY ↔ cmd ≠ chardevReset ∧ cmd ≠ chardevGsize ∧ cmd ≠ chardevSecho) ∧
    (ret < 0 → ret = -EFAULT ∨ ret = -ENOTTY)

theorem call_failsExactly {s : Node} {a : Spec} (h : NodeShows s a) (c : Call) :
    FailsExactly s.dev (s.call c).2.ret c := by
  have hv := (call_shows h c).2
  have hlen : a.st.bytes.length = s.dev.bufLen := h.dev.length
  rw [show (s.call c).2.ret = (a.call c).2.ret from congrArg Visible.ret hv]
  cases c with
  | read file ubuf count =>
    simp only [FailsExactly, UserBuf.copyToUser_ne_zero, Spec.call, Stream.exec, Call.file]
    rw [← hlen]
    rcases a.st.read_cases ubuf count (a.fpos file) with
      ⟨h0, ho⟩ | ⟨h0, hroom, -, -, hr⟩ | ⟨h0, hroom, hr, -⟩
    · simp [ho, h0, EFAULT]
    · simp [hr, h0, hroom, EFAULT]
    · have hpos : 0 ≤ (a.st.read ubuf count (a.fpos file)).2.2.ret := by omega
      have hne : (a.st.read ubuf count (a.fpos file)).2.2.ret ≠ -EFAULT := by
        rw [EFAULT]
        omega
      simp [hne, h0, Nat.not_lt.mpr hroom, hpos]
  | write file ubuf count =>
    simp only [FailsExactly, UserBuf.copyFromUser_ne_zero, Spec.call, Stream.exec, Call.file]
    rw [← hlen]
    rcases a.st.write_cases ubuf count (a.fpos file) with
      ⟨hfull, ho⟩ | ⟨hfull, hfault, ho⟩ | ⟨hfull, hok, hr, -⟩
    · simp [ho, hfull, ENOSPC, EFAULT]
    · simp [ho, hfull, hfault, ENOSPC, EFAULT]
    · have hpos : 0 ≤ (a.st.write ubuf count (a.fpos file)).2.2.ret := by omega
      have hne : (a.st.write ubuf count (a.fpos file)).2.2.ret ≠ -EFAULT := by
        rw [EFAULT]
        omega
      have hne' : (a.st.write ubuf count (a.fpos file)).2.2.ret ≠ -ENOSPC := by
        rw [ENOSPC]
        omega
      simp [hne, hne', hfull, Nat.not_lt.mpr hok, hpos]
  | llseek file offset whence => rfl
  | ioctl file cmd arg =>
    obtain ⟨hrg, hrs, hgs⟩ := commands_distinct
    simp only [FailsExactly, UserBuf.copyToUser_ne_zero, UserBuf.copyFromUser_ne_zero, Spec.call,
      Stream.exec, Call.file]
    rcases a.st.ioctl_cases cmd arg (a.fpos file) with
      ⟨rfl, -, hr⟩ | ⟨rfl, hl, -, -, hr⟩ | ⟨rfl, hl, -, hr, -⟩ | ⟨rfl, hl, ho⟩ | ⟨rfl, hl, -, hr⟩ |
        ⟨h1, h2, h3, ho⟩
    · simp [hr, hrg, hrs, EFAULT, ENOTTY]
    · simp [hr, hl, EFAULT, ENOTTY]
    · simp [hr, hgs, Nat.not_lt.mpr hl, EFAULT, ENOTTY]
    · simp [ho, hl, EFAULT, ENOTTY]
    · simp [hr, hgs.symm, Nat.not_lt.mpr hl, EFAULT, ENOTTY]
    · simp [ho, h1, h2, h3, EFAULT, ENOTTY]

/-- **A failing call is invisible.** In every reachable state, a call that returns
a negative value leaves the fill level, the echo flag, the live bytes and every
file position as they were, gives the lock back, and no list of later calls can
tell that it was made. The failures are exactly those of `FailsExactly`. -/
theorem failing_call_invisible (buf : Vector UInt8 bufSize) (fpos : Nat → Loff)
    (calls : List Call) (c : Call) :
    let s := ((chardevInit buf fpos).run calls).1
    let s' := (s.call c).1
    ((s.call c).2.ret < 0 →
      s'.dev.bufLen = s.dev.bufLen ∧ s'.dev.echo = s.dev.echo ∧ s'.dev.live = s.dev.live ∧
      s'.fpos = s.fpos ∧ s'.dev.lock = false ∧ ∀ cs, s'.observe cs = s.observe cs) ∧
    FailsExactly s.dev (s.call c).2.ret c := by
  intro s s'
  obtain ⟨a, hs, -⟩ := run_shows calls (chardevInit_shows buf fpos)
  refine ⟨?_, call_failsExactly hs c⟩
  intro hf
  obtain ⟨hs', hv⟩ := call_shows hs c
  rw [show (s.call c).2.ret = (a.call c).2.ret from congrArg Visible.ret hv] at hf
  -- both devices show the same stream, so every later observation is the stream's
  rw [a.call_fail c hf] at hs'
  refine ⟨hs'.dev.length.symm.trans hs.dev.length, hs'.dev.echo.trans hs.dev.echo.symm,
    hs'.dev.live.trans hs.dev.live.symm, hs'.fpos.trans hs.fpos.symm, hs'.dev.wf.unlocked, ?_⟩
  intro cs
  exact (observe_shows cs hs').trans (observe_shows cs hs).symm

/-- A write of two bytes whose second byte faults: the first byte is already in
`buf`, and the kernel fills the other one with 9. -/
def faultingWrite : Call := .write 0 ⟨[7], 0, fun _ => some 9⟩ 2

theorem faultingWrite_invisible :
    let s := chardevInit (Vector.replicate bufSize 0) fun _ => 0
    (s.call faultingWrite).2.ret = -EFAULT ∧
      ∀ cs, (s.call faultingWrite).1.observe cs = s.observe cs := by
  have h := (failing_call_invisible (Vector.replicate bufSize 0) (fun _ => 0) [] faultingWrite).1
    (by decide +kernel)
  exact ⟨by decide +kernel, h.2.2.2.2.2⟩

end LearnLinux.Chardev
