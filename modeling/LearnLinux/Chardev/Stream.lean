import LearnLinux.Chardev.Driver
import LearnLinux.Lib.Fifo

/-!
# The device as a bounded byte stream

`Stream` says what the device is for: a sequence of at most `BUF_SIZE` bytes that
is read from the front and written at the back. It has no buffer, no stale bytes
and no wrapping arithmetic. `exec_refines` shows that every file operation of the
driver is the stream operation of the same name under `Shows`, faults included.
-/

namespace LearnLinux.Chardev

open CInt Segment

/-! ## The abstract device -/

/-- At most `BUF_SIZE` bytes, oldest first, and the echo flag. -/
structure Stream where
  bytes : List UInt8
  bound : bytes.length ≤ bufSize
  echo : Int

/-- The stream without its first `n` bytes. -/
def Stream.dropFront (st : Stream) (n : Nat) : Stream :=
  { st with
    bytes := st.bytes.drop n
    bound := Nat.le_trans (by simp) st.bound }

/-- The stream with the part of `xs` that fits behind its last byte. -/
def Stream.append (st : Stream) (xs : List UInt8) : Stream :=
  { st with
    bytes := st.bytes ++ xs.take (bufSize - st.bytes.length)
    bound := by
      have := st.bound
      simp only [List.length_append, List.length_take]
      omega }

def Stream.read (st : Stream) (ubuf : UserBuf) (count : Nat) (ppos : Loff) :
    Stream × Loff × Visible :=
  let n := min count st.bytes.length
  if st.bytes.length = 0 then (st, ppos, { ret := 0 })
  else if ubuf.room < n then
    (st, ppos, { ret := -EFAULT, delivered := (st.bytes.take n).take ubuf.room })
  else
    (st.dropFront n, ppos + BitVec.ofNat 64 n,
      { ret := n, delivered := st.bytes.take n, log := [.read n] })

def Stream.write (st : Stream) (ubuf : UserBuf) (count : Nat) (ppos : Loff) :
    Stream × Loff × Visible :=
  let n := min count (bufSize - st.bytes.length)
  if st.bytes.length = bufSize then (st, ppos, { ret := -ENOSPC })
  else if ubuf.bytes.length < n then (st, ppos, { ret := -EFAULT })
  else
    (st.append (ubuf.bytes.take n), ppos + BitVec.ofNat 64 n,
      { ret := n,
        log := if st.echo ≠ 0 then [.writeEcho n ((ubuf.bytes.take n).takeWhile (· ≠ 0))]
          else [.write n] })

def Stream.ioctl (st : Stream) (cmd : Nat) (arg : UserBuf) (ppos : Loff) :
    Stream × Loff × Visible :=
  if cmd = chardevReset then
    (st.dropFront st.bytes.length, ppos, { ret := 0, log := [.reset] })
  else if cmd = chardevGsize then
    if arg.room < sizeofInt then
      (st, ppos, { ret := -EFAULT, delivered := (intBytes st.bytes.length).take arg.room })
    else (st, ppos, { ret := 0, delivered := intBytes st.bytes.length })
  else if cmd = chardevSecho then
    if arg.bytes.length < sizeofInt then (st, ppos, { ret := -EFAULT })
    else
      let val := intOfBytes (arg.bytes.take sizeofInt)
      ({ st with echo := val }, ppos, { ret := 0, log := [.secho val] })
  else (st, ppos, { ret := -ENOTTY })

def Stream.exec (st : Stream) (ppos : Loff) : Call → Stream × Loff × Visible
  | .read _ ubuf count => st.read ubuf count ppos
  | .write _ ubuf count => st.write ubuf count ppos
  | .llseek _ _ _ => (st, ppos, { ret := -ESPIPE })
  | .ioctl _ cmd arg => st.ioctl cmd arg ppos

/-! ## The driver refines the stream -/

/-- `dev` holds exactly the bytes of `st` in front of its stale bytes. -/
structure Shows (dev : ChardevData) (st : Stream) : Prop where
  wf : dev.Wf
  live : dev.live = st.bytes
  echo : dev.echo = st.echo

/-- An outcome of the driver shows the outcome of the stream. -/
structure OutcomeShows (o : Outcome) (a : Stream × Loff × Visible) : Prop where
  dev : Shows o.dev a.1
  ppos : o.ppos = a.2.1
  visible : o.reply.toVisible = a.2.2

theorem Shows.length {dev : ChardevData} {st : Stream} (h : Shows dev st) :
    st.bytes.length = dev.bufLen := by
  rw [← h.live, h.wf.length_live]

/-- Taking and giving back a free lock changes nothing. -/
theorem ChardevData.lock_unlock {dev : ChardevData} (h : dev.Wf) :
    dev.mutexLock.mutexUnlock = dev := by
  obtain ⟨lock, buf, bufLen, echo⟩ := dev
  have hu : lock = false := h.unlocked
  subst hu
  rfl

theorem UserBuf.copyToUser_ne_zero (ubuf : UserBuf) (n : Nat) :
    ubuf.copyToUser n ≠ 0 ↔ ubuf.room < n := by
  unfold UserBuf.copyToUser
  omega

theorem UserBuf.copyFromUser_ne_zero (ubuf : UserBuf) (n : Nat) :
    ubuf.copyFromUser n ≠ 0 ↔ ubuf.bytes.length < n := by
  unfold UserBuf.copyFromUser
  omega

theorem UserBuf.landed_of_le (ubuf : UserBuf) (old : List UInt8) (n : Nat)
    (ho : old.length ≤ n) (h : n ≤ ubuf.bytes.length) : ubuf.landed old n = ubuf.bytes.take n := by
  unfold UserBuf.landed
  rw [List.drop_eq_nil_of_le (by omega), List.mapIdx_nil, List.append_nil]

theorem UserBuf.length_landed (ubuf : UserBuf) (old : List UInt8) (n : Nat)
    (ho : old.length = n) : (ubuf.landed old n).length = n := by
  simp only [UserBuf.landed, List.length_append, List.length_take, List.length_mapIdx,
    List.length_drop, ho]
  omega

/-- Shifting the buffer by `n` bytes drops `n` bytes from the stream. -/
theorem Shows.shift {dev : ChardevData} {st : Stream} (h : Shows dev st) (n : Nat)
    (hn : n ≤ dev.bufLen) :
    Shows
      { lock := false, bufLen := dev.bufLen - n, echo := dev.echo,
        buf := blit dev.buf 0 (slice dev.buf n (dev.bufLen - n)) }
      (st.dropFront n) := by
  have hfit := h.wf.fits
  have hsize := h.wf.size
  have hsplit : n + (dev.bufLen - n) = dev.bufLen := by omega
  have hin : n + (dev.bufLen - n) ≤ dev.buf.length := by omega
  refine ⟨⟨rfl, ?_, Nat.le_trans (Nat.sub_le _ _) hfit⟩, ?_, h.echo⟩
  · refine (length_blit _ _ _ ?_).trans hsize
    rw [length_slice _ _ _ hin]
    omega
  · have hshift := take_blit_shift dev.buf n (dev.bufLen - n) hin
    rw [hsplit] at hshift
    exact hshift.trans (congrArg (List.drop n) h.live)

/-- Storing `xs` behind the live bytes without counting them shows nothing. -/
theorem Shows.scribble {dev : ChardevData} {st : Stream} (h : Shows dev st) (xs : List UInt8)
    (hx : dev.bufLen + xs.length ≤ bufSize) :
    Shows
      { lock := false, bufLen := dev.bufLen, echo := dev.echo,
        buf := blit dev.buf dev.bufLen xs }
      st := by
  have hsize := h.wf.size
  refine ⟨⟨rfl, (length_blit _ _ _ (by omega)).trans hsize, h.wf.fits⟩, ?_, h.echo⟩
  have hpre : dev.bufLen ≤ dev.buf.length := by omega
  exact (take_blit_of_le _ _ _ _ (Nat.le_refl _) hpre).trans h.live

/-- Storing `xs` behind the live bytes and counting them appends them. -/
theorem Shows.extend {dev : ChardevData} {st : Stream} (h : Shows dev st) (xs : List UInt8)
    (hx : dev.bufLen + xs.length ≤ bufSize) :
    Shows
      { lock := false, bufLen := dev.bufLen + xs.length, echo := dev.echo,
        buf := blit dev.buf dev.bufLen xs }
      (st.append xs) := by
  have hsize := h.wf.size
  have hlen := h.length
  refine ⟨⟨rfl, (length_blit _ _ _ (by omega)).trans hsize, hx⟩, ?_, h.echo⟩
  have happ : (st.append xs).bytes = st.bytes ++ xs := by
    show st.bytes ++ xs.take (bufSize - st.bytes.length) = st.bytes ++ xs
    rw [List.take_of_length_le (by omega)]
  have hpre : dev.bufLen ≤ dev.buf.length := by omega
  rw [happ, ← h.live]
  exact take_blit_end dev.buf xs dev.bufLen hpre

theorem chardevRead_refines {dev : ChardevData} {st : Stream} (h : Shows dev st)
    (ubuf : UserBuf) (count : Nat) (ppos : Loff) :
    OutcomeShows (chardevRead dev ubuf count ppos) (st.read ubuf count ppos) := by
  have hfit := h.wf.fits
  unfold chardevRead Stream.read
  simp only [show dev.mutexLock.bufLen = dev.bufLen from rfl,
    show dev.mutexLock.buf = dev.buf from rfl, ChardevData.lock_unlock h.wf, slice_zero,
    UserBuf.copyToUser_ne_zero, h.length]
  have hn : min count dev.bufLen ≤ dev.bufLen := Nat.min_le_right _ _
  generalize min count dev.bufLen = n at hn ⊢
  by_cases h0 : dev.bufLen = 0
  · rw [if_pos h0, if_pos h0]
    exact ⟨h, rfl, rfl⟩
  rw [if_neg h0, if_neg h0]
  have hlive : dev.buf.take n = st.bytes.take n := by
    rw [← h.live, ChardevData.live, List.take_take, Nat.min_eq_left hn]
  by_cases hroom : ubuf.room < n
  · rw [if_pos hroom, if_pos hroom, hlive]
    exact ⟨h, rfl, rfl⟩
  · have hsub : subSize dev.bufLen n = dev.bufLen - n :=
      subSize_eq _ _ hn (Nat.lt_of_le_of_lt hfit bufSize_lt_sizeRange)
    have hret : toSsize n = n := toSsize_eq _ (by unfold bufSize at hfit; omega)
    rw [if_neg hroom, if_neg hroom, hsub, hret, hlive]
    exact ⟨h.shift n hn, rfl, rfl⟩

theorem chardevWrite_refines {dev : ChardevData} {st : Stream} (h : Shows dev st)
    (ubuf : UserBuf) (count : Nat) (ppos : Loff) :
    OutcomeShows (chardevWrite dev ubuf count ppos) (st.write ubuf count ppos) := by
  have hfit := h.wf.fits
  have hsize := h.wf.size
  unfold chardevWrite Stream.write
  simp only [show dev.mutexLock.bufLen = dev.bufLen from rfl,
    show dev.mutexLock.buf = dev.buf from rfl, show dev.mutexLock.echo = dev.echo from rfl,
    ChardevData.lock_unlock h.wf, UserBuf.copyFromUser_ne_zero, h.length,
    subSize_eq _ _ hfit bufSize_lt_sizeRange]
  have hn : dev.bufLen + min count (bufSize - dev.bufLen) ≤ bufSize := by omega
  generalize min count (bufSize - dev.bufLen) = n at hn ⊢
  by_cases hfull : dev.bufLen = bufSize
  · rw [if_pos (by omega), if_pos hfull]
    exact ⟨h, rfl, rfl⟩
  rw [if_neg (by omega), if_neg hfull]
  have hold : (slice dev.buf dev.bufLen n).length = n := length_slice _ _ _ (by omega)
  by_cases hfault : ubuf.bytes.length < n
  · -- the scribbled bytes all lie past `buf_len`
    rw [if_pos hfault, if_pos hfault]
    refine ⟨h.scribble _ ?_, rfl, rfl⟩
    rwa [ubuf.length_landed _ n hold]
  have hin : ubuf.landed (slice dev.buf dev.bufLen n) n = ubuf.bytes.take n :=
    ubuf.landed_of_le _ _ (Nat.le_of_eq hold) (Nat.le_of_not_lt hfault)
  have hxs : (ubuf.bytes.take n).length = n := List.length_take_of_le (Nat.le_of_not_lt hfault)
  have hsum : dev.bufLen + n < sizeRange := Nat.lt_of_le_of_lt hn bufSize_lt_sizeRange
  have hadd : addSize dev.bufLen n = dev.bufLen + n := addSize_eq _ _ hsum
  have hoff : subSize (dev.bufLen + n) n = dev.bufLen := by
    rw [subSize_eq _ _ (Nat.le_add_left ..) hsum, Nat.add_sub_cancel]
  have hret : toSsize n = n := toSsize_eq _ (by unfold bufSize at hn; omega)
  have hshow := h.extend (ubuf.bytes.take n) (by rwa [hxs])
  have hecho := slice_blit dev.buf (ubuf.bytes.take n) dev.bufLen (by omega)
  rw [hxs] at hshow hecho
  rw [if_neg hfault, if_neg hfault, hadd, hoff, hret, hin, hecho, ← h.echo]
  by_cases he : dev.echo ≠ 0
  · simp only [if_pos he]
    exact ⟨hshow, rfl, rfl⟩
  · simp only [if_neg he]
    exact ⟨hshow, rfl, rfl⟩

/-- Emptying the device leaves no byte of the stream. -/
theorem Shows.reset {dev : ChardevData} {st : Stream} (h : Shows dev st) (xs : List UInt8)
    (hx : xs.length = bufSize) :
    Shows { lock := false, bufLen := 0, echo := dev.echo, buf := blit dev.buf 0 xs }
      (st.dropFront st.bytes.length) := by
  have hsize := h.wf.size
  refine ⟨⟨rfl, (length_blit _ _ _ (by omega)).trans hsize, Nat.zero_le _⟩, ?_, h.echo⟩
  show List.take 0 _ = st.bytes.drop st.bytes.length
  rw [List.take_zero, List.drop_length]

theorem Shows.setEcho {dev : ChardevData} {st : Stream} (h : Shows dev st) (val : Int) :
    Shows { dev with lock := false, echo := val } { st with echo := val } :=
  ⟨⟨rfl, h.wf.size, h.wf.fits⟩, h.live, rfl⟩

theorem chardevIoctl_refines {dev : ChardevData} {st : Stream} (h : Shows dev st)
    (cmd : Nat) (arg : UserBuf) (ppos : Loff) :
    OutcomeShows (chardevIoctl dev cmd arg ppos) (st.ioctl cmd arg ppos) := by
  have hval : toInt dev.bufLen = st.bytes.length := by
    have hfit := h.wf.fits
    rw [h.length]
    exact toInt_eq _ (by unfold bufSize at hfit; omega)
  unfold chardevIoctl Stream.ioctl
  by_cases hreset : cmd = chardevReset
  · rw [if_pos hreset, if_pos hreset]
    exact ⟨h.reset _ List.length_replicate, rfl, rfl⟩
  rw [if_neg hreset, if_neg hreset]
  by_cases hgsize : cmd = chardevGsize
  · rw [if_pos hgsize, if_pos hgsize]
    simp only [show dev.mutexLock.bufLen = dev.bufLen from rfl, ChardevData.lock_unlock h.wf, hval,
      UserBuf.copyToUser_ne_zero]
    by_cases hroom : arg.room < sizeofInt
    · rw [if_pos hroom, if_pos hroom]
      exact ⟨h, rfl, rfl⟩
    · rw [if_neg hroom, if_neg hroom]
      exact ⟨h, rfl, rfl⟩
  rw [if_neg hgsize, if_neg hgsize]
  by_cases hsecho : cmd = chardevSecho
  · rw [if_pos hsecho, if_pos hsecho]
    simp only [UserBuf.copyFromUser_ne_zero]
    by_cases hfault : arg.bytes.length < sizeofInt
    · rw [if_pos hfault, if_pos hfault]
      exact ⟨h, rfl, rfl⟩
    · rw [if_neg hfault, if_neg hfault]
      exact ⟨h.setEcho _, rfl, rfl⟩
  · rw [if_neg hsecho, if_neg hsecho]
    exact ⟨h, rfl, rfl⟩

/-- **Refinement.** Every file operation shows the stream operation. -/
theorem exec_refines {dev : ChardevData} {st : Stream} (h : Shows dev st) (ppos : Loff)
    (c : Call) : OutcomeShows (c.exec dev ppos) (st.exec ppos c) := by
  cases c with
  | read _ ubuf count => exact chardevRead_refines h ubuf count ppos
  | write _ ubuf count => exact chardevWrite_refines h ubuf count ppos
  | llseek _ offset whence => exact ⟨h, rfl, rfl⟩
  | ioctl _ cmd arg => exact chardevIoctl_refines h cmd arg ppos

end LearnLinux.Chardev
