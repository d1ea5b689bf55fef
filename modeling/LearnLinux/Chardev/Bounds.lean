import LearnLinux.Chardev.Runs

/-!
# The driver inside its buffer

Every pointer of the file operations is `dev->buf` plus a fill level, and every length is a
`size_t` that may wrap. Both are right only because `buf_len` is at most `BUF_SIZE` between
calls, which `run_shows` keeps along every run.

`chardev_stays_in_buffer`: from every reachable state and for every count, no call touches a
byte outside `dev->buf`, no subtraction wraps and no conversion loses a bit.
-/

namespace LearnLinux.Chardev

open CInt

/-- The range lies in the `BUF_SIZE` bytes at `dev->buf`. -/
def Access.Inside : Access → Prop
  | .load off len => off + len ≤ bufSize
  | .store off len => off + len ≤ bufSize

section Sizes

variable {dev : ChardevData}

/-- What `chardev_read` subtracts and returns. -/
theorem ChardevData.Wf.read_sizes (h : dev.Wf) (count : Nat) :
    let n := min count dev.bufLen
    n ≤ dev.bufLen ∧ subSize dev.bufLen n = dev.bufLen - n ∧ n < 2 ^ 63 := by
  intro n
  have hfit := h.fits
  have hn : n ≤ dev.bufLen := Nat.min_le_right _ _
  refine ⟨hn, subSize_eq _ _ hn (Nat.lt_of_le_of_lt hfit bufSize_lt_sizeRange), ?_⟩
  unfold bufSize at hfit
  omega

/-- What `chardev_write` subtracts, adds, prints and returns. -/
theorem ChardevData.Wf.write_sizes (h : dev.Wf) (count : Nat) :
    let n := min count (bufSize - dev.bufLen)
    subSize bufSize dev.bufLen = bufSize - dev.bufLen ∧ addSize dev.bufLen n = dev.bufLen + n ∧
    subSize (dev.bufLen + n) n = dev.bufLen ∧ toInt n = n ∧ dev.bufLen + n ≤ bufSize ∧
    n < 2 ^ 63 := by
  intro n
  have hfit := h.fits
  have hn : dev.bufLen + n ≤ bufSize := by omega
  have hsum : dev.bufLen + n < sizeRange := Nat.lt_of_le_of_lt hn bufSize_lt_sizeRange
  have hoff : subSize (dev.bufLen + n) n = dev.bufLen := by
    rw [subSize_eq _ _ (Nat.le_add_left ..) hsum, Nat.add_sub_cancel]
  have hsmall : n ≤ 4096 := Nat.le_trans (Nat.le_add_left ..) hn
  exact ⟨subSize_eq _ _ hfit bufSize_lt_sizeRange, addSize_eq _ _ hsum, hoff,
    toInt_eq _ (by omega), hn, by omega⟩

/-- The three ways through `chardev_read`. -/
theorem chardevRead_touched (h : dev.Wf) (ubuf : UserBuf) (count : Nat) (ppos : Loff) :
    let n := min count dev.bufLen
    let r := (chardevRead dev ubuf count ppos).reply
    (dev.bufLen = 0 ∧ r.ret = 0 ∧ r.touched = []) ∨
    (r.ret = -EFAULT ∧ r.touched = [.load 0 n]) ∨
    (r.ret = n ∧
      r.touched = [.load 0 n, .load n (dev.bufLen - n), .store 0 (dev.bufLen - n)]) := by
  obtain ⟨-, hsub, hlt⟩ := h.read_sizes count
  intro n r
  unfold r chardevRead
  simp only [show dev.mutexLock.bufLen = dev.bufLen from rfl]
  by_cases h0 : dev.bufLen = 0
  · rw [if_pos h0]
    exact Or.inl ⟨h0, rfl, rfl⟩
  rw [if_neg h0]
  by_cases hfault : ubuf.copyToUser n ≠ 0
  · rw [if_pos hfault]
    exact Or.inr (Or.inl ⟨rfl, rfl⟩)
  · rw [if_neg hfault, hsub]
    exact Or.inr (Or.inr ⟨toSsize_eq _ hlt, rfl⟩)

/-- The three ways through `chardev_write`; the echo branch loads what was just stored. -/
theorem chardevWrite_touched (h : dev.Wf) (ubuf : UserBuf) (count : Nat) (ppos : Loff) :
    let n := min count (bufSize - dev.bufLen)
    let r := (chardevWrite dev ubuf count ppos).reply
    (r.ret = -ENOSPC ∧ r.touched = []) ∨
    (r.ret = -EFAULT ∧ r.touched = [.store dev.bufLen n]) ∨
    (r.ret = n ∧
      r.touched = .store dev.bufLen n :: if dev.echo ≠ 0 then [.load dev.bufLen n] else []) := by
  obtain ⟨hspace, hadd, hoff, -, -, hlt⟩ := h.write_sizes count
  intro n r
  unfold r chardevWrite
  simp only [show dev.mutexLock.bufLen = dev.bufLen from rfl,
    show dev.mutexLock.echo = dev.echo from rfl, hspace]
  by_cases h0 : bufSize - dev.bufLen = 0
  · rw [if_pos h0]
    exact Or.inl ⟨rfl, rfl⟩
  rw [if_neg h0]
  by_cases hfault : ubuf.copyFromUser n ≠ 0
  · rw [if_pos hfault]
    exact Or.inr (Or.inl ⟨rfl, rfl⟩)
  · rw [if_neg hfault, hadd, hoff]
    refine Or.inr (Or.inr ?_)
    by_cases he : dev.echo ≠ 0
    · rw [if_pos he, if_pos he]
      exact ⟨toSsize_eq _ hlt, rfl⟩
    · rw [if_neg he, if_neg he]
      exact ⟨toSsize_eq _ hlt, rfl⟩

/-- `CHARDEV_RESET` clears the whole buffer; the other commands touch none of it. -/
theorem chardevIoctl_touched (cmd : Nat) (arg : UserBuf) (ppos : Loff) :
    (chardevIoctl dev cmd arg ppos).reply.touched =
      if cmd = chardevReset then [.store 0 bufSize] else [] := by
  unfold chardevIoctl
  by_cases hreset : cmd = chardevReset
  · rw [if_pos hreset, if_pos hreset]
  rw [if_neg hreset, if_neg hreset]
  split
  · split <;> rfl
  · split
    · split <;> rfl
    · rfl

/-- No file operation leaves the buffer. -/
theorem exec_inside (h : dev.Wf) (ppos : Loff) (c : Call) :
    ∀ x ∈ (c.exec dev ppos).reply.touched, x.Inside := by
  have hfit := h.fits
  cases c with
  | read file ubuf count =>
    have hn : min count dev.bufLen ≤ dev.bufLen := Nat.min_le_right _ _
    simp only [Call.exec]
    rcases chardevRead_touched h ubuf count ppos with ⟨-, -, ht⟩ | ⟨-, ht⟩ | ⟨-, ht⟩
    · simp [ht]
    · simp only [ht, List.forall_mem_singleton, Access.Inside]
      omega
    · simp only [ht, List.forall_mem_cons, Access.Inside]
      exact ⟨by omega, by omega, by omega, nofun⟩
  | write file ubuf count =>
    obtain ⟨-, -, -, -, hn, -⟩ := h.write_sizes count
    simp only [Call.exec]
    rcases chardevWrite_touched h ubuf count ppos with ⟨-, ht⟩ | ⟨-, ht⟩ | ⟨-, ht⟩
    · simp [ht]
    · simp only [ht, List.forall_mem_singleton, Access.Inside]
      exact hn
    · rw [ht, List.forall_mem_cons]
      refine ⟨hn, ?_⟩
      split
      · rw [List.forall_mem_singleton]
        exact hn
      · simp
  | llseek file offset whence => simp [Call.exec, chardevLlseek]
  | ioctl file cmd arg =>
    simp only [Call.exec, chardevIoctl_touched]
    split
    · simp [Access.Inside]
    · simp

end Sizes

/-- **The driver never leaves its buffer and its arithmetic never wraps**, in every state that
a list of calls reaches from `chardev_init` and for every count. -/
theorem chardev_stays_in_buffer (buf : Vector UInt8 bufSize) (fpos : Nat → Loff)
    (calls : List Call) :
    let s := ((chardevInit buf fpos).run calls).1
    let len := s.dev.bufLen
    len ≤ bufSize ∧ toInt len = len ∧
    (∀ c, ∀ x ∈ (s.call c).2.touched, x.Inside) ∧
    (∀ file ubuf count,
      let n := min count len
      let r := (s.call (.read file ubuf count)).2
      n ≤ len ∧ subSize len n = len - n ∧
      r.touched <+: [.load 0 n, .load n (len - n), .store 0 (len - n)] ∧
      (0 ≤ r.ret → r.ret = n ∧ n ≤ count ∧ n < 2 ^ 63 ∧
        (len ≠ 0 → r.touched = [.load 0 n, .load n (len - n), .store 0 (len - n)]))) ∧
    (∀ file ubuf count,
      let n := min count (bufSize - len)
      let r := (s.call (.write file ubuf count)).2
      subSize bufSize len = bufSize - len ∧ addSize len n = len + n ∧
      subSize (len + n) n = len ∧ toInt n = n ∧
      r.touched <+: [.store len n, .load len n] ∧
      (0 ≤ r.ret → r.ret = n ∧ n ≤ count ∧ n < 2 ^ 63 ∧
        (s.dev.echo ≠ 0 → r.touched = [.store len n, .load len n]))) := by
  intro s len
  obtain ⟨a, hs, -⟩ := run_shows calls (chardevInit_shows buf fpos)
  have h : s.dev.Wf := hs.dev.wf
  have hfit : len ≤ 4096 := h.fits
  refine ⟨h.fits, toInt_eq _ (by omega), fun c => exec_inside h _ c, ?_, ?_⟩
  · intro file ubuf count n r
    obtain ⟨hn, hsub, hlt⟩ := h.read_sizes count
    have hcount : n ≤ count := Nat.min_le_left _ _
    refine ⟨hn, hsub, ?_⟩
    rcases chardevRead_touched h ubuf count (s.fpos file) with
      ⟨h0, hr, ht⟩ | ⟨hr, ht⟩ | ⟨hr, ht⟩
    · refine ⟨ht ▸ List.nil_prefix, fun _ => ⟨?_, hcount, hlt, fun hne => absurd h0 hne⟩⟩
      have hn0 : n = 0 := by omega
      rw [hn0]
      exact hr
    · exact ⟨ht ▸ List.prefix_append [_] _, fun hpos => absurd (hr ▸ hpos) (by decide)⟩
    · exact ⟨ht ▸ List.prefix_refl _, fun _ => ⟨hr, hcount, hlt, fun _ => ht⟩⟩
  · intro file ubuf count n r
    obtain ⟨hspace, hadd, hoff, hint, -, hlt⟩ := h.write_sizes count
    have hcount : n ≤ count := Nat.min_le_left _ _
    refine ⟨hspace, hadd, hoff, hint, ?_⟩
    rcases chardevWrite_touched h ubuf count (s.fpos file) with ⟨hr, ht⟩ | ⟨hr, ht⟩ | ⟨hr, ht⟩
    · exact ⟨ht ▸ List.nil_prefix, fun hpos => absurd (hr ▸ hpos) (by decide)⟩
    · exact ⟨ht ▸ List.prefix_append [_] _, fun hpos => absurd (hr ▸ hpos) (by decide)⟩
    · by_cases he : s.dev.echo ≠ 0
      · rw [if_pos he] at ht
        exact ⟨ht ▸ List.prefix_refl _, fun _ => ⟨hr, hcount, hlt, fun _ => ht⟩⟩
      · rw [if_neg he] at ht
        exact ⟨ht ▸ List.prefix_append [_] _,
          fun _ => ⟨hr, hcount, hlt, fun hne => absurd hne he⟩⟩

end LearnLinux.Chardev
