import LearnLinux.Lib.CInt
import LearnLinux.Lib.Segment

/-!
# The character device of `10_device_driver/chardev.c`

One `ChardevData` is the device state behind every open file. The file
operations below follow the source line by line: they take `dev->lock`, work on
`buf` and `buf_len`, and give the lock back on every path. `buf_len` and the
counts are `size_t`, so `BUF_SIZE - buf_len` and `buf_len - n` wrap.

A call returns its value together with everything a caller or the kernel log can
see, and the ranges of `dev->buf` it touched. `Node` adds the file positions and
`Node.run` a whole interleaving of calls: each call is atomic because it runs
under `dev->lock`.

Left out: `rd_pos` (no function reads it) and the arguments of `printk` that are
not computed from the device.
-/

namespace LearnLinux.Chardev

open CInt Segment

/-! ## Constants -/

/-- `BUF_SIZE`. -/
def bufSize : Nat := 4096

theorem bufSize_lt_sizeRange : bufSize < sizeRange := by decide

def ENOMEM : Int := 12
def EFAULT : Int := 14
def ENOTTY : Int := 25
def ENOSPC : Int := 28
def ESPIPE : Int := 29

/-- `_IOC(dir, type, nr, size)` of the generic ioctl encoding. -/
def ioc (dir type nr size : Nat) : Nat := dir * 2 ^ 30 + size * 2 ^ 16 + type * 2 ^ 8 + nr

/-- `CHARDEV_MAGIC`, the character `C`. -/
def chardevMagic : Nat := 67

/-- `CHARDEV_RESET`: `_IO(CHARDEV_MAGIC, 0)`. -/
def chardevReset : Nat := ioc 0 chardevMagic 0 0

/-- `CHARDEV_GSIZE`: `_IOR(CHARDEV_MAGIC, 1, int)`. -/
def chardevGsize : Nat := ioc 2 chardevMagic 1 sizeofInt

/-- `CHARDEV_SECHO`: `_IOW(CHARDEV_MAGIC, 2, int)`. -/
def chardevSecho : Nat := ioc 1 chardevMagic 2 sizeofInt

/-! ## Device state and user memory -/

/-- `struct chardev_data`: the mutex, the buffer, its fill level and the echo flag. -/
structure ChardevData where
  lock : Bool
  buf : List UInt8
  bufLen : Nat
  echo : Int

def ChardevData.mutexLock (dev : ChardevData) : ChardevData := { dev with lock := true }

def ChardevData.mutexUnlock (dev : ChardevData) : ChardevData := { dev with lock := false }

/-- The bytes the device holds: the first `buf_len` bytes of `buf`. -/
def ChardevData.live (dev : ChardevData) : List UInt8 := dev.buf.take dev.bufLen

/-- `loff_t`, a 64-bit file position. -/
abbrev Loff := BitVec 64

/-- User memory at a pointer given to the driver. `bytes` can be read and `room`
bytes can be stored before the first fault. `fill` is what a faulting
`copy_from_user` leaves in the rest of the kernel range: some kernels zero it,
some do not touch it. -/
structure UserBuf where
  bytes : List UInt8
  room : Nat
  fill : Nat → Option UInt8

/-- The return value of `copy_to_user(ubuf, _, n)`: the bytes not copied. -/
def UserBuf.copyToUser (ubuf : UserBuf) (n : Nat) : Nat := n - ubuf.room

/-- The return value of `copy_from_user(_, ubuf, n)`: the bytes not copied. -/
def UserBuf.copyFromUser (ubuf : UserBuf) (n : Nat) : Nat := n - ubuf.bytes.length

/-- What `copy_from_user(old, ubuf, n)` leaves in the kernel range `old` of
length `n`, whether or not it faults. -/
def UserBuf.landed (ubuf : UserBuf) (old : List UInt8) (n : Nat) : List UInt8 :=
  ubuf.bytes.take n ++
    (old.drop ubuf.bytes.length).mapIdx fun i b => (ubuf.fill i).getD b

/-- The `printk` lines of the file operations. -/
inductive Printk where
  | read (n : Int)
  | write (n : Int)
  | writeEcho (n : Int) (text : List UInt8)
  | reset
  | secho (val : Int)
  deriving DecidableEq, Repr

/-- A load from or a store to `dev->buf[off .. off + len)`. -/
inductive Access where
  | load (off len : Nat)
  | store (off len : Nat)
  deriving DecidableEq, Repr

/-- What a call shows: its return value, the bytes that reached user memory and
its log lines. -/
structure Visible where
  ret : Int
  delivered : List UInt8 := []
  log : List Printk := []
  deriving DecidableEq, Repr

/-- A reply also names the ranges of `dev->buf` the call touched, in order. -/
structure Reply extends Visible where
  touched : List Access := []
  deriving DecidableEq, Repr

/-- The device, `*ppos` and the reply after a call. -/
structure Outcome where
  dev : ChardevData
  ppos : Loff
  reply : Reply

/-! ## File operations -/

def chardevRead (dev : ChardevData) (ubuf : UserBuf) (count : Nat) (ppos : Loff) : Outcome :=
  let dev := dev.mutexLock
  if dev.bufLen = 0 then
    ⟨dev.mutexUnlock, ppos, { ret := 0 }⟩
  else
    let n := min count dev.bufLen
    if ubuf.copyToUser n ≠ 0 then
      -- the bytes before the fault have already reached the user
      ⟨dev.mutexUnlock, ppos,
        { ret := -EFAULT, delivered := (slice dev.buf 0 n).take ubuf.room,
          touched := [.load 0 n] }⟩
    else
      let rest := subSize dev.bufLen n
      let dev' := { dev with buf := blit dev.buf 0 (slice dev.buf n rest), bufLen := rest }
      ⟨dev'.mutexUnlock, ppos + BitVec.ofNat 64 n,
        { ret := toSsize n, delivered := slice dev.buf 0 n, log := [.read (toSsize n)],
          touched := [.load 0 n, .load n rest, .store 0 rest] }⟩

def chardevWrite (dev : ChardevData) (ubuf : UserBuf) (count : Nat) (ppos : Loff) : Outcome :=
  let dev := dev.mutexLock
  let space := subSize bufSize dev.bufLen
  if space = 0 then
    ⟨dev.mutexUnlock, ppos, { ret := -ENOSPC }⟩
  else
    let n := min count space
    -- the copy writes into the free part of `buf` whether or not it faults
    let buf := blit dev.buf dev.bufLen (ubuf.landed (slice dev.buf dev.bufLen n) n)
    if ubuf.copyFromUser n ≠ 0 then
      ⟨{ dev with buf := buf }.mutexUnlock, ppos,
        { ret := -EFAULT, touched := [.store dev.bufLen n] }⟩
    else
      let dev' := { dev with buf := buf, bufLen := addSize dev.bufLen n }
      let off := subSize dev'.bufLen n
      if dev'.echo ≠ 0 then
        -- `%.*s` stops at the first NUL
        let text := (slice dev'.buf off n).takeWhile (· ≠ 0)
        ⟨dev'.mutexUnlock, ppos + BitVec.ofNat 64 n,
          { ret := toSsize n, log := [.writeEcho (toSsize n) text],
            touched := [.store dev.bufLen n, .load off n] }⟩
      else
        ⟨dev'.mutexUnlock, ppos + BitVec.ofNat 64 n,
          { ret := toSsize n, log := [.write (toSsize n)],
            touched := [.store dev.bufLen n] }⟩

def chardevLlseek (dev : ChardevData) (_offset : Loff) (_whence : Int) (ppos : Loff) : Outcome :=
  ⟨dev, ppos, { ret := -ESPIPE }⟩

/-- `chardev_ioctl`; `arg` is the user memory at the address in the argument. -/
def chardevIoctl (dev : ChardevData) (cmd : Nat) (arg : UserBuf) (ppos : Loff) : Outcome :=
  if cmd = chardevReset then
    let dev := dev.mutexLock
    let dev := { dev with bufLen := 0, buf := blit dev.buf 0 (List.replicate bufSize 0) }
    ⟨dev.mutexUnlock, ppos, { ret := 0, log := [.reset], touched := [.store 0 bufSize] }⟩
  else if cmd = chardevGsize then
    let dev := dev.mutexLock
    let val := toInt dev.bufLen
    let dev := dev.mutexUnlock
    if arg.copyToUser sizeofInt ≠ 0 then
      ⟨dev, ppos, { ret := -EFAULT, delivered := (intBytes val).take arg.room }⟩
    else
      ⟨dev, ppos, { ret := 0, delivered := intBytes val }⟩
  else if cmd = chardevSecho then
    if arg.copyFromUser sizeofInt ≠ 0 then
      ⟨dev, ppos, { ret := -EFAULT }⟩
    else
      let val := intOfBytes (arg.bytes.take sizeofInt)
      let dev := dev.mutexLock
      let dev := { dev with echo := val }
      ⟨dev.mutexUnlock, ppos, { ret := 0, log := [.secho val] }⟩
  else
    ⟨dev, ppos, { ret := -ENOTTY }⟩

/-! ## Interleavings of calls -/

/-- One call through the open file `file`. -/
inductive Call where
  | read (file : Nat) (ubuf : UserBuf) (count : Nat)
  | write (file : Nat) (ubuf : UserBuf) (count : Nat)
  | llseek (file : Nat) (offset : Loff) (whence : Int)
  | ioctl (file : Nat) (cmd : Nat) (arg : UserBuf)

def Call.file : Call → Nat
  | .read file _ _ => file
  | .write file _ _ => file
  | .llseek file _ _ => file
  | .ioctl file _ _ => file

/-- The file operation a call runs; `ppos` is the position of its file. -/
def Call.exec (dev : ChardevData) (ppos : Loff) : Call → Outcome
  | .read _ ubuf count => chardevRead dev ubuf count ppos
  | .write _ ubuf count => chardevWrite dev ubuf count ppos
  | .llseek _ offset whence => chardevLlseek dev offset whence ppos
  | .ioctl _ cmd arg => chardevIoctl dev cmd arg ppos

/-- The device and the positions of the open files. -/
structure Node where
  dev : ChardevData
  fpos : Nat → Loff

/-- What `chardev_init` leaves: an empty device over a freshly allocated buffer
with arbitrary contents. -/
def chardevInit (buf : Vector UInt8 bufSize) (fpos : Nat → Loff) : Node :=
  ⟨{ lock := false, buf := buf.toList, bufLen := 0, echo := 1 }, fpos⟩

def Node.call (s : Node) (c : Call) : Node × Reply :=
  let o := c.exec s.dev (s.fpos c.file)
  (⟨o.dev, Function.update s.fpos c.file o.ppos⟩, o.reply)

/-- The state and the replies after a list of calls. -/
def Node.run (s : Node) : List Call → Node × List (Call × Reply)
  | [] => (s, [])
  | c :: cs =>
    let r := (s.call c).1.run cs
    (r.1, (c, (s.call c).2) :: r.2)

/-! ## Well-formed devices -/

/-- Between calls the lock is free and the fill level fits the buffer. -/
structure ChardevData.Wf (dev : ChardevData) : Prop where
  unlocked : dev.lock = false
  size : dev.buf.length = bufSize
  fits : dev.bufLen ≤ bufSize

theorem ChardevData.Wf.length_live {dev : ChardevData} (h : dev.Wf) :
    dev.live.length = dev.bufLen := by
  have := h.fits
  simp only [ChardevData.live, List.length_take, h.size]
  omega

theorem chardevInit_wf (buf : Vector UInt8 bufSize) (fpos : Nat → Loff) :
    (chardevInit buf fpos).dev.Wf :=
  ⟨rfl, by simp [chardevInit], Nat.zero_le _⟩

end LearnLinux.Chardev
