import LearnLinux.Lib.CInt
import LearnLinux.Lib.LinkedList
import LearnLinux.Lib.AddressSpace
import LearnLinux.Lib.Transition
import Mathlib.Algebra.Order.BigOperators.Group.List
import Mathlib.Algebra.Order.Ring.Nat

/-!
# The allocation tracker of `05_memory/memory_demo.c`

`tracked_malloc` and `tracked_free` keep a singly linked list of `AllocRecord` cells
and a running total. The model has the records in a heap, the live `malloc` blocks,
and the two globals. The results of `malloc` come from outside; `free` of an address
that is not a live block, and every access to a record that is not there, is a
`Fault`, so a run without a fault frees every block at most once.

The abstract tracker is a ledger: the blocks handed out and not given back, newest
first. `tracker_books_exact` says that list, total and leak report are those of the
ledger after every run.
-/

namespace LearnLinux.Tracker

open AddressSpace CInt LinkedList Transition

/-! ## Data -/

/-- `AllocRecord`. -/
structure AllocRecord where
  ptr : Nat
  size : Nat
  next : Nat
  deriving DecidableEq, Repr

/-- `sizeof(AllocRecord)`. -/
def sizeofAllocRecord : Nat := 24

/-- Undefined behaviour, and the fuel of a loop running out. -/
inductive Fault where
  | nullRecord
  | dangling
  | invalidFree
  | fuel
  deriving DecidableEq, Repr

/-- The records, the live blocks of `malloc`, `g_alloc_list` and
`g_total_allocated`. -/
structure Memory where
  cells : Nat → Option AllocRecord
  blocks : List Extent
  gAllocList : Nat
  gTotalAllocated : Nat

inductive Line where
  | notFound (ptr : Nat)
  | noLeaks
  | leaksDetected
  | leak (ptr size : Nat)
  | totalLeaked (total : Nat)
  deriving DecidableEq, Repr

/-! ## The allocator -/

/-- `malloc` has returned the block `b`. -/
def Memory.malloc (m : Memory) (b : Extent) : Memory := { m with blocks := b :: m.blocks }

def Memory.free (m : Memory) (ptr : Nat) : Except Fault Memory :=
  if ptr = 0 then .ok m
  else if ptr ∈ m.blocks.map Extent.base then
    .ok { m with
      cells := Function.update m.cells ptr none
      blocks := m.blocks.filter fun b => b.base ≠ ptr }
  else .error .invalidFree

/-- What a successful `malloc` promises: a block in the address space, not at NULL, at
an address of its own and apart from every live block. -/
def Memory.Fresh (m : Memory) (b : Extent) : Prop :=
  b.base ≠ 0 ∧ b.base + b.size ≤ sizeRange ∧ ∀ c ∈ m.blocks, b.base ≠ c.base ∧ b.Apart c

instance (m : Memory) (b : Extent) : Decidable (m.Fresh b) :=
  inferInstanceAs (Decidable (b.base ≠ 0 ∧ b.base + b.size ≤ sizeRange ∧
    ∀ c ∈ m.blocks, b.base ≠ c.base ∧ b.Apart c))

/-! ## `tracked_malloc` -/

/-- `tracked_malloc(size)` where the two `malloc` calls return `p` and `rec`. -/
def Memory.trackedMalloc (m : Memory) (size p rec : Nat) : Except Fault (Memory × Nat) :=
  if p = 0 then .ok (m, 0)
  else if rec = 0 then .error .nullRecord
  else
    let m := (m.malloc ⟨p, size⟩).malloc ⟨rec, sizeofAllocRecord⟩
    .ok ({ m with
      cells := Function.update m.cells rec (some ⟨p, size, m.gAllocList⟩)
      gAllocList := rec
      gTotalAllocated := addSize m.gTotalAllocated size }, p)

/-! ## `tracked_free` -/

/-- What `cur` points to: `g_alloc_list`, or the `next` field of a record. -/
inductive Slot where
  | global
  | next (rec : Nat)
  deriving DecidableEq, Repr

/-- `*cur`. -/
def Memory.load (m : Memory) : Slot → Except Fault Nat
  | .global => .ok m.gAllocList
  | .next rec =>
    match m.cells rec with
    | some c => .ok c.next
    | none => .error .dangling

/-- `*cur = v`. -/
def Memory.store (m : Memory) (cur : Slot) (v : Nat) : Except Fault Memory :=
  match cur with
  | .global => .ok { m with gAllocList := v }
  | .next rec =>
    match m.cells rec with
    | some c => .ok { m with cells := Function.update m.cells rec (some { c with next := v }) }
    | none => .error .dangling

/-- The body of the `if`: take the record `rec` at `tmp` off the list and free it and
its block. -/
def Memory.unlink (m : Memory) (ptr : Nat) (cur : Slot) (tmp : Nat) (rec : AllocRecord) :
    Except Fault Memory := do
  let m := { m with gTotalAllocated := subSize m.gTotalAllocated rec.size }
  let m ← m.store cur rec.next
  let m ← m.free tmp
  m.free ptr

/-- The `while` loop of `tracked_free`; `true` means that the record was found. -/
def Memory.freeLoop (m : Memory) (ptr : Nat) : Nat → Slot → Except Fault (Memory × Bool)
  | 0, _ => .error .fuel
  | fuel + 1, cur => do
    let tmp ← m.load cur
    if tmp = 0 then
      return (m, false)
    else
      match m.cells tmp with
      | none => .error .dangling
      | some rec =>
        if rec.ptr = ptr then do
          let m ← m.unlink ptr cur tmp rec
          return (m, true)
        else m.freeLoop ptr fuel (.next tmp)

def Memory.trackedFree (m : Memory) (ptr : Nat) : Except Fault (Memory × List Line) := do
  let (m, found) ← m.freeLoop ptr (m.blocks.length + 1) .global
  return (m, if found then [] else [.notFound ptr])

/-! ## `check_leaks` -/

/-- The `for` loop of `check_leaks`. -/
def Memory.leakLoop (m : Memory) : Nat → Nat → Except Fault (List Line)
  | 0, _ => .error .fuel
  | fuel + 1, r =>
    if r = 0 then .ok []
    else
      match m.cells r with
      | none => .error .dangling
      | some rec => do
        let lines ← m.leakLoop fuel rec.next
        return .leak rec.ptr rec.size :: lines

def Memory.checkLeaks (m : Memory) : Except Fault (List Line) :=
  if m.gAllocList = 0 then .ok [.noLeaks]
  else do
    let lines ← m.leakLoop (m.blocks.length + 1) m.gAllocList
    return .leaksDetected :: lines ++ [.totalLeaked m.gTotalAllocated]

/-! ## The loops over a chain of records -/

/-- The block a record stands for. -/
def AllocRecord.block (rec : AllocRecord) : Extent := ⟨rec.ptr, rec.size⟩

abbrev Node := Nat × AllocRecord

/-- The slot that leads to the record behind `pre`. -/
def slotAfter (cur : Slot) : List Node → Slot
  | [] => cur
  | n :: pre => slotAfter (.next n.1) pre

section Loops

variable {m : Memory} {p ptr : Nat} {nodes pre post : List Node} {cur : Slot} {fuel : Nat}

theorem freeLoop_missing (h : Chain AllocRecord.next m.cells p nodes) (hl : m.load cur = .ok p)
    (hfuel : nodes.length < fuel) (hne : ∀ n ∈ nodes, n.2.ptr ≠ ptr) :
    m.freeLoop ptr fuel cur = .ok (m, false) := by
  induction nodes generalizing p cur fuel with
  | nil =>
    obtain ⟨k, rfl⟩ := Nat.exists_eq_add_of_lt hfuel
    cases h
    simp [Memory.freeLoop, hl, bind, Except.bind, pure, Except.pure]
  | cons n nodes ih =>
    obtain ⟨k, rfl⟩ : ∃ k, fuel = k + 1 := ⟨fuel - 1, by omega⟩
    obtain ⟨rfl, h0, hc, hrest⟩ := h.cons_inv
    have hn := hne n List.mem_cons_self
    have hl' : m.load (.next n.1) = .ok n.2.next := by simp [Memory.load, hc]
    have hrec := ih hrest hl' (by simpa using hfuel) fun x hx => hne x (List.mem_cons_of_mem _ hx)
    simpa [Memory.freeLoop, hl, bind, Except.bind, h0, hc, hn] using hrec

theorem slotAfter_snoc (n : Node) : slotAfter cur (pre ++ [n]) = .next n.1 := by
  induction pre generalizing cur with
  | nil => rfl
  | cons x pre ih => exact ih

/-- The loop reaches the first record of `ptr` with the list unchanged. -/
theorem freeLoop_found {n : Node} (h : Chain AllocRecord.next m.cells p (pre ++ n :: post))
    (hl : m.load cur = .ok p) (hfuel : pre.length < fuel) (hne : ∀ x ∈ pre, x.2.ptr ≠ ptr)
    (hn : n.2.ptr = ptr) :
    m.freeLoop ptr fuel cur =
      (m.unlink ptr (slotAfter cur pre) n.1 n.2).map fun m' => (m', true) := by
  induction pre generalizing p cur fuel with
  | nil =>
    obtain ⟨k, rfl⟩ : ∃ k, fuel = k + 1 := ⟨fuel - 1, by omega⟩
    obtain ⟨rfl, h0, hc, -⟩ := h.cons_inv
    simp only [Memory.freeLoop, hl, bind, Except.bind, if_neg h0, hc, hn, if_true, slotAfter,
      pure, Except.pure, Except.map]
  | cons x pre ih =>
    obtain ⟨k, rfl⟩ : ∃ k, fuel = k + 1 := ⟨fuel - 1, by omega⟩
    obtain ⟨rfl, h0, hc, hrest⟩ := h.cons_inv
    have hx := hne x List.mem_cons_self
    have hl' : m.load (.next x.1) = .ok x.2.next := by simp [Memory.load, hc]
    have hrec := ih hrest hl' (by simpa using hfuel) fun y hy => hne y (List.mem_cons_of_mem _ hy)
    rw [slotAfter, ← hrec]
    simp only [Memory.freeLoop, hl, bind, Except.bind, if_neg h0, hc, if_neg hx]

theorem leakLoop_eq (h : Chain AllocRecord.next m.cells p nodes) (hfuel : nodes.length < fuel) :
    m.leakLoop fuel p = .ok (nodes.map fun n => .leak n.2.ptr n.2.size) := by
  induction nodes generalizing p fuel with
  | nil =>
    obtain ⟨k, rfl⟩ : ∃ k, fuel = k + 1 := ⟨fuel - 1, by omega⟩
    cases h
    rfl
  | cons n nodes ih =>
    obtain ⟨k, rfl⟩ : ∃ k, fuel = k + 1 := ⟨fuel - 1, by omega⟩
    obtain ⟨rfl, h0, hc, hrest⟩ := h.cons_inv
    have hrec : m.leakLoop k n.2.next = _ := ih hrest (by simpa using hfuel)
    simp only [Memory.leakLoop, if_neg h0, hc, hrec, bind, Except.bind, pure, Except.pure,
      List.map_cons]

end Loops

/-! ## The books -/

/-- What the list says about a record: where it is and which block it stands for. -/
def key (n : Node) : Nat × Extent := (n.1, n.2.block)

/-- The two live blocks behind an entry of the list. -/
def owned (t : Nat × Extent) : List Extent := [⟨t.1, sizeofAllocRecord⟩, t.2]

/-- The list holds the entries `tracked`, the live blocks are theirs and the
`foreign` ones, and the total is the sum of their sizes. -/
structure Memory.Books (m : Memory) (foreign : List Extent) (tracked : List (Nat × Extent)) :
    Prop where
  list : ∃ nodes, Chain AllocRecord.next m.cells m.gAllocList nodes ∧ nodes.map key = tracked
  blocks : m.blocks.Perm (tracked.flatMap owned ++ foreign)
  bases : (m.blocks.map Extent.base).Nodup
  apart : (tracked.map Prod.snd).Pairwise Extent.Apart
  range : ∀ t ∈ tracked, t.1 ≠ 0 ∧ 1 ≤ t.2.base ∧ t.2.base + t.2.size ≤ sizeRange
  total : m.gTotalAllocated = ((tracked.map Prod.snd).map Extent.size).sum

section Books

variable {m : Memory} {foreign : List Extent} {tracked : List (Nat × Extent)}

/-- Blocks that are apart and not at NULL cannot fill the address space. -/
theorem sum_lt_sizeRange {tracked : List (Nat × Extent)}
    (ha : (tracked.map Prod.snd).Pairwise Extent.Apart)
    (hr : ∀ t ∈ tracked, t.1 ≠ 0 ∧ 1 ≤ t.2.base ∧ t.2.base + t.2.size ≤ sizeRange) :
    ((tracked.map Prod.snd).map Extent.size).sum < sizeRange := by
  have hle : ((tracked.map Prod.snd).map Extent.size).sum ≤ sizeRange - 1 := by
    apply sum_size_le ha
    intro e he
    obtain ⟨t, ht, rfl⟩ := List.mem_map.mp he
    exact (hr t ht).2
  have hpos : 0 < sizeRange := by decide
  omega

theorem Memory.Books.mem_blocks (h : m.Books foreign tracked) {t : Nat × Extent}
    (ht : t ∈ tracked) : ∀ e ∈ owned t, e ∈ m.blocks := by
  intro e he
  exact h.blocks.mem_iff.mpr (List.mem_append_left _ (List.mem_flatMap.mpr ⟨t, ht, he⟩))

theorem Memory.Books.nodup_tracked (h : m.Books foreign tracked) :
    ((tracked.flatMap owned ++ foreign).map Extent.base).Nodup :=
  (h.blocks.map Extent.base).nodup_iff.mp h.bases

theorem Memory.Books.length_le (h : m.Books foreign tracked) :
    tracked.length ≤ m.blocks.length := by
  have hlen : tracked.length ≤ (tracked.flatMap owned).length := by
    clear h
    induction tracked with
    | nil => exact Nat.le_refl _
    | cons t tracked ih =>
      simp only [List.flatMap_cons, List.length_append, List.length_cons, owned]
      omega
  rw [h.blocks.length_eq, List.length_append]
  omega

/-- The fuel of the loops is more than the length of the list. -/
theorem Memory.Books.fuel (h : m.Books foreign tracked) : tracked.length < m.blocks.length + 1 :=
  Nat.lt_succ_of_le h.length_le

theorem owned_perm (pre post : List (Nat × Extent)) (t : Nat × Extent) (foreign : List Extent) :
    ((pre ++ t :: post).flatMap owned ++ foreign).Perm
      (owned t ++ ((pre ++ post).flatMap owned ++ foreign)) := by
  have hmid := (show (pre ++ t :: post).Perm (t :: (pre ++ post)) from
    List.perm_middle).flatMap_right owned
  rw [← List.append_assoc]
  exact hmid.append_right foreign

theorem nodup_fields (f : Nat × Extent → Nat)
    (hf : ∀ t, ([f t] : List Nat).Sublist ((owned t).map Extent.base))
    (h : m.Books foreign tracked) : (tracked.map f).Nodup := by
  have hsub : (tracked.map f).Sublist ((tracked.flatMap owned).map Extent.base) := by
    clear h
    induction tracked with
    | nil => exact List.Sublist.refl _
    | cons t tracked ih =>
      rw [List.map_cons, List.flatMap_cons, List.map_append, ← List.singleton_append]
      exact (hf t).append ih
  have hall := h.nodup_tracked
  rw [List.map_append] at hall
  exact hall.of_append_left.sublist hsub

/-- No two records share an address. -/
theorem Memory.Books.nodup_records (h : m.Books foreign tracked) :
    (tracked.map Prod.fst).Nodup :=
  nodup_fields _ (fun t => by simp [owned]) h

/-- No two entries share a pointer. -/
theorem Memory.Books.nodup_pointers (h : m.Books foreign tracked) :
    ((tracked.map Prod.snd).map Extent.base).Nodup := by
  rw [List.map_map]
  exact nodup_fields _ (fun t => by simp [owned]) h

/-- The addresses of one entry differ from those of all others. -/
theorem Memory.Books.distinct {pre post : List (Nat × Extent)} {t : Nat × Extent}
    (h : m.Books foreign (pre ++ t :: post)) :
    t.1 ≠ t.2.base ∧ ∀ u ∈ pre ++ post,
      u.1 ≠ t.1 ∧ u.1 ≠ t.2.base ∧ u.2.base ≠ t.1 ∧ u.2.base ≠ t.2.base := by
  have hnodup := ((owned_perm pre post t foreign).map Extent.base).nodup_iff.mp h.nodup_tracked
  simp only [owned, List.cons_append, List.nil_append, List.map_cons, List.nodup_cons,
    List.mem_cons, not_or] at hnodup
  obtain ⟨⟨hne, hrec⟩, hblock, -⟩ := hnodup
  refine ⟨hne, ?_⟩
  intro u hu
  have hmem : ∀ e ∈ owned u, e.base ∈ ((pre ++ post).flatMap owned ++ foreign).map Extent.base := by
    intro e he
    exact List.mem_map_of_mem (List.mem_append_left _ (List.mem_flatMap.mpr ⟨u, hu, he⟩))
  have h1 := hmem ⟨u.1, sizeofAllocRecord⟩ (by simp [owned])
  have h2 := hmem u.2 (by simp [owned])
  refine ⟨?_, ?_, ?_, ?_⟩ <;> intro heq
  · exact hrec (heq ▸ h1)
  · exact hblock (heq ▸ h1)
  · exact hrec (heq ▸ h2)
  · exact hblock (heq ▸ h2)

/-- `tracked_malloc` puts the new block on top of the books. -/
theorem trackedMalloc_books (h : m.Books foreign tracked) {size p rec : Nat}
    (hp : m.Fresh ⟨p, size⟩) (hrec : (m.malloc ⟨p, size⟩).Fresh ⟨rec, sizeofAllocRecord⟩) :
    ∃ m', m.trackedMalloc size p rec = .ok (m', p) ∧
      m'.Books foreign ((rec, ⟨p, size⟩) :: tracked) := by
  obtain ⟨hp0, hpr, hpb⟩ := hp
  obtain ⟨hr0, -, hrb⟩ := hrec
  simp only [Memory.malloc, List.mem_cons, forall_eq_or_imp] at hrb
  obtain ⟨⟨hrp, -⟩, hrb⟩ := hrb
  have hapart : (((rec, ⟨p, size⟩) :: tracked).map Prod.snd).Pairwise Extent.Apart := by
    refine List.pairwise_cons.mpr ⟨?_, h.apart⟩
    intro e he
    obtain ⟨t, ht, rfl⟩ := List.mem_map.mp he
    exact (hpb t.2 (h.mem_blocks ht _ (by simp [owned]))).2
  have hrange : ∀ t ∈ (rec, (⟨p, size⟩ : Extent)) :: tracked,
      t.1 ≠ 0 ∧ 1 ≤ t.2.base ∧ t.2.base + t.2.size ≤ sizeRange := by
    intro t ht
    rcases List.mem_cons.mp ht with rfl | ht
    · exact ⟨hr0, Nat.pos_of_ne_zero hp0, hpr⟩
    · exact h.range t ht
  have hsum := sum_lt_sizeRange hapart hrange
  simp only [List.map_cons, List.sum_cons] at hsum
  refine ⟨_, by rw [Memory.trackedMalloc, if_neg hp0, if_neg hr0], ?_, ?_, ?_, hapart, hrange, ?_⟩
  · obtain ⟨nodes, hchain, hkeys⟩ := h.list
    refine ⟨(rec, ⟨p, size, m.gAllocList⟩) :: nodes, ?_, by rw [List.map_cons, hkeys]; rfl⟩
    refine .cons hr0 (by simp [Memory.malloc]) (hchain.frame ?_)
    intro n hn
    have hkey : key n ∈ tracked := hkeys ▸ List.mem_map_of_mem hn
    have hne := (hrb _ (h.mem_blocks hkey _ (List.mem_cons_self))).1
    exact Function.update_of_ne (fun he => hne he.symm) _ _
  · exact (h.blocks.cons _).cons _
  · simp only [Memory.malloc, List.map_cons, List.nodup_cons, List.mem_cons, List.mem_map, not_or]
    refine ⟨⟨hrp, ?_⟩, ?_, h.bases⟩
    · rintro ⟨e, he, heq⟩
      exact (hrb e he).1 heq.symm
    · rintro ⟨e, he, heq⟩
      exact (hpb e he).1 heq.symm
  · simp only [Memory.malloc, List.map_cons, List.sum_cons]
    rw [addSize_eq _ _ (by rw [h.total]; omega), h.total, Nat.add_comm]

theorem Memory.free_ok {b : Extent} {rest : List Extent} (h : m.blocks.Perm (b :: rest))
    (hn : (m.blocks.map Extent.base).Nodup) (h0 : b.base ≠ 0) :
    ∃ m', m.free b.base = .ok m' ∧ m'.blocks.Perm rest ∧ (m'.blocks.map Extent.base).Nodup ∧
      m'.cells = Function.update m.cells b.base none ∧ m'.gAllocList = m.gAllocList ∧
      m'.gTotalAllocated = m.gTotalAllocated := by
  have hmem : b.base ∈ m.blocks.map Extent.base :=
    List.mem_map_of_mem (h.mem_iff.mpr List.mem_cons_self)
  have hfree : m.free b.base = .ok { m with
      cells := Function.update m.cells b.base none
      blocks := m.blocks.filter fun e => e.base ≠ b.base } := by
    rw [Memory.free, if_neg h0, if_pos hmem]
  exact ⟨_, hfree, filter_base_perm h hn, hn.sublist (List.filter_sublist.map _), rfl, rfl, rfl⟩

/-- Storing the successor of `n` where `n` is linked takes it off the list. -/
theorem store_unlinks {pre post : List Node} {n : Node}
    (h : Chain AllocRecord.next m.cells m.gAllocList (pre ++ n :: post))
    (hn : ((pre ++ n :: post).map Prod.fst).Nodup) :
    ∃ m' pre', m.store (slotAfter .global pre) n.2.next = .ok m' ∧
      Chain AllocRecord.next m'.cells m'.gAllocList (pre' ++ post) ∧
      pre'.map key = pre.map key ∧ m'.blocks = m.blocks ∧
      m'.gTotalAllocated = m.gTotalAllocated := by
  rcases List.eq_nil_or_concat pre with rfl | ⟨q, x, rfl⟩
  · obtain ⟨-, -, -, hrest⟩ := h.cons_inv
    exact ⟨_, [], rfl, hrest, rfl, rfl, rfl⟩
  · rw [List.concat_eq_append] at *
    have hx : m.cells x.1 = some x.2 := h.mem (by simp)
    refine ⟨{ m with cells := Function.update m.cells x.1 (some { x.2 with next := n.2.next }) },
      q ++ [(x.1, { x.2 with next := n.2.next })], ?_, ?_, ?_, rfl, rfl⟩
    · rw [slotAfter_snoc, Memory.store]
      simp only [hx]
    · rw [List.append_assoc, List.singleton_append]
      rw [List.append_assoc, List.singleton_append] at h
      refine h.unlink rfl (by simp) ?_
      intro y hy
      refine Function.update_of_ne ?_ _ _
      rintro heq
      simp only [List.append_assoc, List.singleton_append, List.map_append, List.map_cons] at hn
      have hperm := (List.perm_middle.nodup_iff.mp hn)
      rw [List.nodup_cons] at hperm
      apply hperm.1
      rw [← heq]
      rcases List.mem_append.mp hy with hy | hy
      · exact List.mem_append_left _ (List.mem_map_of_mem hy)
      · exact List.mem_append_right _ (List.mem_cons_of_mem _ (List.mem_map_of_mem hy))
    · simp [key, AllocRecord.block]

/-- The body of the `if` takes one entry off the books. -/
theorem unlink_books {pre post : List Node} {n : Node}
    (hchain : Chain AllocRecord.next m.cells m.gAllocList (pre ++ n :: post))
    (h : m.Books foreign (pre.map key ++ key n :: post.map key)) :
    ∃ m', m.unlink n.2.ptr (slotAfter .global pre) n.1 n.2 = .ok m' ∧
      m'.Books foreign (pre.map key ++ post.map key) := by
  obtain ⟨hn0, hptr0, -⟩ := h.range (key n) (by simp)
  obtain ⟨hself, hdist⟩ := h.distinct
  have hnodup : ((pre ++ n :: post).map Prod.fst).Nodup := by
    have hrec := h.nodup_records
    rw [← List.map_cons, ← List.map_append, List.map_map] at hrec
    exact hrec
  obtain ⟨m1, pre', hstore, hchain1, hkeys, hblocks1, htotal1⟩ := store_unlinks
    (m := { m with gTotalAllocated := subSize m.gTotalAllocated n.2.size }) hchain hnodup
  have hperm : m1.blocks.Perm (⟨n.1, sizeofAllocRecord⟩ ::
      n.2.block :: ((pre.map key ++ post.map key).flatMap owned ++ foreign)) := by
    rw [hblocks1]
    exact h.blocks.trans (owned_perm _ _ (key n) foreign)
  obtain ⟨m2, hfree2, hperm2, hbases2, hcells2, hlist2, htotal2⟩ :=
    Memory.free_ok hperm (by rw [hblocks1]; exact h.bases) hn0
  obtain ⟨m3, hfree3, hperm3, hbases3, hcells3, hlist3, htotal3⟩ :=
    Memory.free_ok hperm2 hbases2 (Nat.ne_of_gt hptr0)
  have hsub : (pre.map key ++ post.map key).Sublist (pre.map key ++ key n :: post.map key) :=
    (List.Sublist.refl _).append (List.sublist_cons_self _ _)
  refine ⟨m3, ?_, ⟨pre' ++ post, ?_, ?_⟩, hperm3, hbases3, ?_, ?_, ?_⟩
  · simp only [Memory.unlink, hstore, bind, Except.bind, hfree2]
    exact hfree3
  · rw [hlist3, hlist2]
    refine hchain1.frame ?_
    intro x hx
    have hkey : key x ∈ pre.map key ++ post.map key := by
      rw [← hkeys, ← List.map_append]
      exact List.mem_map_of_mem hx
    have hne1 : x.1 ≠ n.1 := (hdist (key x) hkey).1
    have hne2 : x.1 ≠ n.2.block.base := (hdist (key x) hkey).2.1
    rw [hcells3, Function.update_of_ne hne2, hcells2, Function.update_of_ne hne1]
  · rw [List.map_append, hkeys]
  · exact h.apart.sublist (hsub.map Prod.snd)
  · intro t ht
    exact h.range t (hsub.subset ht)
  · have hsum : m.gTotalAllocated = n.2.size +
        (((pre.map key ++ post.map key).map Prod.snd).map Extent.size).sum := by
      have hsize : (key n).2.size = n.2.size := rfl
      rw [h.total]
      simp only [List.map_append, List.map_cons, List.sum_append, List.sum_cons]
      omega
    have hlt : m.gTotalAllocated < sizeRange := h.total ▸ sum_lt_sizeRange h.apart h.range
    rw [htotal3, htotal2, htotal1]
    simp only
    rw [subSize_eq _ _ (by omega) hlt]
    omega

theorem mem_pointers {nodes : List Node} {ptr : Nat} :
    ptr ∈ ((nodes.map key).map Prod.snd).map Extent.base ↔ ∃ n ∈ nodes, n.2.ptr = ptr := by
  simp [key, AllocRecord.block]

theorem filter_key_self {nodes : List Node} {ptr : Nat} (h : ∀ n ∈ nodes, n.2.ptr ≠ ptr) :
    (nodes.map key).filter (fun t => t.2.base ≠ ptr) = nodes.map key := by
  rw [List.filter_eq_self]
  intro t ht
  obtain ⟨n, hn, rfl⟩ := List.mem_map.mp ht
  exact decide_eq_true (h n hn)

/-- The loop of `tracked_free` takes the entry of `ptr` off the books, or finds none and
changes nothing; it needs no more rounds than there are entries. -/
theorem freeLoop_books (h : m.Books foreign tracked) (ptr : Nat) :
    ∃ m', m'.Books foreign (tracked.filter fun t => t.2.base ≠ ptr) ∧
      ((ptr ∈ (tracked.map Prod.snd).map Extent.base ∧
          ∀ fuel, tracked.length < fuel → m.freeLoop ptr fuel .global = .ok (m', true)) ∨
        (ptr ∉ (tracked.map Prod.snd).map Extent.base ∧ m' = m ∧
          ∀ fuel, tracked.length < fuel → m.freeLoop ptr fuel .global = .ok (m, false))) := by
  obtain ⟨nodes, hchain, rfl⟩ := h.list
  rw [mem_pointers, List.length_map]
  by_cases hex : ∃ n ∈ nodes, n.2.ptr = ptr
  · obtain ⟨n, hn, rfl⟩ := hex
    obtain ⟨pre, post, rfl⟩ := List.append_of_mem hn
    have h' := h
    rw [List.map_append, List.map_cons] at h'
    obtain ⟨-, hdist⟩ := h'.distinct
    have hpre : ∀ x ∈ pre, x.2.ptr ≠ n.2.ptr := fun x hx =>
      (hdist (key x) (List.mem_append_left _ (List.mem_map_of_mem hx))).2.2.2
    have hpost : ∀ x ∈ post, x.2.ptr ≠ n.2.ptr := fun x hx =>
      (hdist (key x) (List.mem_append_right _ (List.mem_map_of_mem hx))).2.2.2
    obtain ⟨m', hunlink, hbooks⟩ := unlink_books hchain h'
    refine ⟨m', ?_, Or.inl ⟨⟨n, hn, rfl⟩, ?_⟩⟩
    · rw [List.map_append, List.filter_append, filter_key_self hpre, List.map_cons,
        List.filter_cons_of_neg (by simp [key, AllocRecord.block]), filter_key_self hpost]
      exact hbooks
    · intro fuel hfuel
      have hlen : pre.length < fuel := by
        simp only [List.length_append] at hfuel
        omega
      rw [freeLoop_found hchain rfl hlen hpre rfl, hunlink]
      rfl
  · have hne : ∀ n ∈ nodes, n.2.ptr ≠ ptr := fun n hn he => hex ⟨n, hn, he⟩
    refine ⟨m, by rw [filter_key_self hne]; exact h, Or.inr ⟨hex, rfl, ?_⟩⟩
    intro fuel hfuel
    exact freeLoop_missing hchain rfl hfuel hne

/-- `tracked_free` takes the entry of `ptr` off the books, or reports that there is
none and changes nothing. -/
theorem trackedFree_books (h : m.Books foreign tracked) (ptr : Nat) :
    ∃ m', m'.Books foreign (tracked.filter fun t => t.2.base ≠ ptr) ∧
      ((ptr ∈ (tracked.map Prod.snd).map Extent.base ∧ m.trackedFree ptr = .ok (m', [])) ∨
        (ptr ∉ (tracked.map Prod.snd).map Extent.base ∧ m' = m ∧
          m.trackedFree ptr = .ok (m, [.notFound ptr]))) := by
  have hfuel := h.fuel
  obtain ⟨m', hbooks, ⟨hin, hloop⟩ | ⟨hout, heq, hloop⟩⟩ := freeLoop_books h ptr
  · refine ⟨m', hbooks, Or.inl ⟨hin, ?_⟩⟩
    rw [Memory.trackedFree, hloop _ hfuel]
    rfl
  · refine ⟨m', hbooks, Or.inr ⟨hout, heq, ?_⟩⟩
    rw [Memory.trackedFree, hloop _ hfuel]
    rfl

/-- The report of `check_leaks` on a ledger. -/
def report : List Extent → List Line
  | [] => [.noLeaks]
  | l => .leaksDetected :: l.map (fun e => .leak e.base e.size) ++
      [.totalLeaked (l.map Extent.size).sum]

theorem checkLeaks_books (h : m.Books foreign tracked) :
    m.checkLeaks = .ok (report (tracked.map Prod.snd)) := by
  obtain ⟨nodes, hchain, rfl⟩ := h.list
  have hfuel := h.fuel
  rw [List.length_map] at hfuel
  have hloop := leakLoop_eq hchain hfuel
  have htotal := h.total
  unfold Memory.checkLeaks
  split
  · rename_i hnull
    rw [hchain.null_iff.mp hnull]
    rfl
  · rename_i hnull
    cases nodes with
    | nil => exact absurd (hchain.null_iff.mpr rfl) hnull
    | cons n nodes =>
      rw [hloop, htotal]
      simp [bind, Except.bind, pure, Except.pure, report, key, AllocRecord.block]

end Books

/-! ## Runs -/

/-- A call, with what `malloc` returns in it. -/
inductive Call where
  | malloc (size p rec : Nat)
  | free (ptr : Nat)
  | checkLeaks
  deriving DecidableEq, Repr

def Memory.exec (m : Memory) : Call → Except Fault (Memory × List Line)
  | .malloc size p rec => do
    let (m, _) ← m.trackedMalloc size p rec
    return (m, [])
  | .free ptr => m.trackedFree ptr
  | .checkLeaks => do
    let lines ← m.checkLeaks
    return (m, lines)

/-- The allocator keeps its promises in a call: the block may be refused, the record is
not. -/
def Memory.Allows (m : Memory) : Call → Prop
  | .malloc size p rec => p ≠ 0 →
    m.Fresh ⟨p, size⟩ ∧ (m.malloc ⟨p, size⟩).Fresh ⟨rec, sizeofAllocRecord⟩
  | _ => True

/-- The blocks handed out and not given back, newest first. -/
abbrev Ledger := List Extent

/-- What a call means for the ledger, whatever the tracker does. -/
def Ledger.update (l : Ledger) : Call → Ledger
  | .malloc size p _ => if p = 0 then l else ⟨p, size⟩ :: l
  | .free ptr => l.filter fun e => e.base ≠ ptr
  | .checkLeaks => l

structure State where
  mem : Memory
  ledger : Ledger

/-- An empty list, and a heap in which other code has blocks. -/
def State.initial (foreign : List Extent) : State where
  mem := ⟨fun _ => none, foreign, 0, 0⟩
  ledger := []

inductive Step : Call → State → State → Prop
  | call {c : Call} {s : State} {m : Memory} {out : List Line} : s.mem.Allows c →
      s.mem.exec c = .ok (m, out) → Step c s ⟨m, s.ledger.update c⟩

/-- Runs of the tracker on a heap that starts with the blocks `foreign`. -/
def system (foreign : List Extent) : System Call State where
  init s := (foreign.map Extent.base).Nodup ∧ s = State.initial foreign
  step := Step

/-- **Every call returns and keeps the books.** -/
theorem exec_books {m : Memory} {foreign : List Extent} {tracked : List (Nat × Extent)}
    (h : m.Books foreign tracked) {c : Call} (ha : m.Allows c) :
    ∃ m' out tracked', m.exec c = .ok (m', out) ∧ m'.Books foreign tracked' ∧
      tracked'.map Prod.snd = Ledger.update (tracked.map Prod.snd) c := by
  cases c with
  | malloc size p rec =>
    by_cases hp : p = 0
    · refine ⟨m, [], tracked, ?_, h, ?_⟩
      · simp only [Memory.exec, Memory.trackedMalloc, if_pos hp]
        rfl
      · simp only [Ledger.update, if_pos hp]
    · obtain ⟨hblock, hrec⟩ := ha hp
      obtain ⟨m', hm, hbooks⟩ := trackedMalloc_books h hblock hrec
      refine ⟨m', [], _, ?_, hbooks, ?_⟩
      · simp only [Memory.exec, hm]
        rfl
      · simp only [Ledger.update, if_neg hp, List.map_cons]
  | free ptr =>
    have hledger : (tracked.filter fun t => t.2.base ≠ ptr).map Prod.snd =
        (tracked.map Prod.snd).filter fun e => e.base ≠ ptr :=
      (List.filter_map (f := Prod.snd) (p := fun e : Extent => decide (e.base ≠ ptr))).symm
    obtain ⟨m', hbooks, ⟨-, hf⟩ | ⟨-, rfl, hf⟩⟩ := trackedFree_books h ptr
    · exact ⟨m', _, _, hf, hbooks, hledger⟩
    · exact ⟨m', _, _, hf, hbooks, hledger⟩
  | checkLeaks =>
    refine ⟨m, report (tracked.map Prod.snd), tracked, ?_, h, rfl⟩
    simp only [Memory.exec, checkLeaks_books h]
    rfl

theorem reachable_books {foreign : List Extent} {s : State}
    (hr : (system foreign).Reachable s) :
    ∃ tracked, s.mem.Books foreign tracked ∧ tracked.map Prod.snd = s.ledger := by
  induction hr with
  | init hi =>
    obtain ⟨hnodup, rfl⟩ := hi
    exact ⟨[], ⟨⟨[], .nil, rfl⟩, List.Perm.refl _, hnodup, List.Pairwise.nil,
      (fun t ht => by cases ht), rfl⟩, rfl⟩
  | next _ hs ih =>
    obtain ⟨tracked, hbooks, hledger⟩ := ih
    cases hs with
    | call ha hex =>
      obtain ⟨m', out, tracked', hex', hbooks', hledger'⟩ := exec_books hbooks ha
      rw [hex] at hex'
      cases hex'
      exact ⟨tracked', hbooks', by rw [hledger', hledger]⟩

/-- **The books are exact** after every run, whatever is passed to `tracked_free`. -/
theorem tracker_books_exact (foreign : List Extent) {s : State}
    (hr : (system foreign).Reachable s) :
    (∃ nodes, Chain AllocRecord.next s.mem.cells s.mem.gAllocList nodes ∧
      nodes.map (fun n => n.2.block) = s.ledger) ∧
    (s.ledger.map Extent.base).Nodup ∧
    s.mem.gTotalAllocated = (s.ledger.map Extent.size).sum ∧
    (∀ size p rec, s.mem.Allows (.malloc size p rec) → p ≠ 0 →
      s.mem.gTotalAllocated + size < sizeRange) ∧
    (∀ e ∈ s.ledger, e.size ≤ s.mem.gTotalAllocated) ∧
    (∀ c, s.mem.Allows c → ∃ m out, s.mem.exec c = .ok (m, out)) ∧
    (∀ e ∈ s.ledger, e ∈ s.mem.blocks) ∧
    (∀ ptr, ptr ∉ s.ledger.map Extent.base →
      s.mem.trackedFree ptr = .ok (s.mem, [.notFound ptr])) ∧
    (s.mem.checkLeaks = .ok [.noLeaks] ↔ s.ledger = []) ∧
    s.mem.checkLeaks = .ok (report s.ledger) := by
  obtain ⟨tracked, h, hledger⟩ := reachable_books hr
  rw [← hledger]
  have hreport := checkLeaks_books h
  refine ⟨?_, h.nodup_pointers, h.total, ?_, ?_, ?_, ?_, ?_, ?_, hreport⟩
  · obtain ⟨nodes, hchain, hkeys⟩ := h.list
    exact ⟨nodes, hchain, by rw [← hkeys, List.map_map]; rfl⟩
  · intro size p rec ha hp
    obtain ⟨m', -, hbooks⟩ := trackedMalloc_books h (ha hp).1 (ha hp).2
    have hlt := sum_lt_sizeRange hbooks.apart hbooks.range
    simp only [List.map_cons, List.sum_cons] at hlt
    rw [h.total]
    omega
  · intro e he
    rw [h.total]
    exact List.le_sum_of_mem (List.mem_map_of_mem he)
  · intro c ha
    obtain ⟨m', out, -, hex, -, -⟩ := exec_books h ha
    exact ⟨m', out, hex⟩
  · intro e he
    obtain ⟨t, ht, rfl⟩ := List.mem_map.mp he
    exact h.mem_blocks ht _ (by simp [owned])
  · intro ptr hptr
    obtain ⟨m', -, ⟨hin, -⟩ | ⟨-, -, hf⟩⟩ := trackedFree_books h ptr
    · exact absurd hin hptr
    · exact hf
  · rw [hreport]
    cases tracked with
    | nil => simp [report]
    | cons t tracked => simp [report]

/-- The block at 4096 is freed and its address handed out again; 7 was never
allocated. -/
theorem reused_books :
    ∃ s, (system []).Reachable s ∧ s.ledger = [⟨4096, 32⟩, ⟨5000, 64⟩] ∧
      s.mem.gTotalAllocated = 96 ∧ s.mem.checkLeaks = .ok (report s.ledger) := by
  have h0 : (system []).Reachable (State.initial []) := .init ⟨List.nodup_nil, rfl⟩
  have h1 := h0.next (.call (c := .malloc 128 4096 8192) (fun _ => by decide) rfl)
  have h2 := h1.next (.call (c := .malloc 64 5000 9000) (fun _ => by decide) rfl)
  have h3 := h2.next (.call (c := .free 4096) trivial rfl)
  have h4 := h3.next (.call (c := .malloc 32 4096 8192) (fun _ => by decide) rfl)
  have h5 := h4.next (.call (c := .free 7) trivial rfl)
  have hexact := tracker_books_exact [] h5
  exact ⟨_, h5, rfl, hexact.2.2.1, hexact.2.2.2.2.2.2.2.2.2⟩

end LearnLinux.Tracker
