import LearnLinux.Memory.Tracker

/-!
# Faults and order in the allocation tracker

Two laws of `tracked_malloc` and `tracked_free` in `05_memory/memory_demo.c`, in every
state the tracker can reach.

* `trackedMalloc_all_or_nothing`: a call is done whole or not at all unless the block
  is granted and its record is refused. `tracked_malloc` tests the first result of
  `malloc` and not the second.
* `frees_commute`: a list of frees leaves the same records, total and live blocks in
  every order, whatever the pointers are.
-/

namespace LearnLinux.Tracker

open AddressSpace CInt LinkedList Transition

/-! ## All or nothing -/

/-- What the two `malloc` calls of `tracked_malloc` promise when they succeed. -/
def Memory.Promises (m : Memory) (size p rec : Nat) : Prop :=
  p ≠ 0 → m.Fresh ⟨p, size⟩ ∧ (rec ≠ 0 → (m.malloc ⟨p, size⟩).Fresh ⟨rec, sizeofAllocRecord⟩)

/-- A call that starts in `m` returns a live block on top of the list and of the total,
or NULL and `m` unchanged. -/
def AllOrNothing (m : Memory) (size : Nat) (result : Except Fault (Memory × Nat)) : Prop :=
  ∃ m' p, result = .ok (m', p) ∧
    ((p ≠ 0 ∧ ⟨p, size⟩ ∈ m'.blocks ∧ m'.gTotalAllocated = m.gTotalAllocated + size ∧
      ∀ nodes, Chain AllocRecord.next m.cells m.gAllocList nodes →
        Chain AllocRecord.next m'.cells m'.gAllocList
          ((m'.gAllocList, ⟨p, size, m.gAllocList⟩) :: nodes)) ∨
      (p = 0 ∧ m' = m))

section Malloc

variable {m : Memory} {foreign : List Extent} {tracked : List (Nat × Extent)} {size p rec : Nat}

theorem trackedMalloc_refused : AllOrNothing m size (m.trackedMalloc size 0 rec) :=
  ⟨m, 0, rfl, Or.inr ⟨rfl, rfl⟩⟩

theorem trackedMalloc_granted (h : m.Books foreign tracked) (hp : m.Fresh ⟨p, size⟩)
    (hrec : (m.malloc ⟨p, size⟩).Fresh ⟨rec, sizeofAllocRecord⟩) :
    AllOrNothing m size (m.trackedMalloc size p rec) := by
  have hp0 : p ≠ 0 := hp.1
  have hr0 : rec ≠ 0 := hrec.1
  obtain ⟨m', hm, hbooks⟩ := trackedMalloc_books h hp hrec
  have hcall := hm
  rw [Memory.trackedMalloc, if_neg hp0, if_neg hr0] at hcall
  cases hcall
  refine ⟨_, p, hm, Or.inl ⟨hp0, ?_, ?_, ?_⟩⟩
  · exact hbooks.mem_blocks List.mem_cons_self _ (by simp [owned])
  · rw [hbooks.total, h.total]
    simp only [List.map_cons, List.sum_cons]
    omega
  · intro nodes hchain
    -- the new cell is apart from the cells of the old list, which are live blocks
    obtain ⟨nodes', hchain', hkeys⟩ := h.list
    cases hchain.unique hchain'
    refine .cons hr0 (Function.update_self _ _ _) (hchain.frame ?_)
    intro n hn
    have hkey : key n ∈ tracked := hkeys ▸ List.mem_map_of_mem hn
    have hlive := h.mem_blocks hkey _ List.mem_cons_self
    have hne : rec ≠ n.1 := (hrec.2.2 _ (List.mem_cons_of_mem _ hlive)).1
    exact Function.update_of_ne hne.symm _ _

end Malloc

/-- **When `tracked_malloc` is all-or-nothing**: in every reachable state, exactly when
the block is refused or the record is granted. -/
theorem trackedMalloc_all_or_nothing (foreign : List Extent) {s : State}
    (hr : (system foreign).Reachable s) (size p rec : Nat) (hp : s.mem.Promises size p rec) :
    AllOrNothing s.mem size (s.mem.trackedMalloc size p rec) ↔ p = 0 ∨ rec ≠ 0 := by
  obtain ⟨tracked, hbooks, -⟩ := reachable_books hr
  constructor
  · rintro ⟨m', r, hcall, -⟩
    by_cases hp0 : p = 0
    · exact Or.inl hp0
    · refine Or.inr fun hr0 => ?_
      rw [Memory.trackedMalloc, if_neg hp0, if_pos hr0] at hcall
      cases hcall
  · intro h
    by_cases hp0 : p = 0
    · subst hp0
      exact trackedMalloc_refused
    · obtain ⟨hblock, hrec⟩ := hp hp0
      exact trackedMalloc_granted hbooks hblock (hrec (h.resolve_left hp0))

theorem first_all_or_nothing :
    AllOrNothing (State.initial []).mem 16 ((State.initial []).mem.trackedMalloc 16 4096 8192) :=
  (trackedMalloc_all_or_nothing [] (.init ⟨List.nodup_nil, rfl⟩) 16 4096 8192
    fun _ => ⟨by decide, fun _ => by decide⟩).mpr (Or.inr (by decide))

/-- The block is granted at 4096 and the record is refused. -/
theorem refused_record :
    ∃ s, (system []).Reachable s ∧ s.mem.Promises 16 4096 0 ∧
      s.mem.trackedMalloc 16 4096 0 = .error .nullRecord ∧
      ¬ AllOrNothing s.mem 16 (s.mem.trackedMalloc 16 4096 0) := by
  refine ⟨State.initial [], .init ⟨List.nodup_nil, rfl⟩, ?_, rfl, ?_⟩
  · intro _
    exact ⟨by decide, fun h => absurd rfl h⟩
  · rintro ⟨m', p, hcall, -⟩
    cases hcall

/-! ## The order of frees -/

/-- `tracked_free` on the entries of a list, one after another. -/
def Memory.freeAll (m : Memory) : List Nat → Except Fault Memory
  | [] => .ok m
  | ptr :: ptrs => do
    let (m, _) ← m.trackedFree ptr
    m.freeAll ptrs

section Frees

variable {m m' : Memory} {foreign : List Extent} {tracked : List (Nat × Extent)}

/-- A list of frees takes the entries of its pointers off the books. -/
theorem freeAll_books (h : m.Books foreign tracked) (ptrs : List Nat) :
    ∃ m', m.freeAll ptrs = .ok m' ∧
      m'.Books foreign (tracked.filter fun t => t.2.base ∉ ptrs) := by
  induction ptrs generalizing m tracked with
  | nil =>
    refine ⟨m, rfl, ?_⟩
    rwa [List.filter_eq_self.mpr fun t _ => by simp]
  | cons ptr ptrs ih =>
    obtain ⟨m1, hbooks, hf⟩ := trackedFree_books h ptr
    obtain ⟨out, hfree⟩ : ∃ out, m.trackedFree ptr = .ok (m1, out) := by
      rcases hf with ⟨-, hf⟩ | ⟨-, rfl, hf⟩
      · exact ⟨_, hf⟩
      · exact ⟨_, hf⟩
    obtain ⟨m', hall, hbooks'⟩ := ih hbooks
    refine ⟨m', ?_, ?_⟩
    · rw [Memory.freeAll, hfree]
      exact hall
    · have hfilter : tracked.filter (fun t => t.2.base ∉ ptr :: ptrs) =
          (tracked.filter fun t => t.2.base ≠ ptr).filter fun t => t.2.base ∉ ptrs := by
        rw [List.filter_filter]
        refine List.filter_congr fun t _ => ?_
        simp [Bool.and_comm]
      rwa [hfilter]

/-- The books determine the list, cell by cell. -/
theorem Memory.Books.same_list {nodes : List Node} (h : m.Books foreign tracked)
    (h' : m'.Books foreign tracked) (hc : Chain AllocRecord.next m.cells m.gAllocList nodes) :
    m.gAllocList = m'.gAllocList ∧ Chain AllocRecord.next m'.cells m'.gAllocList nodes := by
  obtain ⟨nodes1, hchain1, hkeys1⟩ := h.list
  obtain ⟨nodes2, hchain2, hkeys2⟩ := h'.list
  cases hc.unique hchain1
  have hdata : ∀ c c' : AllocRecord, c.block = c'.block → c.next = c'.next → c = c' := by
    rintro ⟨ptr, size, next⟩ ⟨ptr', size', next'⟩ hb hn
    simp only [AllocRecord.block, Extent.mk.injEq] at hb
    obtain ⟨rfl, rfl⟩ := hb
    cases hn
    rfl
  obtain ⟨hp, rfl⟩ := hchain1.eq_of_data hdata hchain2 (hkeys1.trans hkeys2.symm)
  exact ⟨hp, hchain2⟩

theorem Memory.Books.same_blocks (h : m.Books foreign tracked) (h' : m'.Books foreign tracked) :
    m.blocks.Perm m'.blocks :=
  h.blocks.trans h'.blocks.symm

/-- A block on the books is live afterwards exactly when its pointer was not freed. -/
theorem live_after_frees (h : m.Books foreign tracked) {ptrs : List Nat}
    (h' : m'.Books foreign (tracked.filter fun t => t.2.base ∉ ptrs)) {e : Extent}
    (he : e ∈ tracked.map Prod.snd) : e ∈ m'.blocks ↔ e.base ∉ ptrs := by
  obtain ⟨t, ht, rfl⟩ := List.mem_map.mp he
  constructor
  · intro hlive hin
    obtain ⟨pre, post, rfl⟩ := List.append_of_mem ht
    have hdist := ((owned_perm pre post t foreign).map Extent.base).nodup_iff.mp h.nodup_tracked
    simp only [owned, List.cons_append, List.nil_append, List.map_cons, List.nodup_cons] at hdist
    -- every other live block has an address of its own
    apply hdist.2.1
    have hmem := h'.blocks.mem_iff.mp hlive
    rw [List.filter_append, List.filter_cons_of_neg (by simpa using hin)] at hmem
    rw [← List.filter_append] at hmem
    refine List.mem_map_of_mem ?_
    rcases List.mem_append.mp hmem with hmem | hmem
    · obtain ⟨u, hu, hown⟩ := List.mem_flatMap.mp hmem
      exact List.mem_append_left _ (List.mem_flatMap.mpr ⟨u, List.mem_of_mem_filter hu, hown⟩)
    · exact List.mem_append_right _ hmem
  · intro hout
    exact h'.mem_blocks (List.mem_filter.mpr ⟨ht, by simpa using hout⟩) _ (by simp [owned])

end Frees

/-- **The order of frees does not matter.** Two lists of pointers that are permutations
of each other leave the same records at the same addresses, the same total and the
same live blocks; exactly the blocks of the pointers in the list are freed, and the
other records stay where they are and in their order. -/
theorem frees_commute (foreign : List Extent) {s : State} (hr : (system foreign).Reachable s)
    {ptrs ptrs' : List Nat} (hp : ptrs.Perm ptrs') :
    ∃ m m' before after, s.mem.freeAll ptrs = .ok m ∧ s.mem.freeAll ptrs' = .ok m' ∧
      Chain AllocRecord.next s.mem.cells s.mem.gAllocList before ∧
      Chain AllocRecord.next m.cells m.gAllocList after ∧
      Chain AllocRecord.next m'.cells m'.gAllocList after ∧
      m.gAllocList = m'.gAllocList ∧
      m.gTotalAllocated = m'.gTotalAllocated ∧
      (∀ b, b ∈ m.blocks ↔ b ∈ m'.blocks) ∧
      (∀ e ∈ s.ledger, e ∉ m.blocks ↔ e.base ∈ ptrs) ∧
      after.map key = (before.map key).filter fun t => t.2.base ∉ ptrs := by
  obtain ⟨tracked, h, hledger⟩ := reachable_books hr
  obtain ⟨m, hm, hbooks⟩ := freeAll_books h ptrs
  obtain ⟨m', hm', hbooks'⟩ := freeAll_books h ptrs'
  have hsame : (tracked.filter fun t => t.2.base ∉ ptrs') =
      tracked.filter fun t => t.2.base ∉ ptrs := by
    refine List.filter_congr fun t _ => ?_
    simp only [hp.mem_iff]
  rw [hsame] at hbooks'
  obtain ⟨before, hbefore, hkeys⟩ := h.list
  obtain ⟨after, hafter, hkeys'⟩ := hbooks.list
  obtain ⟨hhead, hafter'⟩ := hbooks.same_list hbooks' hafter
  refine ⟨m, m', before, after, hm, hm', hbefore, hafter, hafter', hhead, ?_, ?_, ?_, ?_⟩
  · rw [hbooks.total, hbooks'.total]
  · intro b
    exact (hbooks.same_blocks hbooks').mem_iff
  · intro e he
    rw [live_after_frees h hbooks (hledger ▸ he), not_not]
  · rw [hkeys', hkeys]

/-- Three blocks are live; 7 is unknown, 0 is NULL and 5000 is freed twice. -/
theorem repeated_frees_commute :
    ∃ s, (system []).Reachable s ∧ s.ledger = [⟨6000, 32⟩, ⟨5000, 64⟩, ⟨4096, 128⟩] ∧
      ∃ m m', s.mem.freeAll [5000, 7, 0, 5000, 6000] = .ok m ∧
        s.mem.freeAll [6000, 5000, 5000, 0, 7] = .ok m' ∧ m.gAllocList = m'.gAllocList ∧
        m.gTotalAllocated = m'.gTotalAllocated := by
  have h0 : (system []).Reachable (State.initial []) := .init ⟨List.nodup_nil, rfl⟩
  have h1 := h0.next (.call (c := .malloc 128 4096 8192) (fun _ => by decide) rfl)
  have h2 := h1.next (.call (c := .malloc 64 5000 9000) (fun _ => by decide) rfl)
  have h3 := h2.next (.call (c := .malloc 32 6000 9100) (fun _ => by decide) rfl)
  obtain ⟨m, m', -, -, hm, hm', -, -, -, hhead, htotal, -⟩ := frees_commute [] h3
    (show [5000, 7, 0, 5000, 6000].Perm [6000, 5000, 5000, 0, 7] by decide)
  exact ⟨_, h3, rfl, m, m', hm, hm', hhead, htotal⟩

end LearnLinux.Tracker
