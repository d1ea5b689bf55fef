import LearnLinux.Memory.Tracker

/-!
# The list code of the tracker refines list operations

The abstraction of the heap is the list of the `(ptr, size)` pairs along the chain from
`g_alloc_list`. `tracked_malloc` is `cons` on it and `tracked_free`, which unlinks through a
pointer to a pointer, is the removal of the first pair with its pointer.

The books say where the records on the list are. Here it is added that there are no others
(`Covers`): the heap loses the record that `tracked_free` takes off the list, and only this one.
`tracker_refines_list` states the refinement in every reachable state.
-/

namespace LearnLinux.Tracker

open AddressSpace CInt LinkedList Transition

/-! ## The records in the heap -/

/-- Every record in the heap stands for an entry of the books. -/
def Memory.Covers (m : Memory) (tracked : List (Nat × Extent)) : Prop :=
  ∀ a c, m.cells a = some c → (a, c.block) ∈ tracked

section Cells

variable {m m' : Memory} {ptr a : Nat} {c : AllocRecord}

/-- A store through `cur` changes no more than one `next` field. -/
theorem store_cells {cur : Slot} {v : Nat} (hs : m.store cur v = .ok m')
    (hc : m'.cells a = some c) : ∃ c', m.cells a = some c' ∧ c'.block = c.block := by
  cases cur with
  | global =>
    cases hs
    exact ⟨c, hc, rfl⟩
  | next rec =>
    simp only [Memory.store] at hs
    cases hrec : m.cells rec with
    | none =>
      rw [hrec] at hs
      cases hs
    | some d =>
      rw [hrec] at hs
      cases hs
      dsimp only at hc
      by_cases ha : a = rec
      · subst ha
        rw [Function.update_self] at hc
        cases hc
        exact ⟨d, hrec, rfl⟩
      · rw [Function.update_of_ne ha] at hc
        exact ⟨c, hc, rfl⟩

theorem free_cells (hf : m.free ptr = .ok m') (hc : m'.cells a = some c) :
    m.cells a = some c ∧ (ptr ≠ 0 → a ≠ ptr) := by
  unfold Memory.free at hf
  split at hf
  · next h0 =>
    cases hf
    exact ⟨hc, fun hne => absurd h0 hne⟩
  · split at hf
    · cases hf
      dsimp only at hc
      have ha : a ≠ ptr := by
        rintro rfl
        rw [Function.update_self] at hc
        cases hc
      rw [Function.update_of_ne ha] at hc
      exact ⟨hc, fun _ => ha⟩
    · cases hf

/-- After the body of the `if` the heap has the same records without `tmp`. -/
theorem unlink_cells {cur : Slot} {tmp : Nat} {rec : AllocRecord} (h0 : tmp ≠ 0)
    (hu : m.unlink ptr cur tmp rec = .ok m') (hc : m'.cells a = some c) :
    a ≠ tmp ∧ ∃ c', m.cells a = some c' ∧ c'.block = c.block := by
  simp only [Memory.unlink, bind, Except.bind] at hu
  split at hu
  · cases hu
  · next m1 hstore =>
    split at hu
    · cases hu
    · next m2 hfree =>
      obtain ⟨hc2, -⟩ := free_cells hu hc
      obtain ⟨hc1, hne⟩ := free_cells hfree hc2
      have hkept := store_cells hstore hc1
      exact ⟨hne h0, hkept⟩

/-- What the loop of `tracked_free` can do, whatever the heap is like: leave it alone, or run
the body of the `if` at one record of `ptr`. -/
theorem freeLoop_cases {fuel : Nat} {cur : Slot} {found : Bool}
    (h : m.freeLoop ptr fuel cur = .ok (m', found)) :
    m' = m ∨ ∃ cur' tmp rec, tmp ≠ 0 ∧ m.cells tmp = some rec ∧ rec.ptr = ptr ∧
      m.unlink ptr cur' tmp rec = .ok m' := by
  induction fuel generalizing cur with
  | zero => cases h
  | succ fuel ih =>
    simp only [Memory.freeLoop, bind, Except.bind] at h
    split at h
    · cases h
    · next tmp _ =>
      split at h
      · cases h
        exact Or.inl rfl
      · next h0 =>
        split at h
        · cases h
        · next rec hrec =>
          split at h
          · next hptr =>
            split at h
            · cases h
            · next m1 hunlink =>
              cases h
              exact Or.inr ⟨cur, tmp, rec, h0, hrec, hptr, hunlink⟩
          · exact ih h

theorem trackedFree_cases {out : List Line} (h : m.trackedFree ptr = .ok (m', out)) :
    m' = m ∨ ∃ cur tmp rec, tmp ≠ 0 ∧ m.cells tmp = some rec ∧ rec.ptr = ptr ∧
      m.unlink ptr cur tmp rec = .ok m' := by
  simp only [Memory.trackedFree, bind, Except.bind] at h
  split at h
  · cases h
  · next r hloop =>
    cases h
    exact freeLoop_cases hloop

end Cells

/-! ## No other records -/

section Covers

variable {m m' : Memory} {foreign : List Extent} {tracked : List (Nat × Extent)}

theorem trackedMalloc_covers (h : m.Covers tracked) {size p rec r : Nat} (hp : p ≠ 0)
    (hm : m.trackedMalloc size p rec = .ok (m', r)) :
    m'.Covers ((rec, ⟨p, size⟩) :: tracked) := by
  intro a c hc
  unfold Memory.trackedMalloc at hm
  rw [if_neg hp] at hm
  split at hm
  · cases hm
  · cases hm
    dsimp only [Memory.malloc] at hc
    by_cases ha : a = rec
    · subst ha
      rw [Function.update_self] at hc
      cases hc
      exact List.mem_cons_self
    · rw [Function.update_of_ne ha] at hc
      exact List.mem_cons_of_mem _ (h a c hc)

/-- A heap has one list of entries. -/
theorem Memory.Books.unique {tracked' : List (Nat × Extent)} (h : m.Books foreign tracked)
    (h' : m.Books foreign tracked') : tracked = tracked' := by
  obtain ⟨nodes, hchain, rfl⟩ := h.list
  obtain ⟨nodes', hchain', rfl⟩ := h'.list
  rw [hchain.unique hchain']

/-- `tracked_free` takes the record of `ptr` out of the heap, and no other. -/
theorem trackedFree_covers (hb : m.Books foreign tracked) (h : m.Covers tracked) {ptr : Nat}
    {out : List Line} (hf : m.trackedFree ptr = .ok (m', out))
    (hb' : m'.Books foreign (tracked.filter fun t => t.2.base ≠ ptr)) :
    m'.Covers (tracked.filter fun t => t.2.base ≠ ptr) := by
  rcases trackedFree_cases hf with rfl | ⟨cur, tmp, rec, h0, hrec, hptr, hunlink⟩
  · rwa [← hb.unique hb']
  · intro a c hc
    obtain ⟨hne, c', hc', hblock⟩ := unlink_cells h0 hunlink hc
    have hmem : (a, c.block) ∈ tracked := hblock ▸ h a c' hc'
    -- another record of `ptr` would share its block with `tmp`
    have hn := hb.nodup_pointers
    rw [List.map_map] at hn
    refine List.mem_filter.mpr ⟨hmem, decide_eq_true fun hbase => hne ?_⟩
    exact congrArg Prod.fst
      (List.inj_on_of_nodup_map hn hmem (h tmp rec hrec) (hbase.trans hptr.symm))

theorem reachable_covers {s : State} (hr : (system foreign).Reachable s) :
    ∃ tracked, s.mem.Books foreign tracked ∧ s.mem.Covers tracked := by
  induction hr with
  | init hi =>
    obtain ⟨tracked, hb, -⟩ := reachable_books (.init hi)
    obtain ⟨-, rfl⟩ := hi
    exact ⟨tracked, hb, nofun⟩
  | @next c s t _ hs ih =>
    obtain ⟨tracked, hb, hcov⟩ := ih
    cases hs with
    | @call m out ha hex =>
      cases c with
      | malloc size p rec =>
        by_cases hp : p = 0
        · simp only [Memory.exec, Memory.trackedMalloc, if_pos hp] at hex
          cases hex
          exact ⟨tracked, hb, hcov⟩
        · obtain ⟨m', hm, hb'⟩ := trackedMalloc_books hb (ha hp).1 (ha hp).2
          simp only [Memory.exec, hm] at hex
          cases hex
          exact ⟨_, hb', trackedMalloc_covers hcov hp hm⟩
      | free ptr =>
        obtain ⟨m', hb', ⟨-, hf⟩ | ⟨-, rfl, hf⟩⟩ := trackedFree_books hb ptr
        · rw [Memory.exec, hf] at hex
          cases hex
          exact ⟨_, hb', trackedFree_covers hb hcov hf hb'⟩
        · rw [Memory.exec, hf] at hex
          cases hex
          exact ⟨_, hb', trackedFree_covers hb hcov hf hb'⟩
      | checkLeaks =>
        simp only [Memory.exec, checkLeaks_books hb] at hex
        cases hex
        exact ⟨tracked, hb, hcov⟩

end Covers

/-! ## The list of pairs -/

/-- The `(ptr, size)` pair of a record. -/
def AllocRecord.pair (rec : AllocRecord) : Nat × Nat := (rec.ptr, rec.size)

/-- The chain from `g_alloc_list` has the pairs `l`. -/
def Memory.Lists (m : Memory) (l : List (Nat × Nat)) : Prop :=
  ∃ nodes, Chain AllocRecord.next m.cells m.gAllocList nodes ∧ nodes.map (fun n => n.2.pair) = l

section Pairs

variable {m : Memory} {foreign : List Extent} {tracked : List (Nat × Extent)}

theorem Memory.Books.lists (h : m.Books foreign tracked) :
    m.Lists (tracked.map fun t => (t.2.base, t.2.size)) := by
  obtain ⟨nodes, hchain, rfl⟩ := h.list
  exact ⟨nodes, hchain, by rw [List.map_map]; rfl⟩

/-- Where the values of `f` are distinct, all elements with the value `x` are the first one. -/
theorem filter_eq_eraseP {α : Type*} {f : α → Nat} {l : List α} (h : (l.map f).Nodup) (x : Nat) :
    l.filter (fun t => f t ≠ x) = l.eraseP fun t => f t = x := by
  induction l with
  | nil => rfl
  | cons t l ih =>
    obtain ⟨hout, hn⟩ := List.nodup_cons.mp h
    by_cases ht : f t = x
    · rw [List.filter_cons_of_neg (by simp [ht]), List.eraseP_cons_of_pos (by simp [ht]),
        List.filter_eq_self]
      intro u hu
      refine decide_eq_true fun he => hout ?_
      rw [ht, ← he]
      exact List.mem_map_of_mem hu
    · rw [List.filter_cons_of_pos (by simp [ht]), List.eraseP_cons_of_neg (by simp [ht]), ih hn]

end Pairs

/-- **The tracker refines list operations**, in every state that a list of calls reaches. -/
theorem tracker_refines_list (foreign : List Extent) {s : State}
    (hr : (system foreign).Reachable s) :
    ∃ nodes, Chain AllocRecord.next s.mem.cells s.mem.gAllocList nodes ∧
      (nodes.map Prod.fst).Nodup ∧
      (∀ a c, s.mem.cells a = some c ↔ (a, c) ∈ nodes) ∧
      (∀ ptr, ∃ r, ∀ fuel, nodes.length < fuel → s.mem.freeLoop ptr fuel .global = .ok r) ∧
      (∀ fuel, nodes.length < fuel → s.mem.leakLoop fuel s.mem.gAllocList =
        .ok (nodes.map fun n => .leak n.2.ptr n.2.size)) ∧
      (∀ size p rec, s.mem.Allows (.malloc size p rec) → ∃ m,
        s.mem.trackedMalloc size p rec = .ok (m, p) ∧ (p = 0 → m = s.mem) ∧
        (p ≠ 0 → m.Lists ((p, size) :: nodes.map fun n => n.2.pair))) ∧
      (∀ ptr, ∃ m out, s.mem.trackedFree ptr = .ok (m, out) ∧
        m.Lists ((nodes.map fun n => n.2.pair).eraseP fun x => x.1 = ptr) ∧
        ((∀ n ∈ nodes, n.2.ptr ≠ ptr) → m = s.mem)) ∧
      ∃ out, s.mem.checkLeaks = .ok out := by
  obtain ⟨tracked, hb, hcov⟩ := reachable_covers hr
  obtain ⟨nodes, hchain, rfl⟩ := hb.list
  have hpairs : (nodes.map key).map (fun t => (t.2.base, t.2.size)) =
      nodes.map fun n => n.2.pair := by
    rw [List.map_map]
    rfl
  refine ⟨nodes, hchain, ?_, ?_, ?_, fun fuel => leakLoop_eq hchain, ?_, ?_, _,
    checkLeaks_books hb⟩
  · have hn := hb.nodup_records
    rwa [List.map_map] at hn
  · intro a c
    refine ⟨fun hc => ?_, fun hmem => hchain.mem hmem⟩
    obtain ⟨n, hn, hkey⟩ := List.mem_map.mp (hcov a c hc)
    obtain rfl : n.1 = a := congrArg Prod.fst hkey
    rw [hchain.mem hn] at hc
    cases hc
    exact hn
  · intro ptr
    obtain ⟨m', -, ⟨-, hloop⟩ | ⟨-, -, hloop⟩⟩ := freeLoop_books hb ptr
    · rw [List.length_map] at hloop
      exact ⟨_, hloop⟩
    · rw [List.length_map] at hloop
      exact ⟨_, hloop⟩
  · intro size p rec ha
    by_cases hp : p = 0
    · subst hp
      exact ⟨s.mem, rfl, fun _ => rfl, fun hne => absurd rfl hne⟩
    · obtain ⟨m, hm, hb'⟩ := trackedMalloc_books hb (ha hp).1 (ha hp).2
      refine ⟨m, hm, fun h0 => absurd h0 hp, fun _ => ?_⟩
      have hl := hb'.lists
      rwa [List.map_cons, hpairs] at hl
  · intro ptr
    have hlist : ∀ {m : Memory},
        m.Books foreign ((nodes.map key).filter fun t => t.2.base ≠ ptr) →
        m.Lists ((nodes.map fun n => n.2.pair).eraseP fun x => x.1 = ptr) := by
      intro m hb'
      have hn := hb.nodup_pointers
      rw [List.map_map] at hn
      have hl := hb'.lists
      rw [filter_eq_eraseP (f := fun t : Nat × Extent => t.2.base) hn] at hl
      rw [← hpairs, List.eraseP_map]
      exact hl
    obtain ⟨m, hb', ⟨hin, hf⟩ | ⟨-, rfl, hf⟩⟩ := trackedFree_books hb ptr
    · refine ⟨m, _, hf, hlist hb', fun hne => ?_⟩
      obtain ⟨n, hn, hptr⟩ := mem_pointers.mp hin
      exact absurd hptr (hne n hn)
    · exact ⟨_, _, hf, hlist hb', fun _ => rfl⟩

/-- The record at 8192 is freed and its address used again for a record that is now behind
another one. -/
theorem recycled_record_refines :
    ∃ s, (system []).Reachable s ∧ s.mem.Lists [(6000, 32), (4096, 16), (5000, 64)] ∧
      ∃ m out, s.mem.trackedFree 4096 = .ok (m, out) ∧ m.Lists [(6000, 32), (5000, 64)] := by
  have h0 : (system []).Reachable (State.initial []) := .init ⟨List.nodup_nil, rfl⟩
  have h1 := h0.next (.call (c := .malloc 128 4096 8192) (fun _ => by decide) rfl)
  have h2 := h1.next (.call (c := .malloc 64 5000 9000) (fun _ => by decide) rfl)
  have h3 := h2.next (.call (c := .free 4096) trivial rfl)
  have h4 := h3.next (.call (c := .malloc 16 4096 8192) (fun _ => by decide) rfl)
  have h5 := h4.next (.call (c := .malloc 32 6000 9100) (fun _ => by decide) rfl)
  obtain ⟨nodes, hchain, -, -, -, -, -, hfree, -⟩ := tracker_refines_list [] h5
  have hnodes : nodes = [(9100, ⟨6000, 32, 8192⟩), (8192, ⟨4096, 16, 9000⟩),
      (9000, ⟨5000, 64, 0⟩)] :=
    hchain.unique (.cons (by decide) rfl (.cons (by decide) rfl (.cons (by decide) rfl .nil)))
  subst hnodes
  obtain ⟨m, out, hf, hl, -⟩ := hfree 4096
  exact ⟨_, h5, ⟨_, hchain, rfl⟩, m, out, hf, hl⟩

end LearnLinux.Tracker
