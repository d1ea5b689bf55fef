import LearnLinux.Lib.CString
import LearnLinux.Lib.Census
import LearnLinux.Lib.Transition

/-!
# The module of `09_kernel_module/hello_module.c`

`hello_init` creates `/proc/hello_module` and then allocates a buffer; when the buffer cannot be
had, it takes the entry back. `hello_exit` removes the entry and frees the buffer. The entry can be
read from the moment it exists, by any number of readers at once, and `count` can be written
through sysfs at any time: `hello_seq_show` loads it for the line that shows it, and again for
every test of its loop. `proc_remove` returns when nobody is in `hello_seq_show` any more.

`hello_module_runs`: what is held after any number of loads, failed loads and unloads, what the
readers are shown, and that no reader holds up an unload for good.
-/

namespace LearnLinux.HelloModule

open CString Census Transition

/-! ## The module and its readers -/

/-- A line of `/proc/hello_module`. -/
inductive Line where
  | title
  | version
  | paramName (name : List UInt8)
  | paramCount (count : Int)
  | greetings
  | hello (i : Nat) (name : List UInt8)
  deriving DecidableEq, Repr

/-- The next call of `hello_init` or `hello_exit`; `undo` is the `proc_remove` of `hello_init`. -/
inductive Module where
  | unloaded
  | procCreate
  | kmalloc
  | undo
  | loaded
  | procRemove
  | kfree
  deriving DecidableEq, Repr

/-- A reader in round `i` of the loop of `hello_seq_show`, with what it has printed. -/
inductive Reader where
  | outside
  | showing (i : Nat) (m : List Line)
  deriving DecidableEq, Repr

/-- `live` counts the blocks that were allocated and not freed, and `texts` are what the calls of
`hello_seq_show` have produced. -/
structure State (R : Nat) where
  module : Module
  name : List UInt8
  count : Int
  procEntry : Bool
  live : Nat
  reader : Fin R → Reader
  texts : List (List Line)

/-- `init` is the next call of `hello_init` with its outcome, `cleanUp` the next `proc_remove` or
`kfree`. -/
inductive Act (R : Nat) where
  | insmod (name : List UInt8) (count : Int)
  | init (ok : Bool)
  | rmmod
  | cleanUp
  | setCount (count : Int)
  | enter (t : Fin R)
  | test (t : Fin R)
  deriving DecidableEq, Repr

/-- What `hello_seq_show` prints in front of its loop. -/
def header (name : List UInt8) (count : Int) : List Line :=
  [.title, .version, .paramName name, .paramCount count, .greetings]

def helloInit {R : Nat} (ok : Bool) (s : State R) : Option (State R) :=
  match s.module with
  | .procCreate =>
    if ok then some { s with procEntry := true, module := .kmalloc }
    else some { s with module := .unloaded }
  | .kmalloc =>
    if ok then some { s with live := s.live + 1, module := .loaded }
    else some { s with module := .undo }
  | _ => none

def State.quiet {R : Nat} (s : State R) : Bool := decide (∀ t, s.reader t = .outside)

def cleanUp {R : Nat} (s : State R) : Option (State R) :=
  match s.module with
  | .undo => if s.quiet then some { s with procEntry := false, module := .unloaded } else none
  | .procRemove => if s.quiet then some { s with procEntry := false, module := .kfree } else none
  | .kfree => some { s with live := s.live - 1, module := .unloaded }
  | _ => none

/-- One test of the loop of `hello_seq_show`, and the line or the return behind it. -/
def helloSeqShow {R : Nat} (t : Fin R) (s : State R) : Option (State R) :=
  match s.reader t with
  | .outside => none
  | .showing i m =>
    if i < s.count then
      some { s with
        reader := Function.update s.reader t (.showing (i + 1) (m ++ [.hello (i + 1) s.name])) }
    else some { s with reader := Function.update s.reader t .outside, texts := s.texts ++ [m] }

def step {R : Nat} : Act R → State R → Option (State R)
  | .insmod name count, s =>
    if s.module = .unloaded then
      some { s with module := .procCreate, name := name, count := count }
    else none
  | .init ok, s => helloInit ok s
  | .rmmod, s => if s.module = .loaded then some { s with module := .procRemove } else none
  | .cleanUp, s => cleanUp s
  | .setCount count, s => if s.module ≠ .unloaded then some { s with count := count } else none
  | .enter t, s =>
    if s.procEntry = true ∧ s.reader t = .outside then
      some { s with reader := Function.update s.reader t (.showing 0 (header s.name s.count)) }
    else none
  | .test t, s => helloSeqShow t s

/-- The values of `name` and `count` that `insmod` uses when it is given none. -/
def State.initial (R : Nat) : State R :=
  ⟨.unloaded, bytes "World", 3, false, 0, fun _ => .outside, []⟩

/-! ## What is held -/

/-- The entry and the blocks at each call. -/
def Holds (module : Module) (procEntry : Bool) (live : Nat) : Prop :=
  match module with
  | .unloaded | .procCreate => procEntry = false ∧ live = 0
  | .kmalloc | .undo => procEntry = true ∧ live = 0
  | .loaded | .procRemove => procEntry = true ∧ live = 1
  | .kfree => procEntry = false ∧ live = 1

structure State.Kept {R : Nat} (s : State R) : Prop where
  holds : Holds s.module s.procEntry s.live
  inside : ∀ t, s.reader t ≠ .outside → s.procEntry = true

section Steps

variable {R : Nat} {s s' : State R} {t : Fin R}

theorem initial_kept (R : Nat) : (State.initial R).Kept :=
  ⟨⟨rfl, rfl⟩, fun _ h => absurd rfl h⟩

theorem State.Kept.loaded (h : s.Kept) (ht : s.reader t ≠ .outside) : s.module ≠ .unloaded := by
  intro hm
  have hholds := h.holds
  rw [hm] at hholds
  have := hholds.1.symm.trans (h.inside t ht)
  cases this

/-- Once nobody is inside, the entry can go. -/
theorem outside_of_quiet (h : s.quiet = true) (t : Fin R) : s.reader t = .outside :=
  of_decide_eq_true h t

/-- A reader that enters or goes on. -/
theorem State.Kept.read {r : Reader} {texts : List (List Line)} (h : s.Kept)
    (hentry : s.procEntry = true) :
    State.Kept { s with reader := Function.update s.reader t r, texts := texts } :=
  ⟨h.holds, fun _ _ => hentry⟩

theorem helloInit_kept {ok : Bool} (h : s.Kept) (hs : helloInit ok s = some s') : s'.Kept := by
  have hholds := h.holds
  unfold helloInit at hs
  split at hs
  next hm =>
    rw [hm] at hholds
    cases ok with
    | true =>
      obtain rfl := Option.some.inj hs
      exact ⟨⟨rfl, hholds.2⟩, fun _ _ => rfl⟩
    | false =>
      obtain rfl := Option.some.inj hs
      exact ⟨hholds, h.inside⟩
  next hm =>
    rw [hm] at hholds
    cases ok with
    | true =>
      obtain rfl := Option.some.inj hs
      exact ⟨⟨hholds.1, congrArg (· + 1) hholds.2⟩, h.inside⟩
    | false =>
      obtain rfl := Option.some.inj hs
      exact ⟨hholds, h.inside⟩
  next => cases hs

theorem cleanUp_kept (h : s.Kept) (hs : cleanUp s = some s') : s'.Kept := by
  have hholds := h.holds
  unfold cleanUp at hs
  split at hs
  next hm =>
    obtain ⟨hquiet, hs⟩ := Option.ite_none_right_eq_some.mp hs
    obtain rfl := Option.some.inj hs
    rw [hm] at hholds
    exact ⟨⟨rfl, hholds.2⟩, fun t ht => absurd (outside_of_quiet hquiet t) ht⟩
  next hm =>
    obtain ⟨hquiet, hs⟩ := Option.ite_none_right_eq_some.mp hs
    obtain rfl := Option.some.inj hs
    rw [hm] at hholds
    exact ⟨⟨rfl, hholds.2⟩, fun t ht => absurd (outside_of_quiet hquiet t) ht⟩
  next hm =>
    obtain rfl := Option.some.inj hs
    rw [hm] at hholds
    exact ⟨⟨hholds.1, congrArg (· - 1) hholds.2⟩, h.inside⟩
  next => cases hs

theorem step_kept {a : Act R} (h : s.Kept) (hs : step a s = some s') : s'.Kept := by
  have hholds := h.holds
  cases a with
  | insmod name count =>
    obtain ⟨hm, hs⟩ := Option.ite_none_right_eq_some.mp hs
    obtain rfl := Option.some.inj hs
    rw [hm] at hholds
    exact ⟨hholds, h.inside⟩
  | init ok => exact helloInit_kept h hs
  | rmmod =>
    obtain ⟨hm, hs⟩ := Option.ite_none_right_eq_some.mp hs
    obtain rfl := Option.some.inj hs
    rw [hm] at hholds
    exact ⟨hholds, h.inside⟩
  | cleanUp => exact cleanUp_kept h hs
  | setCount count =>
    obtain ⟨-, hs⟩ := Option.ite_none_right_eq_some.mp hs
    obtain rfl := Option.some.inj hs
    exact ⟨hholds, h.inside⟩
  | enter t =>
    obtain ⟨⟨hentry, -⟩, hs⟩ := Option.ite_none_right_eq_some.mp hs
    obtain rfl := Option.some.inj hs
    exact h.read hentry
  | test t =>
    simp only [step, helloSeqShow] at hs
    split at hs
    next => cases hs
    next i m hr =>
      have hentry := h.inside t (by rw [hr]; exact nofun)
      split at hs <;> obtain rfl := Option.some.inj hs <;> exact h.read hentry

end Steps

/-! ## What is shown -/

/-- The text with `n` greetings. -/
def shown (name : List UInt8) (count : Int) (n : Nat) : List Line :=
  header name count ++ (List.range n).map fun i => .hello (i + 1) name

theorem shown_succ (name : List UInt8) (count : Int) (n : Nat) :
    shown name count (n + 1) = shown name count n ++ [.hello (n + 1) name] := by
  rw [shown, List.range_succ, List.map_append, ← List.append_assoc]
  rfl

/-- What readers and texts are when `count` stays between `a` and `b`. -/
structure State.Shows {R : Nat} (a b : Int) (s : State R) : Prop where
  count : s.module ≠ .unloaded → a ≤ s.count ∧ s.count ≤ b
  reader : ∀ t i m, s.reader t = .showing i m →
    ∃ c, m = shown s.name c i ∧ a ≤ c ∧ c ≤ b ∧ (i : Int) ≤ max b 0
  texts : ∀ m ∈ s.texts, ∃ name c n, m = shown name c n ∧ a ≤ c ∧ c ≤ b ∧
    max a 0 ≤ (n : Int) ∧ (n : Int) ≤ max b 0

/-- The values that `count` is given stay between `a` and `b`. -/
def Act.Gives {R : Nat} (a b : Int) : Act R → Prop
  | .insmod _ count | .setCount count => a ≤ count ∧ count ≤ b
  | _ => True

section Shows

variable {R : Nat} {a b : Int} {s s' : State R} {t : Fin R}

theorem initial_shows (R : Nat) (a b : Int) : (State.initial R).Shows a b :=
  ⟨fun h => absurd rfl h, fun _ _ _ h => (by cases h), fun _ h => (by cases h)⟩

/-- A step that only moves the module. -/
theorem State.Shows.next {module : Module} {procEntry : Bool} {live : Nat} (h : s.Shows a b)
    (hm : s.module ≠ .unloaded) :
    State.Shows a b { s with module := module, procEntry := procEntry, live := live } :=
  ⟨fun _ => h.count hm, h.reader, h.texts⟩

theorem test_shows (hkept : s.Kept) (h : s.Shows a b) (hs : helloSeqShow t s = some s') :
    s'.Shows a b := by
  unfold helloSeqShow at hs
  split at hs
  next => cases hs
  next i m hr =>
    obtain ⟨c, hm, hac, hcb, hib⟩ := h.reader t i m hr
    have hcount := h.count (hkept.loaded (t := t) (by rw [hr]; exact nofun))
    split at hs
    next hi =>
      obtain rfl := Option.some.inj hs
      refine ⟨h.count, fun u j m' hu => ?_, h.texts⟩
      by_cases hut : u = t
      · subst hut
        simp only [Function.update_self, Reader.showing.injEq] at hu
        obtain ⟨rfl, rfl⟩ := hu
        refine ⟨c, by rw [hm, shown_succ], hac, hcb, ?_⟩
        omega
      · simp only [Function.update_of_ne hut] at hu
        exact h.reader u j m' hu
    next hi =>
      obtain rfl := Option.some.inj hs
      refine ⟨h.count, fun u j m' hu => ?_, fun m' hm' => ?_⟩
      · by_cases hut : u = t
        · subst hut
          simp only [Function.update_self] at hu
          cases hu
        · simp only [Function.update_of_ne hut] at hu
          exact h.reader u j m' hu
      · rcases List.mem_append.mp hm' with hold | hnew
        · exact h.texts m' hold
        · obtain rfl := List.mem_singleton.mp hnew
          exact ⟨s.name, c, i, hm, hac, hcb, by omega, hib⟩

theorem enter_shows (hkept : s.Kept) (h : s.Shows a b) (hs : step (.enter t) s = some s') :
    s'.Shows a b := by
  obtain ⟨⟨hentry, -⟩, hs⟩ := Option.ite_none_right_eq_some.mp hs
  obtain rfl := Option.some.inj hs
  have hloaded : s.module ≠ .unloaded := by
    intro hm
    have hholds := hkept.holds
    rw [hm] at hholds
    have := hholds.1.symm.trans hentry
    cases this
  have hcount := h.count hloaded
  refine ⟨h.count, fun u j m hu => ?_, h.texts⟩
  by_cases hut : u = t
  · subst hut
    simp only [Function.update_self, Reader.showing.injEq] at hu
    obtain ⟨rfl, rfl⟩ := hu
    exact ⟨s.count, (List.append_nil _).symm, hcount.1, hcount.2, by omega⟩
  · simp only [Function.update_of_ne hut] at hu
    exact h.reader u j m hu

theorem step_shows {act : Act R} (hact : act.Gives a b) (hkept : s.Kept) (h : s.Shows a b)
    (hs : step act s = some s') : s'.Shows a b := by
  cases act with
  | insmod name count =>
    obtain ⟨hm, hs⟩ := Option.ite_none_right_eq_some.mp hs
    obtain rfl := Option.some.inj hs
    -- Nobody is inside, so no text mixes the names of two loads.
    refine ⟨fun _ => hact, fun t i m ht => ?_, h.texts⟩
    exact absurd hm (hkept.loaded (t := t) (by rw [ht]; exact nofun))
  | init ok =>
    simp only [step, helloInit] at hs
    split at hs
    next hm =>
      have hloaded : s.module ≠ .unloaded := by rw [hm]; decide
      cases ok <;> obtain rfl := Option.some.inj hs <;> exact h.next hloaded
    next hm =>
      have hloaded : s.module ≠ .unloaded := by rw [hm]; decide
      cases ok <;> obtain rfl := Option.some.inj hs <;> exact h.next hloaded
    next => cases hs
  | rmmod =>
    obtain ⟨hm, hs⟩ := Option.ite_none_right_eq_some.mp hs
    obtain rfl := Option.some.inj hs
    exact h.next (by rw [hm]; decide)
  | cleanUp =>
    simp only [step, cleanUp] at hs
    split at hs
    next hm =>
      obtain ⟨-, hs⟩ := Option.ite_none_right_eq_some.mp hs
      obtain rfl := Option.some.inj hs
      exact h.next (by rw [hm]; decide)
    next hm =>
      obtain ⟨-, hs⟩ := Option.ite_none_right_eq_some.mp hs
      obtain rfl := Option.some.inj hs
      exact h.next (by rw [hm]; decide)
    next hm =>
      obtain rfl := Option.some.inj hs
      exact h.next (by rw [hm]; decide)
    next => cases hs
  | setCount count =>
    obtain ⟨-, hs⟩ := Option.ite_none_right_eq_some.mp hs
    obtain rfl := Option.some.inj hs
    exact ⟨fun _ => hact, h.reader, h.texts⟩
  | enter t => exact enter_shows hkept h hs
  | test t => exact test_shows hkept h hs

end Shows

/-! ## Unloading -/

/-- The steps of readers that go on and of `hello_exit`. -/
def unloadAct {R : Nat} : Option (Fin R) → Act R
  | none => .cleanUp
  | some t => .test t

def Reader.left (count : Int) : Reader → Nat
  | .outside => 0
  | .showing i _ => (count - i).toNat + 1

def Module.left : Module → Nat
  | .procRemove => 2
  | .undo | .kfree => 1
  | _ => 0

/-- What is left of an unload when `count` stays as it is. -/
def State.left {R : Nat} (s : State R) : Nat :=
  s.module.left + ∑ t, (s.reader t).left s.count

/-- From a `proc_remove` on. -/
def Module.unloading (module : Module) : Prop :=
  module = .undo ∨ module = .procRemove ∨ module = .kfree ∨ module = .unloaded

section Unload

variable {R : Nat} {s s' : State R} {t : Fin R}

/-- A reader that is inside comes closer to its end with every test. -/
theorem test_left {i : Nat} {m : List Line} (hr : s.reader t = .showing i m) :
    ∃ s', step (.test t) s = some s' ∧ s'.left < s.left := by
  by_cases hi : i < s.count
  · refine ⟨_, by simp only [step, helloSeqShow, hr, if_pos hi]; rfl, ?_⟩
    have h := sum_update (Reader.left s.count) s.reader t
      (.showing (i + 1) (m ++ [.hello (i + 1) s.name]))
    rw [hr] at h
    simp only [State.left, Reader.left] at h ⊢
    omega
  · refine ⟨_, by simp only [step, helloSeqShow, hr, if_neg hi]; rfl, ?_⟩
    have h := sum_update (Reader.left s.count) s.reader t .outside
    rw [hr] at h
    simp only [State.left, Reader.left] at h ⊢
    omega

theorem unload_step (s : State R) (hm : s.module.unloading) (hfinal : s.module ≠ .unloaded) :
    ∃ o s', step (unloadAct o) s = some s' ∧ s'.left < s.left := by
  by_cases hquiet : ∀ t, s.reader t = .outside
  · have hq : s.quiet = true := decide_eq_true hquiet
    rcases hm with hm | hm | hm | hm
    · refine ⟨none, _, by simp only [unloadAct, step, cleanUp, hm, hq, if_true]; rfl, ?_⟩
      simp only [State.left, hm, Module.left]
      omega
    · refine ⟨none, _, by simp only [unloadAct, step, cleanUp, hm, hq, if_true]; rfl, ?_⟩
      simp only [State.left, hm, Module.left]
      omega
    · refine ⟨none, _, by simp only [unloadAct, step, cleanUp, hm]; rfl, ?_⟩
      simp only [State.left, hm, Module.left]
      omega
    · exact absurd hm hfinal
  · obtain ⟨t, ht⟩ := not_forall.mp hquiet
    cases hr : s.reader t with
    | outside => exact absurd hr ht
    | showing i m =>
      obtain ⟨s', hs', hlt⟩ := test_left hr
      exact ⟨some t, s', hs', hlt⟩

theorem unload_closer (s : State R) (hm : s.module.unloading) (hfinal : s.module ≠ .unloaded) :
    ∃ os s', runList (fun o => step (unloadAct o)) os s = some s' ∧ s'.left < s.left := by
  obtain ⟨o, s', hs', hlt⟩ := unload_step s hm hfinal
  exact ⟨[o], s', by simp only [runList, hs', Option.bind_some], hlt⟩

theorem unloading_kept {o : Option (Fin R)} (hm : s.module.unloading)
    (hs : step (unloadAct o) s = some s') : s'.module.unloading := by
  cases o with
  | none =>
    simp only [unloadAct, step, cleanUp] at hs
    rcases hm with hm | hm | hm | hm
    · simp only [hm] at hs
      obtain ⟨-, hs⟩ := Option.ite_none_right_eq_some.mp hs
      obtain rfl := Option.some.inj hs
      exact .inr (.inr (.inr rfl))
    · simp only [hm] at hs
      obtain ⟨-, hs⟩ := Option.ite_none_right_eq_some.mp hs
      obtain rfl := Option.some.inj hs
      exact .inr (.inr (.inl rfl))
    · simp only [hm] at hs
      obtain rfl := Option.some.inj hs
      exact .inr (.inr (.inr rfl))
    · simp only [hm] at hs
      cases hs
  | some t =>
    simp only [unloadAct, step, helloSeqShow] at hs
    split at hs
    next => cases hs
    next => split at hs <;> obtain rfl := Option.some.inj hs <;> exact hm

end Unload

/-- **The module leaves nothing behind and its text is consistent**, in every run of loads, failed
loads, unloads, readers and writes to `count`. While it is not loaded there is no entry, no block
and nobody in `hello_seq_show`. Every text is the header and greetings numbered from 1, all with
one name; when `count` is between `a` and `b` throughout, so are the value shown and, from 0 on,
the number of greetings, which for `a = b` is the value shown. A `proc_remove` that has begun, of
`hello_exit` or of a load that fails, can be brought to its end by the readers. -/
theorem hello_module_runs {R : Nat} (acts : List (Act R)) (s : State R)
    (hr : runList step acts (State.initial R) = some s) :
    s.live ≤ 1 ∧
    (s.module = .unloaded →
      s.procEntry = false ∧ s.live = 0 ∧ ∀ t, s.reader t = .outside) ∧
    (∀ a b, (∀ act ∈ acts, act.Gives a b) → ∀ m ∈ s.texts, ∃ name c n,
      m = shown name c n ∧ a ≤ c ∧ c ≤ b ∧ max a 0 ≤ (n : Int) ∧ (n : Int) ≤ max b 0) ∧
    (s.module = .undo ∨ s.module = .procRemove → ∃ os s',
      runList (fun o => step (unloadAct o)) os s = some s' ∧ s'.module = .unloaded) := by
  have hkept := runList_invariant (fun _ _ _ => step_kept) acts (initial_kept R) hr
  have hholds := hkept.holds
  refine ⟨?_, fun hm => ?_, fun a b hgives => ?_, fun hm => ?_⟩
  · cases hm : s.module with
    | unloaded | procCreate | kmalloc | undo =>
      rw [hm] at hholds
      exact Nat.le_trans (Nat.le_of_eq hholds.2) (Nat.zero_le 1)
    | loaded | procRemove | kfree =>
      rw [hm] at hholds
      exact Nat.le_of_eq hholds.2
  · rw [hm] at hholds
    refine ⟨hholds.1, hholds.2, fun t => ?_⟩
    by_contra ht
    exact hkept.loaded ht hm
  · obtain ⟨-, hshows⟩ := runList_invariant_of_mem acts (P := fun s => s.Kept ∧ s.Shows a b)
      (fun act hact _ _ h hs =>
        ⟨step_kept h.1 hs, step_shows (hgives act hact) h.1 h.2 hs⟩)
      ⟨initial_kept R, initial_shows R a b⟩ hr
    exact hshows.texts
  · exact exists_run_of_rank (P := fun s => s.module.unloading) (fun _ _ _ => unloading_kept)
      unload_closer (hm.imp_right .inl)

/-- A reader is in the loop when the module is removed and `count` grows from 1 to 2 under it: its
text says 1 and greets twice. -/
theorem hello_module_runs_torn :
    ∃ s, runList step [.insmod [72] 1, .init true, .init true, .enter 0, .test 0, .rmmod,
        .setCount 2, .test 0, .test 0, .cleanUp, .cleanUp] (State.initial 1) = some s ∧
      s.texts = [shown [72] 1 2] ∧ s.live = 0 := by
  refine ⟨_, rfl, by decide, ?_⟩
  exact ((hello_module_runs [.insmod [72] 1, .init true, .init true, .enter 0, .test 0, .rmmod,
    .setCount 2, .test 0, .test 0, .cleanUp, .cleanUp] _ rfl).2.1 rfl).2.1

end LearnLinux.HelloModule
