import LearnLinux.Lib.Tagged
import LearnLinux.Threads.CondQueue

/-!
# Reasoning about one thread at a time

What a thread has pushed, popped and printed depends on its own program and on the
values it popped. `reachable_local` is the rule for that: an assertion about one
thread that its own operations keep, whatever a pop returns, holds for every thread
in every reachable state. `run_enabled` says when a thread can move.
-/

namespace LearnLinux.CondQueue

open Tagged Transition

variable {ι α β σ : Type*} [DecidableEq ι] {op : σ → Op α β σ}

/-- The program location of a thread, wherever it waits. -/
def Phase.loc : Phase σ → σ
  | .ready l => l
  | .parked l => l
  | .woken l => l

theorem wakeAll_loc (W : Finset ι) (thread : ι → Phase σ) (u : ι) :
    (wakeAll W thread u).loc = (thread u).loc := by
  unfold wakeAll
  split
  · cases thread u <;> rfl
  · rfl

omit [DecidableEq ι] in
theorem State.Enters.loc {s : State ι α β σ} {t : ι} {l : σ} (h : s.Enters t l) :
    (s.thread t).loc = l := by
  rcases h with h | h <;> rw [h] <;> rfl

/-- The thread stays at its location and the logs stay as they are. -/
structure Stays (s s' : State ι α β σ) : Prop where
  loc : ∀ u, (s'.thread u).loc = (s.thread u).loc
  pushed : s'.pushed = s.pushed
  popped : s'.popped = s.popped
  out : s'.out = s.out

/-- The thread `t` runs the operation at its location, and nobody else moves. -/
inductive Runs (op : σ → Op α β σ) (t : ι) (s s' : State ι α β σ) : Prop
  | push (val : α) (next : σ) : op (s.thread t).loc = .push val next →
      (s'.thread t).loc = next → s'.pushed = s.pushed ++ [(t, val)] → s'.popped = s.popped →
      s'.out = s.out → Runs op t s s'
  | pop (val : α) (next : α → σ) : op (s.thread t).loc = .pop next →
      (s'.thread t).loc = next val → s'.pushed = s.pushed →
      s'.popped = s.popped ++ [(t, val)] → s'.out = s.out → Runs op t s s'
  | print (line : β) (next : σ) : op (s.thread t).loc = .print line next →
      (s'.thread t).loc = next → s'.pushed = s.pushed → s'.popped = s.popped →
      s'.out = s.out ++ [(t, line)] → Runs op t s s'

theorem update_loc_of_ne {thread : ι → Phase σ} {t u : ι} {ph : Phase σ} (h : u ≠ t) :
    (Function.update thread t ph u).loc = (thread u).loc := by
  rw [Function.update_of_ne h]

theorem update_loc_same {thread : ι → Phase σ} {t : ι} {ph : Phase σ}
    (h : ph.loc = (thread t).loc) (u : ι) :
    (Function.update thread t ph u).loc = (thread u).loc := by
  by_cases hu : u = t
  · subst hu
    rw [Function.update_self, h]
  · exact update_loc_of_ne hu

/-- Every step leaves all locations and logs alone, or runs one operation of one
thread. -/
theorem step_effect {a : Act ι} {s s' : State ι α β σ} (hs : Step op a s s') :
    Stays s s' ∨ ∃ t, Runs op t s s' ∧ ∀ u, u ≠ t → (s'.thread u).loc = (s.thread u).loc := by
  cases hs with
  | pushWait he => exact Or.inl ⟨update_loc_same he.loc.symm, rfl, rfl, rfl⟩
  | @push _ t l next val q W he hop =>
    refine Or.inr ⟨t, ?_, fun u hu => (update_loc_of_ne hu).trans (wakeAll_loc W _ u)⟩
    exact Runs.push val next (by rw [he.loc, hop]) (by simp only [Function.update_self, Phase.loc])
      rfl rfl rfl
  | popWait he => exact Or.inl ⟨update_loc_same he.loc.symm, rfl, rfl, rfl⟩
  | @pop _ t l next val q W he hop =>
    refine Or.inr ⟨t, ?_, fun u hu => (update_loc_of_ne hu).trans (wakeAll_loc W _ u)⟩
    exact Runs.pop val next (by rw [he.loc, hop]) (by simp only [Function.update_self, Phase.loc])
      rfl rfl rfl
  | @print _ t l next line ht hop =>
    refine Or.inr ⟨t, ?_, fun u hu => update_loc_of_ne hu⟩
    exact Runs.print line next (by rw [ht]; exact hop)
      (by simp only [Function.update_self, Phase.loc]) rfl rfl rfl
  | spurious ht => exact Or.inl ⟨update_loc_same (by rw [ht]; rfl), rfl, rfl, rfl⟩

/-- An assertion about one thread: its location and what it pushed, popped and
printed so far. -/
abbrev Assertion (ι α β σ : Type*) := ι → σ → List α → List α → List β → Prop

def State.Asserts (s : State ι α β σ) (I : Assertion ι α β σ) (t : ι) : Prop :=
  I t (s.thread t).loc (entriesOf t s.pushed) (entriesOf t s.popped) (entriesOf t s.out)

/-- The operations of every thread keep the assertion, whatever a pop returns. -/
structure Keeps (op : σ → Op α β σ) (I : Assertion ι α β σ) : Prop where
  push : ∀ {t l val next pu po pr}, op l = .push val next → I t l pu po pr →
    I t next (pu ++ [val]) po pr
  pop : ∀ {t l val next pu po pr}, op l = .pop next → I t l pu po pr →
    I t (next val) pu (po ++ [val]) pr
  print : ∀ {t l line next pu po pr}, op l = .print line next → I t l pu po pr →
    I t next pu po (pr ++ [line])

theorem step_asserts {I : Assertion ι α β σ} (hk : Keeps op I) {a : Act ι}
    {s s' : State ι α β σ} (hs : Step op a s s') (h : ∀ t, s.Asserts I t) (u : ι) :
    s'.Asserts I u := by
  have hu := h u
  unfold State.Asserts at hu ⊢
  rcases step_effect hs with hst | ⟨t, hrun, hother⟩
  · rw [hst.loc, hst.pushed, hst.popped, hst.out]
    exact hu
  by_cases hut : u = t
  · subst hut
    cases hrun with
    | push val next hop hl hpu hpo hpr =>
      rw [hl, hpu, hpo, hpr, entriesOf_snoc_self]
      exact hk.push hop hu
    | pop val next hop hl hpu hpo hpr =>
      rw [hl, hpu, hpo, hpr, entriesOf_snoc_self]
      exact hk.pop hop hu
    | print line next hop hl hpu hpo hpr =>
      rw [hl, hpu, hpo, hpr, entriesOf_snoc_self]
      exact hk.print hop hu
  · rw [hother u hut]
    cases hrun with
    | push val next hop hl hpu hpo hpr =>
      rw [hpu, hpo, hpr, entriesOf_snoc_of_ne hut]
      exact hu
    | pop val next hop hl hpu hpo hpr =>
      rw [hpu, hpo, hpr, entriesOf_snoc_of_ne hut]
      exact hu
    | print line next hop hl hpu hpo hpr =>
      rw [hpu, hpo, hpr, entriesOf_snoc_of_ne hut]
      exact hu

/-- **Rule for one thread.** -/
theorem reachable_local {I : Assertion ι α β σ} (hk : Keeps op I) {data : Nat → α}
    {entry : ι → σ} (h0 : ∀ t, I t (entry t) [] [] []) {s : State ι α β σ}
    (hr : (system op data entry).Reachable s) (t : ι) : s.Asserts I t := by
  have hall : ∀ u, s.Asserts I u := by
    refine hr.invariant (P := fun s => ∀ u, s.Asserts I u) ?_ ?_
    · rintro s rfl u
      exact h0 u
    · intro a s s' h hs
      exact step_asserts hk hs h
  exact hall t

/-! ## Threads that can move -/

/-- Only a thread inside an operation waits or comes back from waiting. -/
def Phase.Sound (op : σ → Op α β σ) : Phase σ → Prop
  | .ready _ => True
  | .parked l => (op l).cond ≠ none
  | .woken l => (op l).cond ≠ none

theorem step_sound {a : Act ι} {s s' : State ι α β σ} (hs : Step op a s s')
    (h : ∀ t, (s.thread t).Sound op) (u : ι) : (s'.thread u).Sound op := by
  have hupdate : ∀ (thread : ι → Phase σ) (t : ι) (ph : Phase σ), (∀ v, (thread v).Sound op) →
      ph.Sound op → (Function.update thread t ph u).Sound op := by
    intro thread t ph hth hph
    by_cases hut : u = t
    · subst hut
      rwa [Function.update_self]
    · rw [Function.update_of_ne hut]
      exact hth u
  have hwake : ∀ (W : Finset ι) (v : ι), (wakeAll W s.thread v).Sound op := by
    intro W v
    have hv := h v
    unfold wakeAll
    split
    · cases hph : s.thread v with
      | ready l => trivial
      | parked l => rw [hph] at hv; exact hv
      | woken l => rw [hph] at hv; exact hv
    · exact hv
  cases hs with
  | pushWait he hop hq => exact hupdate _ _ _ h (by simp [Phase.Sound, hop, Op.cond])
  | push W he hop hq hW => exact hupdate _ _ _ (hwake W) trivial
  | popWait he hop hq => exact hupdate _ _ _ h (by simp [Phase.Sound, hop, Op.cond])
  | pop W he hop hq hW => exact hupdate _ _ _ (hwake W) trivial
  | print ht hop => exact hupdate _ _ _ h trivial
  | @spurious _ t l ht =>
    have hl := h t
    rw [ht] at hl
    exact hupdate _ _ _ h hl

theorem reachable_sound {data : Nat → α} {entry : ι → σ} {s : State ι α β σ}
    (hr : (system op data entry).Reachable s) (t : ι) : (s.thread t).Sound op := by
  have hall : ∀ u, (s.thread u).Sound op := by
    refine hr.invariant (P := fun s => ∀ u, (s.thread u).Sound op) ?_ ?_
    · rintro s rfl u
      trivial
    · intro a s s' h hs
      exact step_sound hs h
  exact hall t

omit [DecidableEq ι] in
/-- A signal always has an answer. -/
theorem exists_signals (op : σ → Op α β σ) (c : Cond) (thread : ι → Phase σ) : ∃ W, Signals op c thread W := by
  by_cases h : ∃ t, (thread t).isParked op c = true
  · obtain ⟨t, ht⟩ := h
    exact ⟨{t}, by simpa using ht, fun _ => ⟨t, by simp⟩⟩
  · exact ⟨∅, by simp, fun h' => absurd h' h⟩

/-- A thread that is neither parked nor finished can move. -/
theorem run_enabled {s : State ι α β σ} {t : ι} (hsound : (s.thread t).Sound op)
    (hpark : ∀ c, (s.thread t).isParked op c = false) (hfin : ¬ (s.thread t).Finished op) :
    ∃ s', Step op (.run t) s s' := by
  have hop : ∀ l, s.Enters t l → (s.thread t = .woken l → (op l).cond ≠ none) → op l ≠ .ret →
      ∃ s', Step op (.run t) s s' := by
    intro l he hw hret
    cases hl : op l with
    | push val next =>
      cases hq : queuePush s.q val with
      | none => exact ⟨_, Step.pushWait he hl hq⟩
      | some q =>
        obtain ⟨W, hW⟩ := exists_signals op .notEmpty s.thread
        exact ⟨_, Step.push W he hl hq hW⟩
    | pop next =>
      cases hq : queuePop s.q with
      | none => exact ⟨_, Step.popWait he hl hq⟩
      | some r =>
        obtain ⟨W, hW⟩ := exists_signals op .notFull s.thread
        exact ⟨_, Step.pop W he hl hq hW⟩
    | print line next =>
      rcases he with he | he
      · exact ⟨_, Step.print he hl⟩
      · exact absurd (by rw [hl]; rfl) (hw he)
    | ret => exact absurd hl hret
  cases hph : s.thread t with
  | ready l =>
    rw [hph] at hfin
    exact hop l (Or.inl hph) (fun h => by rw [hph] at h; cases h) hfin
  | woken l =>
    rw [hph] at hsound
    exact hop l (Or.inr hph) (fun _ => hsound) fun hret => hsound (by rw [hret]; rfl)
  | parked l =>
    rw [hph] at hsound hpark
    cases hc : (op l).cond with
    | none => exact absurd hc hsound
    | some c => exact absurd (hpark c) (by simp [Phase.isParked, hc])

end LearnLinux.CondQueue
