import Mathlib.Logic.Basic

/-!
Labelled transition systems, for any state and label type: reachable states, the
invariant rule, systems whose steps meet a condition, and simulations that may
stutter.
-/

namespace LearnLinux.Transition

/-- Initial states and labelled steps. -/
structure System (α σ : Type*) where
  init : σ → Prop
  step : α → σ → σ → Prop

variable {α β σ τ : Type*}

inductive System.Reachable (S : System α σ) : σ → Prop
  | init {s : σ} : S.init s → S.Reachable s
  | next {a : α} {s t : σ} : S.Reachable s → S.step a s t → S.Reachable t

/-- **Invariant rule.** What holds initially and is kept by every step holds in
every reachable state. -/
theorem System.Reachable.invariant {S : System α σ} {P : σ → Prop} {s : σ} (h : S.Reachable s)
    (hi : ∀ s, S.init s → P s) (hn : ∀ a s t, P s → S.step a s t → P t) : P s := by
  induction h with
  | init h => exact hi _ h
  | next _ hs ih => exact hn _ _ _ ih hs

/-- The system of a step function; `none` means that the step cannot be taken. -/
def System.ofStep (init : σ → Prop) (step : α → σ → Option σ) : System α σ where
  init := init
  step a s t := step a s = some t

/-- The state after a list of steps. -/
def runList (step : α → σ → Option σ) : List α → σ → Option σ
  | [], s => some s
  | a :: as, s => (step a s).bind (runList step as)

theorem System.Reachable.run {init : σ → Prop} {step : α → σ → Option σ} {s t : σ} (as : List α)
    (h : (System.ofStep init step).Reachable s) (hr : runList step as s = some t) :
    (System.ofStep init step).Reachable t := by
  induction as generalizing s with
  | nil =>
    cases hr
    exact h
  | cons a as ih =>
    obtain ⟨u, hu, hr⟩ := Option.bind_eq_some_iff.mp hr
    exact ih (h.next hu) hr

/-- **Rank rule.** When every step keeps `P` and uses up some rank, so does a run, which has no
more steps than the rank it uses. -/
theorem run_rank_le {step : α → σ → Option σ} {P : σ → Prop} {rank : σ → Nat}
    (h : ∀ a s t, P s → step a s = some t → P t ∧ rank t + 1 ≤ rank s) (as : List α) {s t : σ}
    (hs : P s) (hr : runList step as s = some t) : P t ∧ as.length + rank t ≤ rank s := by
  induction as generalizing s with
  | nil =>
    cases hr
    exact ⟨hs, Nat.le_of_eq (Nat.zero_add _)⟩
  | cons a as ih =>
    obtain ⟨u, hu, hr⟩ := Option.bind_eq_some_iff.mp hr
    obtain ⟨hP, hstep⟩ := h a s u hs hu
    obtain ⟨ht, hrun⟩ := ih hP hr
    refine ⟨ht, ?_⟩
    rw [List.length_cons]
    omega

theorem runList_append {step : α → σ → Option σ} (as bs : List α) {s t u : σ}
    (hs : runList step as s = some t) (ht : runList step bs t = some u) :
    runList step (as ++ bs) s = some u := by
  induction as generalizing s with
  | nil =>
    cases hs
    exact ht
  | cons a as ih =>
    obtain ⟨v, hv, hs⟩ := Option.bind_eq_some_iff.mp hs
    exact Option.bind_eq_some_iff.mpr ⟨v, hv, ih hs⟩

theorem runList_invariant_of_mem {step : α → σ → Option σ} {P : σ → Prop} (as : List α)
    (h : ∀ a ∈ as, ∀ s t, P s → step a s = some t → P t) {s t : σ} (hs : P s)
    (hr : runList step as s = some t) : P t := by
  induction as generalizing s with
  | nil =>
    cases hr
    exact hs
  | cons a as ih =>
    obtain ⟨u, hu, hr⟩ := Option.bind_eq_some_iff.mp hr
    apply ih (fun b hb => h b (List.mem_cons_of_mem _ hb)) _ hr
    exact h a List.mem_cons_self s u hs hu

theorem runList_invariant {step : α → σ → Option σ} {P : σ → Prop}
    (h : ∀ a s t, P s → step a s = some t → P t) (as : List α) {s t : σ} (hs : P s)
    (hr : runList step as s = some t) : P t :=
  runList_invariant_of_mem as (fun a _ => h a) hs hr

/-- **A run can always be completed** when some steps lead from every state that is not final to
one of smaller rank. -/
theorem exists_run_of_rank {step : α → σ → Option σ} {P final : σ → Prop} {rank : σ → Nat}
    (hP : ∀ a s t, P s → step a s = some t → P t)
    (h : ∀ s, P s → ¬ final s → ∃ as t, runList step as s = some t ∧ rank t < rank s)
    {s : σ} (hs : P s) : ∃ as t, runList step as s = some t ∧ final t := by
  induction hn : rank s using Nat.strongRecOn generalizing s with
  | ind n ih =>
    by_cases hf : final s
    · exact ⟨[], s, rfl, hf⟩
    · obtain ⟨as, t, hrun, hlt⟩ := h s hs hf
      obtain ⟨bs, u, hrun', hu⟩ := ih (rank t) (hn ▸ hlt) (runList_invariant hP as hs hrun) rfl
      exact ⟨as ++ bs, u, runList_append as bs hrun hrun', hu⟩

/-- The runs from one state to another, with the labels of their steps. -/
inductive System.Run (S : System α σ) : List α → σ → σ → Prop
  | nil {s : σ} : S.Run [] s s
  | cons {a : α} {as : List α} {s t u : σ} : S.step a s t → S.Run as t u → S.Run (a :: as) s u

theorem System.Run.append {S : System α σ} {as bs : List α} {s t u : σ} (hs : S.Run as s t)
    (ht : S.Run bs t u) : S.Run (as ++ bs) s u := by
  induction hs with
  | nil => exact ht
  | cons hstep _ ih => exact .cons hstep (ih ht)

/-- **Budget rule.** When every step keeps `P` and a step with a label in `p` uses up some of the
budget, a run has no more such steps than the budget it uses. -/
theorem System.Run.countP_le {S : System α σ} {P : σ → Prop} (p : α → Bool) (budget : σ → Nat)
    {as : List α} {s t : σ} (hr : S.Run as s t) (hs : P s)
    (h : ∀ a s t, P s → S.step a s t → P t ∧ (p a).toNat + budget t ≤ budget s) :
    as.countP p + budget t ≤ budget s := by
  induction hr with
  | nil => exact Nat.le_of_eq (Nat.zero_add _)
  | @cons a as s t u hstep _ ih =>
    obtain ⟨hP, hcost⟩ := h a s t hs hstep
    have hrest := ih hP
    rw [List.countP_cons]
    cases hp : p a with
    | true =>
      rw [hp, Bool.toNat_true] at hcost
      rw [if_pos rfl]
      omega
    | false =>
      rw [hp, Bool.toNat_false] at hcost
      rw [if_neg (by decide)]
      omega

/-- A state in which no step can be taken. -/
theorem step_eq_none {step : α → σ → Option σ} {s : σ} (h : ¬ ∃ a t, step a s = some t) (a : α) :
    step a s = none := by
  cases ha : step a s with
  | none => rfl
  | some t => exact absurd ⟨a, t, ha⟩ h

/-- The system that takes a step `a` only in states where `guard a` holds. -/
def System.guarded (S : System α σ) (guard : α → σ → Prop) : System α σ where
  init := S.init
  step a s t := guard a s ∧ S.step a s t

theorem System.Reachable.nextGuarded {S : System α σ} {guard : α → σ → Prop} {a : α} {s t : σ}
    (h : (S.guarded guard).Reachable s) (hs : S.step a s t) (hg : guard a s) :
    (S.guarded guard).Reachable t :=
  .next h ⟨hg, hs⟩

theorem System.reachable_of_guarded {S : System α σ} {guard : α → σ → Prop} {s : σ}
    (h : (S.guarded guard).Reachable s) : S.Reachable s := by
  induction h with
  | init h => exact .init h
  | next _ hs ih => exact .next ih hs.2

/-- A step function that takes the steps of `step` where `guard` holds. -/
def guardedStep (step : α → σ → Option σ) (guard : α → σ → Prop) [∀ a s, Decidable (guard a s)]
    (a : α) (s : σ) : Option σ :=
  if guard a s then step a s else none

theorem System.Reachable.runGuarded {init : σ → Prop} {step : α → σ → Option σ}
    {guard : α → σ → Prop} [∀ a s, Decidable (guard a s)] {s t : σ} (as : List α)
    (h : ((System.ofStep init step).guarded guard).Reachable s)
    (hr : runList (guardedStep step guard) as s = some t) :
    ((System.ofStep init step).guarded guard).Reachable t := by
  induction as generalizing s with
  | nil =>
    cases hr
    exact h
  | cons a as ih =>
    obtain ⟨u, hu, hr⟩ := Option.bind_eq_some_iff.mp hr
    unfold guardedStep at hu
    split at hu
    · next hg => exact ih (h.nextGuarded hu hg) hr
    · cases hu

/-- Every step of `I` is a step of `A` under the abstraction `f`, or leaves the
abstract state alone. -/
structure Simulation (I : System α σ) (A : System β τ) (f : σ → τ) : Prop where
  init : ∀ s, I.init s → A.init (f s)
  step : ∀ a s t, I.Reachable s → I.step a s t → (∃ b, A.step b (f s) (f t)) ∨ f t = f s

theorem Simulation.reachable {I : System α σ} {A : System β τ} {f : σ → τ}
    (h : Simulation I A f) {s : σ} (hs : I.Reachable s) : A.Reachable (f s) := by
  induction hs with
  | init hi => exact .init (h.init _ hi)
  | next hr hn ih =>
    rcases h.step _ _ _ hr hn with ⟨b, hb⟩ | he
    · exact .next ih hb
    · rwa [he]

end LearnLinux.Transition
