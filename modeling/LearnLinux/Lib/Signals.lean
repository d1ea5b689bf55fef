import Mathlib.Data.Fintype.Card
import Mathlib.Data.List.NodupEquivFin
import Mathlib.Logic.Function.Basic

/-!
Standard signals of a process with one thread, for any type of signals: dispositions, the blocked
and the pending ones, and the stack of handlers that have interrupted each other. `φ` is where a
handler is.

`Nested` says that the blocked signals are those of the main program and those held by the
handlers on the stack. It follows that no handler interrupts itself or a handler that holds its
signal, and that the stack is no deeper than there are signals.
-/

namespace LearnLinux.Signals

inductive Disposition where
  | default
  | ignore
  | handler
  deriving DecidableEq, Repr

/-- A disposition, and the signals that its handler holds besides its own. -/
structure Action (ι : Type*) where
  disposition : Disposition
  mask : ι → Bool

/-- A handler that runs: its signal, the signals it holds, what was blocked when it was called,
and where it is. -/
structure Frame (ι φ : Type*) where
  sig : ι
  held : ι → Bool
  saved : ι → Bool
  pc : φ

/-- The handler on top of the stack comes first; `killed` is the signal that has killed the
process. -/
structure Process (ι φ : Type*) where
  blocked : ι → Bool
  pending : ι → Bool
  action : ι → Action ι
  frames : List (Frame ι φ)
  killed : Option ι

variable {ι φ : Type*}

/-! ## Handlers that interrupt each other -/

/-- What the frames hold and what the main program has blocked is blocked, and nothing else. Each
handler was called when its signal was not blocked. -/
def Nested (base : ι → Bool) : (ι → Bool) → List (Frame ι φ) → Prop
  | blocked, [] => blocked = base
  | blocked, f :: frames =>
    blocked = (fun j => f.saved j || f.held j) ∧ f.held f.sig = true ∧ f.saved f.sig = false ∧
      Nested base f.saved frames

section Nested

variable {base blocked : ι → Bool} {frames : List (Frame ι φ)}

/-- What a handler on the stack holds is blocked. -/
theorem Nested.held_blocked (h : Nested base blocked frames) {f : Frame ι φ} (hf : f ∈ frames)
    {i : ι} (hi : f.held i = true) : blocked i = true := by
  induction frames generalizing blocked with
  | nil => cases hf
  | cons g frames ih =>
    obtain ⟨rfl, -, -, hrest⟩ := h
    dsimp only
    rcases List.mem_cons.mp hf with rfl | hf
    · rw [hi, Bool.or_true]
    · rw [ih hrest hf, Bool.true_or]

theorem Nested.base_blocked (h : Nested base blocked frames) {i : ι} (hi : base i = true) :
    blocked i = true := by
  induction frames generalizing blocked with
  | nil =>
    rw [show blocked = base from h]
    exact hi
  | cons f frames ih =>
    obtain ⟨rfl, -, -, hrest⟩ := h
    dsimp only
    rw [ih hrest, Bool.true_or]

/-- **Who interrupts whom**: no handler below holds the signal of one above. -/
theorem Nested.pairwise (h : Nested base blocked frames) :
    frames.Pairwise fun above below => below.held above.sig = false := by
  induction frames generalizing blocked with
  | nil => exact List.Pairwise.nil
  | cons f frames ih =>
    obtain ⟨-, -, hnew, hrest⟩ := h
    refine List.pairwise_cons.mpr ⟨fun g hg => ?_, ih hrest⟩
    cases hheld : g.held f.sig with
    | false => rfl
    | true =>
      rw [hrest.held_blocked hg hheld] at hnew
      cases hnew

theorem Nested.holds_own (h : Nested base blocked frames) : ∀ f ∈ frames, f.held f.sig = true := by
  induction frames generalizing blocked with
  | nil => exact fun f hf => by cases hf
  | cons g frames ih =>
    obtain ⟨-, hown, -, hrest⟩ := h
    intro f hf
    rcases List.mem_cons.mp hf with rfl | hf
    · exact hown
    · exact ih hrest f hf

/-- A handler never interrupts itself. -/
theorem Nested.nodup (h : Nested base blocked frames) : (frames.map Frame.sig).Nodup := by
  rw [List.Nodup, List.pairwise_map]
  refine h.pairwise.imp_of_mem fun {f g} _ hg hfg heq => ?_
  have hown := h.holds_own g hg
  rw [← heq, hfg] at hown
  cases hown

theorem Nested.length_le [Fintype ι] (h : Nested base blocked frames) :
    frames.length ≤ Fintype.card ι := by
  rw [← List.length_map Frame.sig]
  exact h.nodup.length_le_card

end Nested

/-! ## What happens to signals -/

/-- The handler on top returns. -/
def Process.sigreturn (p : Process ι φ) : Option (Process ι φ) :=
  match p.frames with
  | [] => none
  | f :: frames => some { p with blocked := f.saved, frames := frames }

theorem Process.sigreturn_cases {p p' : Process ι φ} (hr : p.sigreturn = some p') :
    ∃ f frames, p.frames = f :: frames ∧ p' = { p with blocked := f.saved, frames := frames } := by
  unfold Process.sigreturn at hr
  cases hf : p.frames with
  | nil =>
    rw [hf] at hr
    cases hr
  | cons f frames =>
    rw [hf] at hr
    exact ⟨f, frames, rfl, (Option.some.inj hr).symm⟩

theorem Nested.sigreturn {base : ι → Bool} {p p' : Process ι φ}
    (h : Nested base p.blocked p.frames) (hr : p.sigreturn = some p') :
    Nested base p'.blocked p'.frames := by
  obtain ⟨f, frames, hf, rfl⟩ := Process.sigreturn_cases hr
  rw [hf] at h
  exact h.2.2.2

/-- The handler on top moves on to `pc`. -/
def Process.goto (p : Process ι φ) (pc : φ) : Process ι φ :=
  match p.frames with
  | [] => p
  | f :: frames => { p with frames := { f with pc } :: frames }

theorem Nested.goto {base : ι → Bool} {p : Process ι φ} (h : Nested base p.blocked p.frames)
    (pc : φ) : Nested base (p.goto pc).blocked (p.goto pc).frames := by
  unfold Process.goto
  cases hf : p.frames with
  | nil => exact h
  | cons f frames =>
    rw [hf] at h
    exact h

variable [DecidableEq ι]

/-- `sigaction`: to ignore a signal discards a pending one. -/
def Process.sigaction (p : Process ι φ) (i : ι) (a : Action ι) : Process ι φ :=
  { p with
    action := Function.update p.action i a
    pending := if a.disposition = .ignore then Function.update p.pending i false else p.pending }

/-- A signal is sent: it is pending now, however often. An ignored one is dropped unless it is
blocked. -/
def Process.send (p : Process ι φ) (i : ι) : Process ι φ :=
  if (p.action i).disposition = .ignore ∧ p.blocked i = false then p
  else { p with pending := Function.update p.pending i true }

section Send

variable (p : Process ι φ) (i : ι)

@[simp] theorem Process.send_blocked : (p.send i).blocked = p.blocked := by
  unfold Process.send
  split <;> rfl

@[simp] theorem Process.send_action : (p.send i).action = p.action := by
  unfold Process.send
  split <;> rfl

@[simp] theorem Process.send_frames : (p.send i).frames = p.frames := by
  unfold Process.send
  split <;> rfl

@[simp] theorem Process.send_killed : (p.send i).killed = p.killed := by
  unfold Process.send
  split <;> rfl

/-- What is pending stays pending. -/
theorem Process.send_pending {j : ι} (h : p.pending j = true) : (p.send i).pending j = true := by
  unfold Process.send
  split
  · exact h
  · by_cases hj : j = i
    · simp [hj]
    · simp [hj, h]

theorem Process.send_pending_self (h : (p.action i).disposition ≠ .ignore ∨ p.blocked i = true) :
    (p.send i).pending i = true := by
  rw [Process.send, if_neg]
  · exact Function.update_self ..
  · rintro ⟨hi, hb⟩
    rcases h with h | h
    · exact h hi
    · rw [hb] at h
      cases h

end Send

/-- What the handler of `i` holds: its mask and its own signal. -/
def Process.holds (p : Process ι φ) (i j : ι) : Bool := (p.action i).mask j || decide (j = i)

/-- A pending signal that is not blocked is delivered; a handler starts at `entry`. -/
def Process.deliver (p : Process ι φ) (i : ι) (entry : φ) : Option (Process ι φ) :=
  if p.pending i = true ∧ p.blocked i = false ∧ p.killed = none then
    match (p.action i).disposition with
    | .default => some { p with pending := Function.update p.pending i false, killed := some i }
    | .ignore => some { p with pending := Function.update p.pending i false }
    | .handler =>
      some { p with
        pending := Function.update p.pending i false
        blocked := fun j => p.blocked j || p.holds i j
        frames := ⟨i, p.holds i, p.blocked, entry⟩ :: p.frames }
  else none

section Deliver

variable {p p' : Process ι φ} {i : ι} {entry : φ}

theorem Process.deliver_default (ha : (p.action i).disposition = .default)
    (hd : p.deliver i entry = some p') :
    p.blocked i = false ∧
      p' = { p with pending := Function.update p.pending i false, killed := some i } := by
  unfold Process.deliver at hd
  obtain ⟨⟨-, hfree, -⟩, hd⟩ := Option.ite_none_right_eq_some.mp hd
  rw [ha] at hd
  exact ⟨hfree, (Option.some.inj hd).symm⟩

theorem Process.deliver_ignore (ha : (p.action i).disposition = .ignore)
    (hd : p.deliver i entry = some p') :
    p.blocked i = false ∧ p' = { p with pending := Function.update p.pending i false } := by
  unfold Process.deliver at hd
  obtain ⟨⟨-, hfree, -⟩, hd⟩ := Option.ite_none_right_eq_some.mp hd
  rw [ha] at hd
  exact ⟨hfree, (Option.some.inj hd).symm⟩

theorem Process.deliver_handler (ha : (p.action i).disposition = .handler)
    (hd : p.deliver i entry = some p') :
    p.blocked i = false ∧
      p' = { p with
        pending := Function.update p.pending i false
        blocked := fun j => p.blocked j || p.holds i j
        frames := ⟨i, p.holds i, p.blocked, entry⟩ :: p.frames } := by
  unfold Process.deliver at hd
  obtain ⟨⟨-, hfree, -⟩, hd⟩ := Option.ite_none_right_eq_some.mp hd
  rw [ha] at hd
  exact ⟨hfree, (Option.some.inj hd).symm⟩

/-- Nothing but the mask and an earlier death keeps a pending signal away. -/
theorem Process.deliver_isSome (entry : φ) (hp : p.pending i = true) (hb : p.blocked i = false)
    (hk : p.killed = none) : (p.deliver i entry).isSome = true := by
  rw [Process.deliver, if_pos ⟨hp, hb, hk⟩]
  cases (p.action i).disposition <;> rfl

end Deliver

theorem Nested.deliver {base : ι → Bool} {p p' : Process ι φ} {i : ι} {entry : φ}
    (h : Nested base p.blocked p.frames) (hd : p.deliver i entry = some p') :
    Nested base p'.blocked p'.frames := by
  unfold Process.deliver at hd
  obtain ⟨⟨-, hfree, -⟩, hd⟩ := Option.ite_none_right_eq_some.mp hd
  split at hd
  next =>
    obtain rfl := Option.some.inj hd
    exact h
  next =>
    obtain rfl := Option.some.inj hd
    exact h
  next =>
    obtain rfl := Option.some.inj hd
    exact ⟨rfl, by simp [Process.holds], hfree, h⟩

end LearnLinux.Signals
