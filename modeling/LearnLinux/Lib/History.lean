import Mathlib.Data.List.Induction

/-!
Histories: lists that grow at the end, in which every entry has to fit what stands before it.
-/

namespace LearnLinux.History

variable {α : Type*}

/-- Every entry `x` of the history has `P before x`, where `before` are the entries in front of
it. -/
def Each (P : List α → α → Prop) (l : List α) : Prop :=
  ∀ before x after, l = before ++ x :: after → P before x

variable {P : List α → α → Prop} {l : List α}

theorem each_nil : Each P [] := by
  intro before x after h
  cases before <;> cases h

theorem Each.concat {x : α} (h : Each P l) (hx : P l x) : Each P (l ++ [x]) := by
  intro before y after heq
  cases after using List.reverseRecOn with
  | nil =>
    obtain ⟨rfl, hy⟩ := List.append_inj' heq rfl
    cases hy
    exact hx
  | append_singleton mid last =>
    rw [← List.cons_append, ← List.append_assoc] at heq
    exact h before y mid (List.append_inj' heq rfl).1

end LearnLinux.History
