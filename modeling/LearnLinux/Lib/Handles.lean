import Mathlib.Data.List.Nodup

/-!
Tables of objects that are named by small numbers which are used again once an object
is released. Tokens name an object by its handle; they stay valid as long as
each is worked on once and nothing else touches the handles of the others.
-/

namespace LearnLinux.Handles

variable {α β : Type*} {handle : β → Nat} {object : β → α} {table table' : Nat → Option α}

/-- The tokens have handles of their own, and each still denotes its object. -/
def Valid (handle : β → Nat) (object : β → α) (table : Nat → Option α) (tokens : List β) : Prop :=
  (tokens.map handle).Nodup ∧ ∀ t ∈ tokens, table (handle t) = some (object t)

theorem Valid.head {t : β} {tokens : List β} (h : Valid handle object table (t :: tokens)) :
    table (handle t) = some (object t) :=
  h.2 t List.mem_cons_self

/-- **No token goes stale.** Working on the first token may release its handle and
take handles that are free, also one released before; the others stay valid. -/
theorem Valid.tail {t : β} {tokens : List β} (h : Valid handle object table (t :: tokens))
    (hkeep : ∀ k, k ≠ handle t → table k ≠ none → table' k = table k) :
    Valid handle object table' tokens := by
  obtain ⟨hnodup, hdenotes⟩ := h
  rw [List.map_cons, List.nodup_cons] at hnodup
  refine ⟨hnodup.2, ?_⟩
  intro u hu
  have hold := hdenotes u (List.mem_cons_of_mem _ hu)
  have hne : handle u ≠ handle t := by
    intro he
    exact hnodup.1 (he ▸ List.mem_map_of_mem hu)
  rw [hkeep _ hne (by rw [hold]; simp), hold]

end LearnLinux.Handles
