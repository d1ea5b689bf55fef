import Mathlib.Data.List.Basic

/-!
Bounded first-in first-out buffers and their histories, for any element type.
A `Bounded` buffer is a list that fits its capacity. One event takes elements from the
front, adds elements at the back, empties the buffer or leaves it alone, and a
`History` collects what was taken and added since the buffer was last emptied.
`run_explains` is the law every implementation inherits: what came out, followed
by what is inside, is what went in.
-/

namespace LearnLinux.Fifo

variable {α : Type*} {cap : Nat}

/-- A buffer of at most `cap` elements, oldest first. -/
structure Bounded (α : Type*) (cap : Nat) where
  items : List α
  bound : items.length ≤ cap

inductive Event (α : Type*) where
  | get (xs : List α)
  | put (xs : List α)
  | clear
  | skip

/-- What one event may do to the buffer. -/
inductive Step : Bounded α cap → Event α → Bounded α cap → Prop
  | get {q q' : Bounded α cap} (xs : List α) : q.items = xs ++ q'.items → Step q (.get xs) q'
  | put {q q' : Bounded α cap} (xs : List α) : q'.items = q.items ++ xs → Step q (.put xs) q'
  | clear {q q' : Bounded α cap} : q'.items = [] → Step q .clear q'
  | skip {q q' : Bounded α cap} : q'.items = q.items → Step q .skip q'

inductive Run : Bounded α cap → List (Event α) → Bounded α cap → Prop
  | nil (q : Bounded α cap) : Run q [] q
  | cons {q q' q'' : Bounded α cap} {e : Event α} {es : List (Event α)} :
      Step q e q' → Run q' es q'' → Run q (e :: es) q''

/-- Everything taken out and everything put in since the last `clear`. -/
structure History (α : Type*) where
  got : List α
  put : List α

def History.empty : History α := ⟨[], []⟩

def History.record (h : History α) : Event α → History α
  | .get xs => ⟨h.got ++ xs, h.put⟩
  | .put xs => ⟨h.got, h.put ++ xs⟩
  | .clear => .empty
  | .skip => h

/-- The history after a list of events, oldest first. -/
def History.replay (h : History α) (es : List (Event α)) : History α := es.foldl History.record h

/-- The contents `xs` are what the history leaves in the buffer. -/
def History.Explains (h : History α) (xs : List α) : Prop := h.got ++ xs = h.put

theorem step_explains {q q' : Bounded α cap} {e : Event α} (hs : Step q e q') (h : History α)
    (he : h.Explains q.items) : (h.record e).Explains q'.items := by
  unfold History.Explains at *
  cases hs with
  | get xs hq => rw [History.record, List.append_assoc, ← hq, he]
  | put xs hq => rw [History.record, hq, ← List.append_assoc, he]
  | clear hq => rw [History.record, hq]; rfl
  | skip hq => rw [History.record, hq, he]

/-- **FIFO law.** Along every run, what was taken followed by what is still
inside is what was put in. -/
theorem run_explains {q q' : Bounded α cap} {es : List (Event α)} (hr : Run q es q')
    (h : History α) (he : h.Explains q.items) : (h.replay es).Explains q'.items := by
  induction hr generalizing h with
  | nil q => exact he
  | cons hs _ ih => exact ih _ (step_explains hs h he)

/-- The number of elements inside is the number put in minus the number taken. -/
theorem History.Explains.length {h : History α} {xs : List α} (he : h.Explains xs) :
    h.got.length + xs.length = h.put.length := by
  rw [← he, List.length_append]

end LearnLinux.Fifo
