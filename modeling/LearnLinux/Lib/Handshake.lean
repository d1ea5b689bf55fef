import LearnLinux.Lib.Transition

/-!
Two counting semaphores between one producer and one consumer. A put takes a token
from `free` and gives one to `full`, a get the other way round; `puts` and `gets`
count the completed ones. `reachable_balanced` is the token account, from which the
number of items in transit, mutual exclusion and progress are read off.
-/

namespace LearnLinux.Handshake

open Transition

/-- `sem_wait`: the value left, or `none` while the caller blocks. -/
def semWait : Nat → Option Nat
  | 0 => none
  | k + 1 => some k

theorem semWait_eq_some {v k : Nat} (h : semWait v = some k) : v = k + 1 := by
  cases v with
  | zero => cases h
  | succ v => rw [Option.some.inj h]

theorem semWait_map_eq_none {α : Type*} {v : Nat} {f : Nat → α}
    (h : (semWait v).map f = none) : v = 0 := by
  cases v with
  | zero => rfl
  | succ v => cases h

/-- The two semaphores and how far each side is. -/
structure Tokens where
  free : Nat
  full : Nat
  puts : Nat
  gets : Nat
  putting : Bool
  getting : Bool

inductive Act where
  | beginPut
  | endPut
  | beginGet
  | endGet

inductive Step : Act → Tokens → Tokens → Prop
  | beginPut {t : Tokens} {k : Nat} : t.free = k + 1 → t.putting = false →
      Step .beginPut t { t with free := k, putting := true }
  | endPut {t : Tokens} : t.putting = true →
      Step .endPut t { t with full := t.full + 1, puts := t.puts + 1, putting := false }
  | beginGet {t : Tokens} {k : Nat} : t.full = k + 1 → t.getting = false →
      Step .beginGet t { t with full := k, getting := true }
  | endGet {t : Tokens} : t.getting = true →
      Step .endGet t { t with free := t.free + 1, gets := t.gets + 1, getting := false }

/-- `K` tokens are free at the start. -/
def system (K : Nat) : System Act Tokens where
  init t := t = ⟨K, 0, 0, 0, false, false⟩
  step := Step

/-- The token account. -/
structure Balanced (K : Nat) (t : Tokens) : Prop where
  free : t.free + t.puts + t.putting.toNat = K + t.gets
  full : t.full + t.gets + t.getting.toNat = t.puts

theorem step_balanced {K : Nat} {a : Act} {t t' : Tokens} (hs : Step a t t') (h : Balanced K t) :
    Balanced K t' := by
  obtain ⟨hfree, hfull⟩ := h
  cases hs with
  | beginPut hk hp =>
    rw [hp, Bool.toNat_false] at hfree
    exact ⟨by simp only [Bool.toNat_true]; omega, hfull⟩
  | endPut hp =>
    rw [hp, Bool.toNat_true] at hfree
    exact ⟨by simp only [Bool.toNat_false]; omega, by simp only; omega⟩
  | beginGet hk hg =>
    rw [hg, Bool.toNat_false] at hfull
    exact ⟨hfree, by simp only [Bool.toNat_true]; omega⟩
  | endGet hg =>
    rw [hg, Bool.toNat_true] at hfull
    exact ⟨by simp only; omega, by simp only [Bool.toNat_false]; omega⟩

/-- A step of a program that is a step of the handshake, or none at all. -/
theorem Balanced.stutter {K : Nat} {t t' : Tokens} (h : Balanced K t)
    (hs : (∃ a, Step a t t') ∨ t' = t) : Balanced K t' := by
  rcases hs with ⟨a, hs⟩ | rfl
  · exact step_balanced hs h
  · exact h

/-- **Token account.** -/
theorem reachable_balanced {K : Nat} {t : Tokens} (h : (system K).Reachable t) : Balanced K t := by
  induction h with
  | init hi =>
    cases hi
    exact ⟨rfl, rfl⟩
  | next _ hs ih => exact step_balanced hs ih

/-- With one token, a put and a get never overlap. -/
theorem Balanced.exclusive {t : Tokens} (h : Balanced 1 t) :
    ¬ (t.putting = true ∧ t.getting = true) := by
  rintro ⟨hp, hg⟩
  obtain ⟨hfree, hfull⟩ := h
  rw [hp, Bool.toNat_true] at hfree
  rw [hg, Bool.toNat_true] at hfull
  omega

/-- Idle with both semaphores at zero cannot happen. -/
theorem Balanced.live {K : Nat} {t : Tokens} (h : Balanced K t) (hK : 0 < K)
    (hp : t.putting = false) (hg : t.getting = false) : 0 < t.free ∨ 0 < t.full := by
  obtain ⟨hfree, hfull⟩ := h
  rw [hp, Bool.toNat_false] at hfree
  rw [hg, Bool.toNat_false] at hfull
  omega

end LearnLinux.Handshake
