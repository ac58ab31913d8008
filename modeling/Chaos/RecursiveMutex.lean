import Mathlib.Logic.Basic
import Mathlib.Data.Nat.Notation
import Mathlib.Tactic.ByContra

/-!
# A recursive mutex

The owner of a recursive mutex can lock it again, and it is free when it was unlocked as often as it was locked. A
mutex that is held is held at least once, so the owner and the count cannot disagree.
-/
namespace Chaos

/-- `held o more`: `o` has locked it `more` times after the first. -/
inductive RecursiveMutex (τ : Type*) where
  | free
  | held (owner : τ) (more : ℕ)
  deriving DecidableEq, Repr

namespace RecursiveMutex

variable {τ : Type*} [DecidableEq τ]

/-- `none` while another thread has it. -/
def lock : RecursiveMutex τ → τ → Option (RecursiveMutex τ)
  | free, o => some (held o 0)
  | held p more, o => if p = o then some (held p (more + 1)) else none

def unlock : RecursiveMutex τ → RecursiveMutex τ
  | held p (more + 1) => held p more
  | held _ 0 | free => free

/-- How often the thread has it. -/
def depth : RecursiveMutex τ → τ → ℕ
  | free, _ => 0
  | held p more, o => if p = o then more + 1 else 0

variable {m n : RecursiveMutex τ} {o p : τ}

theorem depth_of_lock (h : m.lock o = some n) : n.depth p = m.depth p + if p = o then 1 else 0 := by
  cases m with
  | free =>
    cases h
    simp only [depth, Nat.zero_add, eq_comm]
  | held q more =>
    obtain ⟨rfl, hn⟩ := Option.ite_none_right_eq_some.mp h
    cases hn
    by_cases hp : q = p
    · subst hp
      simp [depth]
    · simp [depth, hp, Ne.symm hp]

theorem owner_of_depth {q : τ} {more : ℕ} (h : 0 < (held q more).depth o) : q = o := by
  by_contra hne
  rw [depth, if_neg hne] at h
  cases h

theorem depth_of_unlock (h : 0 < m.depth o) : m.depth p = m.unlock.depth p + if p = o then 1 else 0 := by
  cases m with
  | free => cases h
  | held q more =>
    obtain rfl := owner_of_depth h
    cases more with
    | zero => simp only [depth, unlock, Nat.zero_add, eq_comm]
    | succ more =>
      by_cases hp : q = p
      · subst hp
        simp [depth, unlock]
      · simp [depth, unlock, hp, Ne.symm hp]

/-- One thread has it. -/
theorem eq_of_depth (ho : 0 < m.depth o) (hp : 0 < m.depth p) : o = p := by
  cases m with
  | free => cases ho
  | held q more => exact (owner_of_depth ho).symm.trans (owner_of_depth hp)

/-- Who has it keeps the others out. -/
theorem lock_eq_none (ho : 0 < m.depth o) (hne : p ≠ o) : m.lock p = none := by
  cases m with
  | free => cases ho
  | held q more =>
    obtain rfl := owner_of_depth ho
    exact if_neg hne.symm

end RecursiveMutex

end Chaos
