import Chaos.GuardedRuns
import Chaos.RecursiveMutex
import Mathlib.Logic.Function.Basic

/-!
# The mutexes of centres that call each other

`ProcessActiveEvent` of `net/Event.cpp` holds the mutex of its centre while it runs the handlers of a round, and
`RegisterEvent` and `CancelEvent` lock the mutex of the centre they are called on. What happens between the locks is
left out here: of a handler it only matters on which centres it calls one of the two, also through the callback that
`RegisterEvent` makes under its lock. The mutex is recursive, so a call on the own centre goes through.
-/
namespace Chaos

open GuardedRuns

/-- Of each loop thread the mutexes of its guards, the last one first, and the mutex it is about to lock. A centre and
the thread of its loop have one name. -/
structure CentreLocks (ι : Type*) where
  mutex : ι → RecursiveMutex ι
  guards : ι → List ι
  wants : ι → Option ι

/-- `call i j` is a call of `RegisterEvent` or `CancelEvent` of `j` from the round of `i`, `unlock` the end of the
last guard. -/
inductive CentreLocksOp (ι : Type*) where
  | processActiveEvent (i : ι)
  | call (i j : ι)
  | lock (i : ι)
  | unlock (i : ι)

namespace CentreLocks

variable {ι : Type*} [DecidableEq ι]

def start : CentreLocks ι := ⟨fun _ => .free, fun _ => [], fun _ => none⟩

variable (s : CentreLocks ι)

/-- The thread comes to a `MutexGuard`. -/
def guard (i j : ι) : CentreLocks ι := { s with wants := Function.update s.wants i (some j) }

/-- The guard is built. -/
def locked (i j : ι) (m : RecursiveMutex ι) : CentreLocks ι where
  mutex := Function.update s.mutex j m
  guards := Function.update s.guards i (j :: s.guards i)
  wants := Function.update s.wants i none

def unlocked (i j : ι) (rest : List ι) : CentreLocks ι where
  mutex := Function.update s.mutex j (s.mutex j).unlock
  guards := Function.update s.guards i rest
  wants := s.wants

/-- `calls i j` says whether the code run in a round of `i` calls one of the two on `j`. -/
def step (calls : ι → ι → Bool) : CentreLocksOp ι → Option (CentreLocks ι)
  | .processActiveEvent i => if s.guards i = [] ∧ s.wants i = none then some (s.guard i i) else none
  | .call i j => if s.guards i ≠ [] ∧ s.wants i = none ∧ calls i j then some (s.guard i j) else none
  | .lock i => (s.wants i).bind fun j => ((s.mutex j).lock i).map (s.locked i j)
  | .unlock i => if s.wants i = none then match s.guards i with
    | [] => none
    | j :: rest => some (s.unlocked i j rest)
    else none

/-- Each of the two has its own mutex and waits for that of the other. -/
structure Deadlocked (i j : ι) : Prop where
  hasLeft : 0 < (s.mutex i).depth i
  hasRight : 0 < (s.mutex j).depth j
  waitsLeft : s.wants i = some j
  waitsRight : s.wants j = some i

section Fields
variable (i j : ι) (m : RecursiveMutex ι) (rest : List ι)

@[simp] theorem guard_mutex : (s.guard i j).mutex = s.mutex := rfl
@[simp] theorem guard_guards : (s.guard i j).guards = s.guards := rfl
@[simp] theorem guard_wants : (s.guard i j).wants = Function.update s.wants i (some j) := rfl

@[simp] theorem locked_mutex : (s.locked i j m).mutex = Function.update s.mutex j m := rfl
@[simp] theorem locked_guards : (s.locked i j m).guards = Function.update s.guards i (j :: s.guards i) := rfl
@[simp] theorem locked_wants : (s.locked i j m).wants = Function.update s.wants i none := rfl

@[simp] theorem unlocked_mutex :
    (s.unlocked i j rest).mutex = Function.update s.mutex j (s.mutex j).unlock := rfl
@[simp] theorem unlocked_guards : (s.unlocked i j rest).guards = Function.update s.guards i rest := rfl

end Fields

section Steps
variable {s t : CentreLocks ι} {calls : ι → ι → Bool} {op : CentreLocksOp ι} {i j : ι}

inductive CentreLocksPass (calls : ι → ι → Bool) (s : CentreLocks ι) : CentreLocksOp ι → CentreLocks ι → Prop where
  | processActiveEvent {i : ι} (hguards : s.guards i = []) (hwants : s.wants i = none) :
      CentreLocksPass calls s (.processActiveEvent i) (s.guard i i)
  | call {i j : ι} (hguards : s.guards i ≠ []) (hwants : s.wants i = none) (hcalls : calls i j = true) :
      CentreLocksPass calls s (.call i j) (s.guard i j)
  | lock {i j : ι} {m : RecursiveMutex ι} (hwants : s.wants i = some j) (hlock : (s.mutex j).lock i = some m) :
      CentreLocksPass calls s (.lock i) (s.locked i j m)
  | unlock {i j : ι} {rest : List ι} (hwants : s.wants i = none) (hguards : s.guards i = j :: rest) :
      CentreLocksPass calls s (.unlock i) (s.unlocked i j rest)

theorem centreLocksPass_of_step (h : s.step calls op = some t) : CentreLocksPass calls s op t := by
  cases op with
  | processActiveEvent i =>
    obtain ⟨⟨hguards, hwants⟩, ht⟩ := Option.ite_none_right_eq_some.mp h
    cases ht
    exact .processActiveEvent hguards hwants
  | call i j =>
    obtain ⟨⟨hguards, hwants, hcalls⟩, ht⟩ := Option.ite_none_right_eq_some.mp h
    cases ht
    exact .call hguards hwants hcalls
  | lock i =>
    obtain ⟨j, hwants, hmap⟩ := Option.bind_eq_some_iff.mp h
    obtain ⟨m, hlock, rfl⟩ := Option.map_eq_some_iff.mp hmap
    exact .lock hwants hlock
  | unlock i =>
    obtain ⟨hwants, ht⟩ := Option.ite_none_right_eq_some.mp h
    cases hguards : s.guards i with
    | nil => simp [hguards] at ht
    | cons j rest =>
      simp only [hguards, Option.some.injEq] at ht
      exact ht ▸ .unlock hwants hguards

/-- A thread has a mutex once for each of its guards, and it waits for another centre's only in a call. -/
structure Guarding (calls : ι → ι → Bool) (s : CentreLocks ι) : Prop where
  depth : ∀ i j, (s.mutex j).depth i = (s.guards i).count j
  calls : ∀ i j, s.wants i = some j → j = i ∨ calls i j = true

theorem wants_guard {k l : ι} (h : (s.guard i j).wants k = some l) : (k = i ∧ l = j) ∨ s.wants k = some l := by
  by_cases hki : k = i
  · subst hki
    rw [guard_wants, Function.update_self] at h
    exact Or.inl ⟨rfl, (Option.some.inj h).symm⟩
  · rw [guard_wants, Function.update_of_ne hki] at h
    exact Or.inr h

theorem Guarding.locked {m : RecursiveMutex ι} (h : Guarding calls s) (hlock : (s.mutex j).lock i = some m) :
    Guarding calls (s.locked i j m) where
  depth k l := by
    have hsame := h.depth k l
    rw [locked_mutex, locked_guards]
    rcases eq_or_ne l j with rfl | hlj
    · rw [Function.update_self, RecursiveMutex.depth_of_lock hlock, hsame]
      rcases eq_or_ne k i with rfl | hki
      · rw [Function.update_self, List.count_cons_self, if_pos rfl]
      · rw [Function.update_of_ne hki, if_neg hki, Nat.add_zero]
    · rw [Function.update_of_ne hlj, hsame]
      rcases eq_or_ne k i with rfl | hki
      · rw [Function.update_self, List.count_cons_of_ne hlj.symm]
      · rw [Function.update_of_ne hki]
  calls k l hwants := by
    rw [locked_wants] at hwants
    rcases eq_or_ne k i with rfl | hki
    · rw [Function.update_self] at hwants
      cases hwants
    · rw [Function.update_of_ne hki] at hwants
      exact h.calls k l hwants

theorem Guarding.unlocked {rest : List ι} (h : Guarding calls s) (hguards : s.guards i = j :: rest) :
    Guarding calls (s.unlocked i j rest) where
  depth k l := by
    have hsame := h.depth k l
    have hheld : 0 < (s.mutex j).depth i := by
      rw [h.depth, hguards, List.count_cons_self]
      exact Nat.succ_pos _
    rw [unlocked_mutex, unlocked_guards]
    rcases eq_or_ne l j with rfl | hlj
    · rw [RecursiveMutex.depth_of_unlock hheld] at hsame
      rw [Function.update_self]
      rcases eq_or_ne k i with rfl | hki
      · rw [hguards, List.count_cons_self, if_pos rfl] at hsame
        rw [Function.update_self]
        exact Nat.succ.inj hsame
      · rw [if_neg hki] at hsame
        rw [Function.update_of_ne hki]
        exact hsame
    · rw [Function.update_of_ne hlj, hsame]
      rcases eq_or_ne k i with rfl | hki
      · rw [Function.update_self, hguards, List.count_cons_of_ne hlj.symm]
      · rw [Function.update_of_ne hki]
  calls := h.calls

/-- The step lemma. -/
theorem Guarding.step (h : Guarding calls s) (ht : CentreLocksPass calls s op t) : Guarding calls t := by
  cases ht with
  | processActiveEvent hguards hwants =>
    refine ⟨h.depth, ?_⟩
    intro k l hkl
    rcases wants_guard hkl with ⟨rfl, rfl⟩ | hkl
    · exact Or.inl rfl
    · exact h.calls k l hkl
  | call hguards hwants hcalls =>
    refine ⟨h.depth, ?_⟩
    intro k l hkl
    rcases wants_guard hkl with ⟨rfl, rfl⟩ | hkl
    · exact Or.inr hcalls
    · exact h.calls k l hkl
  | lock hwants hlock => exact h.locked hlock
  | unlock hwants hguards => exact h.unlocked hguards

theorem guarding_start : Guarding calls (start : CentreLocks ι) := by
  constructor
  · intro i j
    rfl
  · intro i j hwants
    cases hwants

theorem guarding_of_exec {ops : List (CentreLocksOp ι)} (hs : exec (step · calls) start ops = some s) :
    Guarding calls s :=
  invariant_of_exec (fun _ _ _ h ht => h.step (centreLocksPass_of_step ht)) guarding_start hs

/-- Nothing ends a deadlock. -/
theorem Deadlocked.step (hij : i ≠ j) (h : s.Deadlocked i j) (hguarding : Guarding calls s)
    (ht : CentreLocksPass calls s op t) : t.Deadlocked i j := by
  have hother {k : ι} (hk : s.wants k = none) : k ≠ i ∧ k ≠ j := by
    constructor
    · rintro rfl
      exact nomatch hk.symm.trans h.waitsLeft
    · rintro rfl
      exact nomatch hk.symm.trans h.waitsRight
  cases ht with
  | processActiveEvent hguards hwants | call hguards hwants hcalls =>
    obtain ⟨hki, hkj⟩ := hother hwants
    exact ⟨h.hasLeft, h.hasRight, (Function.update_of_ne hki.symm _ _).trans h.waitsLeft,
      (Function.update_of_ne hkj.symm _ _).trans h.waitsRight⟩
  | @lock k l m hwants hlock =>
    have hki : k ≠ i := by
      rintro rfl
      obtain rfl : l = j := Option.some.inj (hwants.symm.trans h.waitsLeft)
      exact nomatch hlock.symm.trans (RecursiveMutex.lock_eq_none h.hasRight hij)
    have hkj : k ≠ j := by
      rintro rfl
      obtain rfl : l = i := Option.some.inj (hwants.symm.trans h.waitsRight)
      exact nomatch hlock.symm.trans (RecursiveMutex.lock_eq_none h.hasLeft hij.symm)
    have hli : l ≠ i := by
      rintro rfl
      exact nomatch hlock.symm.trans (RecursiveMutex.lock_eq_none h.hasLeft hki)
    have hlj : l ≠ j := by
      rintro rfl
      exact nomatch hlock.symm.trans (RecursiveMutex.lock_eq_none h.hasRight hkj)
    constructor
    · rw [locked_mutex, Function.update_of_ne hli.symm]
      exact h.hasLeft
    · rw [locked_mutex, Function.update_of_ne hlj.symm]
      exact h.hasRight
    · exact (Function.update_of_ne hki.symm _ _).trans h.waitsLeft
    · exact (Function.update_of_ne hkj.symm _ _).trans h.waitsRight
  | @unlock k l rest hwants hguards =>
    obtain ⟨hki, hkj⟩ := hother hwants
    have hheld : 0 < (s.mutex l).depth k := by
      rw [hguarding.depth, hguards, List.count_cons_self]
      exact Nat.succ_pos _
    have hli : l ≠ i := by
      rintro rfl
      exact hki (RecursiveMutex.eq_of_depth hheld h.hasLeft)
    have hlj : l ≠ j := by
      rintro rfl
      exact hkj (RecursiveMutex.eq_of_depth hheld h.hasRight)
    constructor
    · rw [unlocked_mutex, Function.update_of_ne hli.symm]
      exact h.hasLeft
    · rw [unlocked_mutex, Function.update_of_ne hlj.symm]
      exact h.hasRight
    · exact h.waitsLeft
    · exact h.waitsRight

/-- A deadlock that a run has come to stays. -/
theorem deadlocked_forever {ops ops' : List (CentreLocksOp ι)} (hij : i ≠ j)
    (hs : exec (step · calls) start ops = some s) (hdead : s.Deadlocked i j)
    (ht : exec (step · calls) s ops' = some t) : t.Deadlocked i j := by
  have hinv := @invariant_of_exec _ _ (step · calls) (fun r => Guarding calls r ∧ r.Deadlocked i j) ?_ s t ops'
    ⟨guarding_of_exec hs, hdead⟩ ht
  · exact hinv.2
  · intro r op u hr hu
    have hpass := centreLocksPass_of_step hu
    exact ⟨hr.1.step hpass, hr.2.step hij hr.1 hpass⟩

end Steps

/-- Two rounds that call into each other. -/
def crossed (i j : ι) : List (CentreLocksOp ι) :=
  [.processActiveEvent i, .lock i, .processActiveEvent j, .lock j, .call i j, .call j i]

theorem crossed_deadlocks {calls : ι → ι → Bool} {i j : ι} (hij : i ≠ j) (hcalls : calls i j = true)
    (hback : calls j i = true) :
    ∃ s : CentreLocks ι, exec (step · calls) start (crossed i j) = some s ∧ s.Deadlocked i j := by
  have hji : j ≠ i := hij.symm
  let inRounds : CentreLocks ι :=
    (((start.guard i i).locked i i (.held i 0)).guard j j).locked j j (.held j 0)
  have hrounds : exec (step · calls) start [.processActiveEvent i, .lock i, .processActiveEvent j, .lock j] =
      some inRounds := by
    simp [exec, step, inRounds, start, RecursiveMutex.lock, hji]
  have hcross : exec (step · calls) inRounds [.call i j, .call j i] = some ((inRounds.guard i j).guard j i) := by
    simp [exec, step, inRounds, start, hij, hji, hcalls, hback]
  refine ⟨(inRounds.guard i j).guard j i, ?_, ?_⟩
  · rw [show crossed i j = [.processActiveEvent i, .lock i, .processActiveEvent j, .lock j] ++ [.call i j, .call j i]
      from rfl, exec_append, hrounds, Option.bind_some, hcross]
  · constructor <;> simp [inRounds, start, RecursiveMutex.depth, hij]

/-- The loop threads of two centres can come to wait for each other exactly when both have code in their rounds that
calls `RegisterEvent` or `CancelEvent` on the other. -/
theorem never_deadlocked_iff (calls : ι → ι → Bool) (i j : ι) (hij : i ≠ j) :
    (∀ (ops : List (CentreLocksOp ι)) (s : CentreLocks ι),
      exec (step · calls) start ops = some s → ¬ s.Deadlocked i j) ↔ ¬ (calls i j = true ∧ calls j i = true) := by
  constructor
  · rintro h ⟨hcalls, hback⟩
    obtain ⟨s, hs, hdead⟩ := crossed_deadlocks hij hcalls hback
    exact h _ s hs hdead
  · intro hnot ops s hs hdead
    have hguarding := guarding_of_exec hs
    refine hnot ⟨?_, ?_⟩
    · exact (hguarding.calls i j hdead.waitsLeft).resolve_left hij.symm
    · exact (hguarding.calls j i hdead.waitsRight).resolve_left hij

/-- The first centre cancels events of the second, which calls nobody. -/
theorem never_deadlocked_sample :
    ¬ ∃ (ops : List (CentreLocksOp (Fin 2))) (s : CentreLocks (Fin 2)),
      exec (step · fun i j => decide (i = 0 ∧ j = 1)) start ops = some s ∧ s.Deadlocked 0 1 := by
  rintro ⟨ops, s, hs, hdead⟩
  have hnever := (never_deadlocked_iff (fun i j : Fin 2 => decide (i = 0 ∧ j = 1)) 0 1 (by decide)).mpr (by decide)
  exact hnever ops s hs hdead

/-- Both centres have a handler that cancels an event of the other. -/
theorem not_never_deadlocked :
    ¬ ∀ (calls : ℕ → ℕ → Bool) (i j : ℕ) (ops : List (CentreLocksOp ℕ)) (s : CentreLocks ℕ), i ≠ j →
      exec (step · calls) start ops = some s → ¬ s.Deadlocked i j := by
  intro h
  obtain ⟨s, hs, hdead⟩ :=
    @crossed_deadlocks ℕ _ (fun _ _ => true) 0 1 Nat.zero_ne_one rfl rfl
  exact h (fun _ _ => true) 0 1 (crossed 0 1) s Nat.zero_ne_one hs hdead

end CentreLocks

end Chaos
