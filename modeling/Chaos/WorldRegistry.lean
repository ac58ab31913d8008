import Chaos.EventCounters

/-!
# The registries of all centres

A step of one centre changes the objects of all of them. The registries of the others still say what they
said: an object that is in use keeps its key and the kind of its mask, and a new one has a new address.
-/
namespace Chaos.EventCounters

open Timer

/-- Only timers are in the heap. -/
def HeapTimers (s : CentreState) : Prop :=
  ∀ p ∈ s.centre.timer.heap.heap, ∀ e, s.objs.store p = some e → onTimer e.ev = true

structure WorldRegistry {n : ℕ} (w : World n) : Prop where
  registry : ∀ i, RegistryInv (w.at i)
  heap : ∀ i, HeapTimers (w.at i)

section
variable {n : ℕ}

/-- The centre that acts, and what it does. -/
def acting (w : World n) : WorldOp n → Option (Fin n × CentreOp)
  | .centre i op => some (i, op)
  | .poolRegister p keep registFd => (leastLoaded w).map fun i => (i, .register p keep registFd)

theorem worldStep_eq (w : World n) (op : WorldOp n) :
    worldStep w op = (acting w op).bind fun r => (centreStep n r.1 (w.at r.1) r.2).map (w.set r.1) := by
  cases op with
  | centre i op => rfl
  | poolRegister p keep registFd =>
    simp only [worldStep, acting]
    cases leastLoaded w <;> rfl

theorem set_at (w : World n) (i : Fin n) (s : CentreState) : (w.set i s).at i = s := by
  simp [World.set, World.at]

theorem set_at_of_ne (w : World n) {i j : Fin n} (s : CentreState) (h : j ≠ i) :
    (w.set i s).at j = ⟨s.objs, w.centres j⟩ := by
  simp [World.set, World.at, h]

end

section Step
variable {n self : ℕ} {s t : CentreState} {op : CentreOp} {c : EventCentre}

/-- The registries of a centre `c` that does not act. -/
theorem registryInv_other (h : RegistryInv ⟨s.objs, c⟩) (hs : RegistryInv s)
    (ht : CentrePass n self s op t) : RegistryInv ⟨t.objs, c⟩ := by
  have hnext := registryInv_step hs ht
  have hfresh := fresh_step ht
  refine ⟨h.toKeysInv, ?_, ?_, hnext.mask, ?_⟩
  · intro k p hmem e' he'
    obtain ⟨e, he, hsame⟩ := keptMask_of_below ht (h.below p (.event hmem)) e' he'
    rw [hsame.evKey, hsame.onTimer]
    exact h.eventKey k p hmem e he
  · intro k p hmem e' he'
    obtain ⟨e, he, hsame⟩ := keptMask_of_below ht (h.below p (.timer hmem)) e' he'
    rw [hsame.evKey, hsame.onTimer]
    exact h.timerKey k p hmem e he
  · intro p hp
    cases hp with
    | alive he => exact hnext.below p (.alive he)
    | event hmem => exact (h.below p (.event hmem)).trans_le hfresh
    | timer hmem => exact (h.below p (.timer hmem)).trans_le hfresh
    | heap hmem => exact (h.below p (.heap hmem)).trans_le hfresh
    | entry hpending => exact (h.below p (.entry hpending)).trans_le hfresh
    | handling hpc => exact (h.below p (.handling hpc)).trans_le hfresh

theorem heapTimers_other (h : HeapTimers ⟨s.objs, c⟩) (hinv : RegistryInv ⟨s.objs, c⟩)
    (ht : CentrePass n self s op t) : HeapTimers ⟨t.objs, c⟩ := by
  intro p hmem e' he'
  obtain ⟨e, he, hsame⟩ := keptMask_of_below ht (hinv.below p (.heap hmem)) e' he'
  rw [hsame.onTimer]
  exact h p hmem e he

theorem heapTimers_step (h : HeapTimers s) (hinv : RegistryInv s) (ht : CentrePass n self s op t) :
    HeapTimers t := by
  intro p hmem e' he'
  rcases heap_step ht hmem with hmem | ⟨e, he, htimer⟩
  · obtain ⟨e, he, hsame⟩ := keptMask_of_below ht (hinv.below p (.heap hmem)) e' he'
    rw [hsame.onTimer]
    exact h p hmem e he
  · obtain ⟨e₂, he₂, hsame⟩ := keptMask_of_below ht (hinv.below p (.alive he)) e' he'
    obtain rfl := Option.some.inj (he.symm.trans he₂)
    rw [hsame.onTimer]
    exact htimer

end Step

/-- The step lemma. -/
theorem WorldRegistry.set {n : ℕ} {w : World n} {i : Fin n} {op : CentreOp} {t : CentreState}
    (h : WorldRegistry w) (ht : CentrePass n i (w.at i) op t) : WorldRegistry (w.set i t) := by
  constructor
  · intro j
    rcases eq_or_ne j i with rfl | hne
    · rw [set_at]
      exact registryInv_step (h.registry j) ht
    · rw [set_at_of_ne w t hne]
      exact registryInv_other (h.registry j) (h.registry i) ht
  · intro j
    rcases eq_or_ne j i with rfl | hne
    · rw [set_at]
      exact heapTimers_step (h.heap j) (h.registry j) ht
    · rw [set_at_of_ne w t hne]
      exact heapTimers_other (h.heap j) (h.registry j) ht

theorem worldRegistry_start {n : ℕ} (fds : ℕ → ℕ) (pool : List (Fin n)) :
    WorldRegistry (World.start fds pool) := by
  constructor
  · intro i
    exact registryInv_new fds i.isLt
  · intro i p hmem
    cases hmem

theorem worldRegistry_step {n : ℕ} {w v : World n} {op : WorldOp n} (h : WorldRegistry w)
    (hv : worldStep w op = some v) : WorldRegistry v := by
  rw [worldStep_eq] at hv
  obtain ⟨r, _, hstep⟩ := Option.bind_eq_some_iff.mp hv
  obtain ⟨t, ht, rfl⟩ := Option.map_eq_some_iff.mp hstep
  exact h.set (centrePass_of_centreStep ht)

/-- The registries along every run of the centres. -/
theorem worldRegistry_of_exec {n : ℕ} {fds : ℕ → ℕ} {pool : List (Fin n)} {ops : List (WorldOp n)}
    {w : World n} (hw : GuardedRuns.exec worldStep (.start fds pool) ops = some w) : WorldRegistry w :=
  GuardedRuns.invariant_of_exec (fun _ _ _ => worldRegistry_step) (worldRegistry_start fds pool) hw

end Chaos.EventCounters
