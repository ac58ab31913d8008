import Chaos.AOIManager

/-!
# The grids and the locations

Runs of `Enter`, `Leave` and `Move`: an entity that is inside is in the grid of its location and in no other
one. The loop of `Move` is itself a run, over the locations up to the first that `CheckPos` refuses.
-/
namespace Chaos.AOIPlacement

open GuardedRuns

/-- `inside` are the entities that have entered and not left. -/
structure AOIRun where
  manager : AOIManager
  inside : Finset ℕ

inductive AOIOp where
  | enter (p : ℕ) (pos : AOILocation)
  | leave (p : ℕ)
  | move (p : ℕ) (targetPos : AOILocation) (locations : List AOILocation)
  deriving DecidableEq, Repr

def AOIRun.start (location : ℕ → AOILocation) : AOIRun := ⟨.new location, ∅⟩

variable (c : AOISence)

def aoiStep (s : AOIRun) : AOIOp → Option AOIRun
  | .enter p pos => (s.manager.enter c p pos).map fun m =>
      ⟨m, if c.checkPos pos then insert p s.inside else s.inside⟩
  | .leave p => (s.manager.leave c p).map fun m =>
      ⟨m, if c.checkPos (s.manager.location p) then s.inside.erase p else s.inside⟩
  | .move p targetPos locations => (s.manager.move c p targetPos locations).map fun r => ⟨r.1, s.inside⟩

/-- An entity that is inside is in one grid, that of its location, and any other entity is in none. -/
structure InItsGrid (s : AOIRun) : Prop where
  inside : ∀ p ∈ s.inside, ∃ g, c.getGridByPos (s.manager.location p) = some g ∧
    ∀ g', p ∈ s.manager.entities g' ↔ g' = g
  outside : ∀ p ∉ s.inside, ∀ g, p ∉ s.manager.entities g

/-! ## The condition on a step -/

/-- A position of `Move`: there is a grid for it and for the location, the same one unless the entity is inside. -/
def posOk (inside : Finset ℕ) (p : ℕ) (m : AOIManager) (pos : AOILocation) : Prop :=
  (c.getGridByPos (m.location p)).isSome ∧ (c.getGridByPos pos).isSome ∧
    (p ∈ inside ∨ c.getGridByPos pos = c.getGridByPos (m.location p))

instance (inside : Finset ℕ) (p : ℕ) (m : AOIManager) (pos : AOILocation) :
    Decidable (posOk c inside p m pos) :=
  inferInstanceAs (Decidable (_ ∧ _ ∧ _))

/-- What `CheckPos` accepts has a grid, an entity that is inside enters the grid where it is, and one that is
not does not move to another grid. -/
def placeOk (s : AOIRun) : AOIOp → Prop
  | .enter p pos => c.checkPos pos → (c.getGridByPos pos).isSome ∧
      (p ∈ s.inside → c.getGridByPos pos = c.getGridByPos (s.manager.location p))
  | .leave p => c.checkPos (s.manager.location p) → (c.getGridByPos (s.manager.location p)).isSome
  | .move p targetPos locations => c.checkPos targetPos →
      Guarded (fun m pos => m.movePos c p pos) (posOk c s.inside p) s.manager (locations.takeWhile c.checkPos)

instance (s : AOIRun) : (op : AOIOp) → Decidable (placeOk c s op)
  | .enter _ _ => inferInstanceAs (Decidable (_ → _))
  | .leave _ => inferInstanceAs (Decidable (_ → _))
  | .move _ _ _ => inferInstanceAs (Decidable (_ → _))

/-! ## Placed entities -/

structure Placed (m : AOIManager) (inside : Finset ℕ) : Prop where
  mem : ∀ p g, p ∈ m.entities g ↔ p ∈ inside ∧ c.getGridByPos (m.location p) = some g
  found : ∀ p ∈ inside, (c.getGridByPos (m.location p)).isSome

variable {c} {m : AOIManager} {inside : Finset ℕ} {p : ℕ} {pos : AOILocation} {g g' : GridIdx}

/-- The entity `p` is put where it is the only one to be looked at. -/
theorem Placed.update {m' : AOIManager} {inside' : Finset ℕ} (h : Placed c m inside)
    (hloc : ∀ q, q ≠ p → m'.location q = m.location q)
    (hmem : ∀ q, q ≠ p → ∀ g, q ∈ m'.entities g ↔ q ∈ m.entities g)
    (hinside : ∀ q, q ≠ p → (q ∈ inside' ↔ q ∈ inside))
    (hself : ∀ g, p ∈ m'.entities g ↔ p ∈ inside' ∧ c.getGridByPos (m'.location p) = some g)
    (hfound : p ∈ inside' → (c.getGridByPos (m'.location p)).isSome) : Placed c m' inside' := by
  constructor
  · intro q g
    rcases eq_or_ne q p with rfl | hne
    · exact hself g
    · rw [hmem q hne, hinside q hne, hloc q hne]
      exact h.mem q g
  · intro q hq
    rcases eq_or_ne q p with rfl | hne
    · exact hfound hq
    · rw [hloc q hne]
      exact h.found q ((hinside q hne).mp hq)

/-- The calls do not move anybody. -/
theorem Placed.notify (h : Placed c m inside) (grids : List GridIdx) (notice : AOINotice) :
    Placed c (m.notifyGrids grids notice) inside :=
  ⟨h.mem, h.found⟩

theorem Placed.enter (h : Placed c m inside) (hpos : c.getGridByPos pos = some g)
    (hold : p ∈ inside → c.getGridByPos (m.location p) = some g) :
    Placed c ((m.setLocation p pos).insert p g) (insert p inside) := by
  apply h.update (p := p)
  · intro q hq
    exact m.setLocation_of_ne p q pos hq
  · intro q hq g'
    rw [AOIManager.mem_insert, or_iff_left fun hp => hq hp.1]
    rfl
  · intro q hq
    rw [Finset.mem_insert, or_iff_right hq]
  · intro g'
    have hloc : ((m.setLocation p pos).insert p g).location p = pos := m.setLocation_self p pos
    have hentities : p ∈ (m.setLocation p pos).entities g' ↔ p ∈ m.entities g' := Iff.rfl
    rw [AOIManager.mem_insert, hentities, h.mem, hloc, hpos, Option.some_inj]
    constructor
    · rintro (⟨hp, hgrid⟩ | ⟨_, rfl⟩)
      · exact ⟨Finset.mem_insert_self p inside, Option.some.inj ((hold hp).symm.trans hgrid)⟩
      · exact ⟨Finset.mem_insert_self p inside, rfl⟩
    · rintro ⟨_, rfl⟩
      exact Or.inr ⟨rfl, rfl⟩
  · intro _
    have hloc : ((m.setLocation p pos).insert p g).location p = pos := m.setLocation_self p pos
    rw [hloc, hpos]
    rfl

theorem Placed.leave (h : Placed c m inside) (hpos : c.getGridByPos (m.location p) = some g) :
    Placed c (m.erase p g) (inside.erase p) := by
  apply h.update (p := p)
  · intro q _
    rfl
  · intro q hq g'
    rw [AOIManager.mem_erase, and_iff_left fun hp => absurd hp hq]
  · intro q hq
    rw [Finset.mem_erase, and_iff_right hq]
  · intro g'
    rw [AOIManager.mem_erase, h.mem, hpos]
    constructor
    · rintro ⟨⟨_, hgrid⟩, hne⟩
      exact absurd (Option.some.inj hgrid).symm (hne rfl)
    · rintro ⟨hp, _⟩
      exact absurd hp (Finset.notMem_erase p inside)
  · intro hp
    exact absurd hp (Finset.notMem_erase p inside)

/-- The entity stays in its grid. -/
theorem Placed.stay (h : Placed c m inside) (hgrid : c.getGridByPos pos = c.getGridByPos (m.location p)) :
    Placed c (m.setLocation p pos) inside := by
  apply h.update (p := p)
  · intro q hq
    exact m.setLocation_of_ne p q pos hq
  · intro q _ g'
    rfl
  · intro q _
    rfl
  · intro g'
    rw [AOIManager.setLocation_self, hgrid]
    exact h.mem p g'
  · intro hp
    rw [AOIManager.setLocation_self, hgrid]
    exact h.found p hp

theorem Placed.shift (h : Placed c m inside) (hp : p ∈ inside) (hold : c.getGridByPos (m.location p) = some g)
    (hpos : c.getGridByPos pos = some g') :
    Placed c (((m.erase p g).insert p g').setLocation p pos) inside := by
  apply h.update (p := p)
  · intro q hq
    exact AOIManager.setLocation_of_ne _ p q pos hq
  · intro q hq k
    have hkeep : q ∈ (m.erase p g).entities k ↔ q ∈ m.entities k := by
      rw [AOIManager.mem_erase, and_iff_left fun hqp => absurd hqp hq]
    exact (AOIManager.mem_insert _ p q g' k).trans ((or_iff_left fun hqp => hq hqp.1).trans hkeep)
  · intro q _
    rfl
  · intro k
    rw [AOIManager.setLocation_self, hpos, and_iff_right hp, Option.some_inj]
    refine (AOIManager.mem_insert _ p p g' k).trans ?_
    rw [AOIManager.mem_erase, h.mem, hold, and_iff_right hp]
    constructor
    · rintro (⟨hk, hne⟩ | ⟨_, rfl⟩)
      · exact absurd (Option.some.inj hk).symm (hne rfl)
      · rfl
    · rintro rfl
      exact Or.inr ⟨rfl, rfl⟩
  · intro _
    rw [AOIManager.setLocation_self, hpos]
    rfl

/-- One location of the loop of `Move`. -/
theorem Placed.movePos (h : Placed c m inside) (hok : posOk c inside p m pos) :
    ∃ t, m.movePos c p pos = some t ∧ Placed c t inside := by
  obtain ⟨hold, hpos, hmoved⟩ := hok
  obtain ⟨g, hold⟩ := Option.isSome_iff_exists.mp hold
  obtain ⟨g', hpos⟩ := Option.isSome_iff_exists.mp hpos
  rcases eq_or_ne g g' with rfl | hne
  · have hstay := h.stay (hpos.trans hold.symm)
    exact ⟨_, AOIManager.movePos_stay hold hpos, ⟨hstay.mem, hstay.found⟩⟩
  · have hp : p ∈ inside := by
      rcases hmoved with hp | heq
      · exact hp
      · rw [hold, hpos] at heq
        exact absurd (Option.some.inj heq).symm hne
    have hshift := h.shift hp hold hpos
    exact ⟨_, AOIManager.movePos_cross hold hpos hne, ⟨hshift.mem, hshift.found⟩⟩

theorem placed_step {s : AOIRun} {op : AOIOp} (h : Placed c s.manager s.inside) (hok : placeOk c s op) :
    ∃ t, aoiStep c s op = some t ∧ Placed c t.manager t.inside := by
  cases op with
  | enter p pos =>
    cases hpos : c.checkPos pos with
    | false => exact ⟨s, by simp [aoiStep, AOIManager.enter, hpos], h⟩
    | true =>
      obtain ⟨hgrid, hstay⟩ := hok hpos
      obtain ⟨g, hg⟩ := Option.isSome_iff_exists.mp hgrid
      have henter := h.enter hg fun hp => (hstay hp).symm.trans hg
      refine ⟨_, by simp [aoiStep, AOIManager.enter, hpos, hg]; rfl, ?_⟩
      exact ⟨henter.mem, henter.found⟩
  | leave p =>
    cases hpos : c.checkPos (s.manager.location p) with
    | false => exact ⟨s, by simp [aoiStep, AOIManager.leave, hpos], h⟩
    | true =>
      obtain ⟨g, hg⟩ := Option.isSome_iff_exists.mp (hok hpos)
      have hleave := h.leave hg
      refine ⟨_, by simp [aoiStep, AOIManager.leave, hpos, hg]; rfl, ?_⟩
      exact ⟨hleave.mem, hleave.found⟩
  | move p targetPos locations =>
    cases hpos : c.checkPos targetPos with
    | false => exact ⟨s, by simp [aoiStep, AOIManager.move, hpos], h⟩
    | true =>
      have hloop : ∀ m pos, Placed c m s.inside → posOk c s.inside p m pos →
          ∃ t, m.movePos c p pos = some t ∧ Placed c t s.inside := fun m pos hm hok => hm.movePos hok
      obtain ⟨m, hm, hplaced⟩ := exec_of_guarded hloop h (hok hpos)
      refine ⟨⟨m, s.inside⟩, ?_, hplaced⟩
      simp [aoiStep, AOIManager.move, hpos, AOIManager.moveLoop_eq, hm]

theorem placed_start (location : ℕ → AOILocation) : Placed c (AOIRun.start location).manager ∅ := by
  constructor
  · intro p g
    exact iff_of_false (Finset.notMem_empty p) fun hp => Finset.notMem_empty p hp.1
  · intro p hp
    exact absurd hp (Finset.notMem_empty p)

theorem Placed.inItsGrid {s : AOIRun} (h : Placed c s.manager s.inside) : InItsGrid c s := by
  constructor
  · intro p hp
    obtain ⟨g, hg⟩ := Option.isSome_iff_exists.mp (h.found p hp)
    refine ⟨g, hg, ?_⟩
    intro g'
    rw [h.mem, and_iff_right hp, hg, Option.some_inj, eq_comm]
  · intro p hp g hg
    exact hp ((h.mem p g).mp hg).1

/-- The placement holds in every run whose steps meet the condition. -/
theorem in_its_grid {location : ℕ → AOILocation} {ops : List AOIOp} {s : AOIRun}
    (hrun : exec (aoiStep c) (.start location) ops = some s)
    (hok : Guarded (aoiStep c) (placeOk c) (.start location) ops) : InItsGrid c s := by
  have hkept : ∀ s op t, Placed c s.manager s.inside → placeOk c s op → aoiStep c s op = some t →
      Placed c t.manager t.inside := by
    intro s op t h hok hstep
    obtain ⟨u, hu, hplaced⟩ := placed_step h hok
    rwa [Option.some.inj (hstep.symm.trans hu)]
  have hend : Placed c s.manager s.inside := invariant_of_guarded hkept (placed_start location) hok hrun
  exact hend.inItsGrid

def gridSample : AOISenceSize := ⟨5, 5, 5, by decide⟩

/-- Two grids along each axis. -/
def senceSample : AOISence := ⟨⟨0, 10, 10, 0, 10, 0⟩, gridSample⟩

def locationSample : ℕ → AOILocation := fun _ => ⟨0, 0, 0⟩

/-- A path that `CheckPos` cuts short, and an entity that leaves and comes back. -/
def placeSample : List AOIOp :=
  [.enter 1 ⟨0, 0, 0⟩, .enter 2 ⟨1, 1, 1⟩, .move 1 ⟨4, 4, 4⟩ [⟨0, 3, 0⟩, ⟨5 / 2, 3, 0⟩, ⟨20, 0, 0⟩, ⟨4, 4, 4⟩],
    .leave 2, .enter 2 ⟨0, 5, 5⟩, .leave 3]

def placeEnd : AOIRun :=
  (exec (aoiStep senceSample) (.start locationSample) placeSample).get (by decide +kernel)

theorem in_its_grid_sample : InItsGrid senceSample placeEnd :=
  in_its_grid (Option.some_get _).symm (by decide +kernel :
    Guarded (aoiStep senceSample) (placeOk senceSample) (.start locationSample) placeSample)

def enteredTwice : AOIRun := (exec (aoiStep senceSample) (.start locationSample)
  [.enter 1 ⟨0, 0, 0⟩, .enter 1 ⟨3, 0, 0⟩]).get (by decide +kernel)

/-- A second `Enter` puts the entity into a second grid. -/
theorem not_in_its_grid :
    ¬ ∀ (c : AOISence) (location : ℕ → AOILocation) (ops : List AOIOp) (s : AOIRun),
      exec (aoiStep c) (.start location) ops = some s → InItsGrid c s := by
  intro h
  have hplaced := h senceSample locationSample _ enteredTwice (Option.some_get _).symm
  obtain ⟨g, _, hgrid⟩ := hplaced.inside 1 (by decide +kernel)
  have hold := (hgrid (0, 0, 0)).mp (by decide +kernel)
  have hnew := (hgrid (1, 0, 0)).mp (by decide +kernel)
  have heq : ((0, 0, 0) : GridIdx) = (1, 0, 0) := hold.trans hnew.symm
  exact absurd heq (by decide)

end Chaos.AOIPlacement
