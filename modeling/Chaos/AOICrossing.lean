import Chaos.AOIAround

/-!
# The calls of a step to another grid

A position in the path of `Move` can lie in another grid. The entities in the grids that are only around
the old position are to be told that the mover leaves, those only around the new one that it enters, and
those around both that it moves. The third set of the code is the union of the two, not what they have in
common.
-/
namespace Chaos.AOICrossing

open GuardedRuns AOIPlacement AOIViews CellNotices

variable (c : AOISence)

/-- The calls that `o` receives between two states. -/
def received (m t : AOIManager) (o : ℕ) : List AOINotice := (t.notices o).drop (m.notices o).length

/-- The step of `p` to `pos`, which ends in `t`, notifies each grid once. The mover is where it is when the
grids are notified. -/
structure NotifiesOnce (m : AOIManager) (p : ℕ) (pos : AOILocation) (t : AOIManager) : Prop where
  leave : ∀ g ∈ c.findAroundGrids (m.location p), g ∉ c.findAroundGrids pos →
    ∀ o ∈ t.entities g, (received m t o).count (.leave p) = 1
  enter : ∀ g ∈ c.findAroundGrids pos, g ∉ c.findAroundGrids (m.location p) →
    ∀ o ∈ t.entities g, (received m t o).count (.enter p pos) = 1
  move : ∀ g ∈ c.findAroundGrids (m.location p), g ∈ c.findAroundGrids pos →
    ∀ o ∈ t.entities g, (received m t o).count (.move p pos) = 1
  once : ∀ o, (received m t o).length ≤ 1

/-- Where the grid changes, the step comes to an end and notifies each grid once. -/
def StepNotifies (p : ℕ) (m : AOIManager) (pos : AOILocation) : Prop :=
  c.getGridIdxByPos (m.location p) ≠ c.getGridIdxByPos pos →
    ∃ t, m.movePos c p pos = some t ∧ NotifiesOnce c m p pos t

/-- Every step of a call of `Move`. -/
def MoveNotifies (m : AOIManager) (p : ℕ) (targetPos : AOILocation) (locations : List AOILocation) : Prop :=
  c.checkPos targetPos = true →
    Guarded (fun m pos => m.movePos c p pos) (StepNotifies c p) m (locations.takeWhile c.checkPos)

/-! ## The condition on a step -/

/-- Who is in a grid once the mover has changed from the old grid to the new one. -/
def Stands (m : AOIManager) (p : ℕ) (oldGrid newGrid : GridIdx) (o : ℕ) (g : GridIdx) : Prop :=
  o ∈ m.entities g ∧ (o = p → g ≠ oldGrid) ∨ o = p ∧ g = newGrid

/-- The two grids exist, nobody stands in a grid that is around one of the positions only, and nobody stands
in two of the grids around both. -/
def crossingOk (p : ℕ) (m : AOIManager) (pos : AOILocation) : Prop :=
  c.getGridIdxByPos (m.location p) ≠ c.getGridIdxByPos pos →
    ((c.getGridByPos (m.location p)).isSome ∧ (c.getGridByPos pos).isSome) ∧
      Settled (Stands m p (c.getGridIdxByPos (m.location p)) (c.getGridIdxByPos pos))
        (c.findAroundGrids (m.location p)) (c.findAroundGrids pos)

/-! ## One step -/

section Step
variable {c} {m : AOIManager} {p o : ℕ} {pos : AOILocation} {g g' : GridIdx}

theorem stands_iff {i : GridIdx} : o ∈ ((m.erase p g).insert p g').entities i ↔ Stands m p g g' o i := by
  rw [AOIManager.mem_insert, AOIManager.mem_erase, Stands]

instance {i : GridIdx} : Decidable (Stands m p g g' o i) := decidable_of_iff _ stands_iff

variable (c m p pos g g' o)

/-- What an entity receives in a step to another grid: a call for each grid of the three sets that it is in. -/
theorem received_cross : received m ((m.crossGrid c p pos g g').setLocation p pos) o =
    List.replicate (calls (Stands m p g g') (leaveSet (c.findAroundGrids (m.location p)) (c.findAroundGrids pos)) o)
      (.leave p) ++
    List.replicate (calls (Stands m p g g') (enterSet (c.findAroundGrids (m.location p)) (c.findAroundGrids pos)) o)
      (.enter p pos) ++
    List.replicate (calls (Stands m p g g') (moveSet (c.findAroundGrids (m.location p)) (c.findAroundGrids pos)) o)
      (.move p pos) := by
  have hcalls (grids : List GridIdx) :
      (grids.countP fun i => o ∈ ((m.erase p g).insert p g').entities i) = calls (Stands m p g g') grids o := by
    simp only [calls, stands_iff]
  have hnotices : ((m.crossGrid c p pos g g').setLocation p pos).notices o = m.notices o ++
      List.replicate (((leaveSet (c.findAroundGrids (m.location p)) (c.findAroundGrids pos))).countP
        fun i => o ∈ ((m.erase p g).insert p g').entities i) (.leave p) ++
      List.replicate (((enterSet (c.findAroundGrids (m.location p)) (c.findAroundGrids pos))).countP
        fun i => o ∈ ((m.erase p g).insert p g').entities i) (.enter p pos) ++
      List.replicate (((moveSet (c.findAroundGrids (m.location p)) (c.findAroundGrids pos))).countP
        fun i => o ∈ ((m.erase p g).insert p g').entities i) (.move p pos) := rfl
  rw [received, hnotices, hcalls, hcalls, hcalls, List.append_assoc, List.append_assoc, List.drop_left,
    List.append_assoc]

variable {c m p pos g g' o}

theorem mem_cross {i : GridIdx} :
    o ∈ ((m.crossGrid c p pos g g').setLocation p pos).entities i ↔ Stands m p g g' o i := stands_iff

/-- A step between two grids notifies each grid once just when they are settled. -/
theorem notifiesOnce_iff : NotifiesOnce c m p pos ((m.crossGrid c p pos g g').setLocation p pos) ↔
    Settled (Stands m p g g') (c.findAroundGrids (m.location p)) (c.findAroundGrids pos) := by
  have hold := nodup_findAroundGrids (c := c) (m.location p)
  have hnew := nodup_findAroundGrids (c := c) pos
  constructor
  · intro h
    apply (calls_le_one_iff_settled hold hnew).mp
    intro o
    have honce := h.once o
    simpa only [received_cross, List.length_append, List.length_replicate] using honce
  · intro h
    have hreceived (o : ℕ) : received m ((m.crossGrid c p pos g g').setLocation p pos) o =
        List.replicate (calls (Stands m p g g')
          (moveSet (c.findAroundGrids (m.location p)) (c.findAroundGrids pos)) o) (.move p pos) := by
      rw [received_cross, h.calls_leave, h.calls_enter]
      rfl
    constructor
    · intro i hi hi' o ho
      exact absurd (mem_cross.mp ho) (h.left i hi hi' o)
    · intro i hi hi' o ho
      exact absurd (mem_cross.mp ho) (h.entered i hi hi' o)
    · intro i hi _ o ho
      rw [hreceived, h.calls_move_eq hold hnew hi (mem_cross.mp ho)]
      exact List.count_singleton_self
    · intro o
      rw [hreceived, List.length_replicate]
      exact h.calls_move_le hold hnew o

theorem stepNotifies_iff : StepNotifies c p m pos ↔ crossingOk c p m pos := by
  refine imp_congr_right fun hne => ?_
  constructor
  · rintro ⟨t, ht, honce⟩
    obtain ⟨g, hg, hstep⟩ := Option.bind_eq_some_iff.mp ht
    obtain ⟨g', hg', rfl⟩ := Option.map_eq_some_iff.mp hstep
    obtain rfl := (getGridByPos_eq hg).2
    obtain rfl := (getGridByPos_eq hg').2
    rw [if_neg hne] at honce
    rw [hg, hg']
    exact ⟨⟨rfl, rfl⟩, notifiesOnce_iff.mp honce⟩
  · rintro ⟨⟨hg, hg'⟩, hsettled⟩
    obtain ⟨g, hg⟩ := Option.isSome_iff_exists.mp hg
    obtain ⟨g', hg'⟩ := Option.isSome_iff_exists.mp hg'
    obtain rfl := (getGridByPos_eq hg).2
    obtain rfl := (getGridByPos_eq hg').2
    exact ⟨_, AOIManager.movePos_cross hg hg' hne, notifiesOnce_iff.mpr hsettled⟩

/-- Where every entity is in the grid of its location, a crossing is settled when the new grid was around the
old position and every other entity has both positions near or neither. -/
theorem settled_iff_of_placed {inside : Finset ℕ} (h : Placed c m inside) (hp : p ∈ inside)
    (hold : c.getGridByPos (m.location p) = some g) (hnew : c.getGridByPos pos = some g') :
    Settled (Stands m p g g') (c.findAroundGrids (m.location p)) (c.findAroundGrids pos) ↔
      g' ∈ c.findAroundGrids (m.location p) ∧
        ∀ q ∈ inside, q ≠ p → (Near c (m.location q) (m.location p) ↔ Near c (m.location q) pos) := by
  have hother {q : ℕ} (hq : q ≠ p) (i : GridIdx) :
      Stands m p g g' q i ↔ q ∈ inside ∧ i = c.getGridIdxByPos (m.location q) := by
    simp [Stands, hq, Placed.mem_iff h]
  have hself (i : GridIdx) : Stands m p g g' p i ↔ i = g' := by
    simp only [Stands, Placed.mem_iff h, hp, (getGridByPos_eq hold).2]
    tauto
  constructor
  · intro hsettled
    refine ⟨?_, fun q hq hne => ⟨fun hnear => ?_, fun hnear => ?_⟩⟩
    · by_contra hfar
      exact hsettled.entered g' (AOIAround.mem_findAroundGrids_self hnew) hfar p ((hself g').mpr rfl)
    · by_contra hfar
      exact hsettled.left _ hnear hfar q ((hother hne _).mpr ⟨hq, rfl⟩)
    · by_contra hfar
      exact hsettled.entered _ hnear hfar q ((hother hne _).mpr ⟨hq, rfl⟩)
  · rintro ⟨hnear, hboth⟩
    constructor
    · intro i hi hi' q hq
      rcases eq_or_ne q p with rfl | hne
      · exact hi' ((hself i).mp hq ▸ AOIAround.mem_findAroundGrids_self hnew)
      · obtain ⟨hin, rfl⟩ := (hother hne i).mp hq
        exact hi' ((hboth q hin hne).mp hi)
    · intro i hi hi' q hq
      rcases eq_or_ne q p with rfl | hne
      · exact hi' ((hself i).mp hq ▸ hnear)
      · obtain ⟨hin, rfl⟩ := (hother hne i).mp hq
        exact hi' ((hboth q hin hne).mpr hi)
    · intro i _ _ j _ _ q hqi hqj
      rcases eq_or_ne q p with rfl | hne
      · exact ((hself i).mp hqi).trans ((hself j).mp hqj).symm
      · exact ((hother hne i).mp hqi).2.trans ((hother hne j).mp hqj).2.symm

end Step

/-- In a call of `Move` every step to another grid notifies each grid once just when every such step meets
the condition. -/
theorem crossings_notify_once_iff (c : AOISence) (m : AOIManager) (p : ℕ) (targetPos : AOILocation)
    (locations : List AOILocation) : MoveNotifies c m p targetPos locations ↔ (c.checkPos targetPos = true →
      Guarded (fun m pos => m.movePos c p pos) (crossingOk c p) m (locations.takeWhile c.checkPos)) :=
  imp_congr_right fun _ => guarded_congr (fun _ _ => stepNotifies_iff) m _

/-- Two entities in the first two of three grids along `x`. -/
def besideEachOther : AOIRun := (exec (aoiStep longSence) (.start locationSample)
  [.enter 1 ⟨0, 0, 0⟩, .enter 2 ⟨5, 0, 0⟩]).get (by decide +kernel)

def movedOn : AOIManager := (besideEachOther.manager.movePos longSence 2 ⟨10, 0, 0⟩).get (by decide +kernel)

/-- The entity in the grid that is left behind is told that the other one leaves and that it moves. -/
theorem not_crossings_notify_once :
    ¬ ∀ (c : AOISence) (m : AOIManager) (p : ℕ) (targetPos : AOILocation) (locations : List AOILocation),
      MoveNotifies c m p targetPos locations := by
  intro h
  have hmove := h longSence besideEachOther.manager 2 ⟨10, 0, 0⟩ [⟨10, 0, 0⟩] (by decide +kernel)
  have hpath : [⟨10, 0, 0⟩].takeWhile longSence.checkPos = [⟨10, 0, 0⟩] := by decide +kernel
  rw [hpath] at hmove
  obtain ⟨t, ht, honce⟩ := hmove.1 (by decide +kernel)
  obtain rfl : movedOn = t := Option.some.inj ((Option.some_get _).trans ht)
  exact absurd (honce.once 1) (by decide +kernel)

end Chaos.AOICrossing
