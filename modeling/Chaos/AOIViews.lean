import Chaos.AOIPlacement
import Chaos.CellNotices

/-!
# What the entities are told about each other

The calls that an observer receives about a target, read one after the other, say whether the target is
visible to it. In a run that keeps to the condition this is whether the target has the observer's grid
around it.
-/
namespace Chaos.AOIViews

open GuardedRuns AOIPlacement

inductive Sight where
  | enter
  | leave
  | move
  deriving DecidableEq, Repr

def sight : AOINotice → Sight
  | .enter _ _ => .enter
  | .leave _ => .leave
  | .move _ _ => .move

/-- Whether the target is visible after a call, `none` where the call is out of place. -/
def look : Bool → Sight → Option Bool
  | false, .enter => some true
  | true, .leave => some false
  | true, .move => some true
  | true, .enter | false, .leave | false, .move => none

/-- The calls that `o` has received about `t`. -/
def sights (m : AOIManager) (o t : ℕ) : List Sight :=
  ((m.notices o).filter fun n => n.target = t).map sight

/-- What `o` has received about `t` is well formed. -/
def WellFormed (m : AOIManager) (o t : ℕ) : Prop := (exec look false (sights m o t)).isSome

variable (c : AOISence)

/-- An entity enters while it is outside, and moves and leaves while it is inside. -/
def aoiProtocol (s : AOIRun) : AOIOp → Bool
  | .enter p _ => p ∉ s.inside
  | .leave p | .move p _ _ => p ∈ s.inside

def protocolStep (s : AOIRun) (op : AOIOp) : Option AOIRun := if aoiProtocol s op then aoiStep c s op else none

/-! ## The condition on a step -/

/-- The grid of a position is one of those around another. -/
def Near (pos target : AOILocation) : Prop := c.getGridIdxByPos pos ∈ c.findAroundGrids target

instance (pos target : AOILocation) : Decidable (Near c pos target) := inferInstanceAs (Decidable (_ ∈ _))

/-- A location of `Move` has a grid, is near the same entities as the one before, and leaves nobody behind
who was near that one. -/
def crossOk (inside : Finset ℕ) (p : ℕ) (m : AOIManager) (pos : AOILocation) : Prop :=
  (c.getGridByPos pos).isSome ∧ ∀ q ∈ inside, q ≠ p →
    (Near c pos (m.location q) ↔ Near c (m.location p) (m.location q)) ∧
      (Near c (m.location q) (m.location p) → Near c (m.location q) pos)

instance (inside : Finset ℕ) (p : ℕ) (m : AOIManager) (pos : AOILocation) :
    Decidable (crossOk c inside p m pos) :=
  inferInstanceAs (Decidable (_ ∧ _))

/-- Nobody has the entity near when it enters or leaves. -/
def viewOk (s : AOIRun) : AOIOp → Prop
  | .enter _ pos => c.checkPos pos → (c.getGridByPos pos).isSome ∧
      ∀ q ∈ s.inside, ¬ Near c pos (s.manager.location q)
  | .leave p => ∀ q ∈ s.inside, q ≠ p → ¬ Near c (s.manager.location p) (s.manager.location q)
  | .move p targetPos locations => c.checkPos targetPos →
      Guarded (fun m pos => m.movePos c p pos) (crossOk c s.inside p) s.manager (locations.takeWhile c.checkPos)

instance (s : AOIRun) : (op : AOIOp) → Decidable (viewOk c s op)
  | .enter _ _ => inferInstanceAs (Decidable (_ → _))
  | .leave _ => inferInstanceAs (Decidable (∀ q ∈ s.inside, _))
  | .move _ _ _ => inferInstanceAs (Decidable (_ → _))

/-! ## Calls -/

section Calls
variable {c} {m : AOIManager} {inside : Finset ℕ} {grids : List GridIdx} {notice : AOINotice} {o t p : ℕ}

theorem nodup_around (idx bound : ℕ) : (AOISence.around idx bound).Nodup := by
  apply List.Nodup.filter
  split_ifs with hzero
  · exact List.nodup_singleton 0
  · rw [List.nodup_cons, List.mem_singleton]
    exact ⟨by omega, List.nodup_singleton idx⟩

theorem nodup_findAroundGrids (pos : AOILocation) : (c.findAroundGrids pos).Nodup := by
  rw [AOISence.findAroundGrids]
  split_ifs
  · exact (nodup_around _ _).product ((nodup_around _ _).product (nodup_around _ _))
  · exact List.nodup_nil

theorem getGridByPos_eq {pos : AOILocation} {g : GridIdx} (h : c.getGridByPos pos = some g) :
    c.checkPos pos = true ∧ g = c.getGridIdxByPos pos := by
  simp only [AOISence.getGridByPos, Option.ite_none_right_eq_some, Option.some.injEq, Bool.and_eq_true] at h
  exact ⟨h.1.1, h.2.symm⟩

/-- An entity that is inside is called when its grid is among those that are notified. -/
theorem countP_entities (hmem : ∀ g, o ∈ m.entities g ↔ o ∈ inside ∧ g = c.getGridIdxByPos (m.location o))
    (hgrids : grids.Nodup) : (grids.countP fun g => o ∈ m.entities g) =
      if o ∈ inside ∧ c.getGridIdxByPos (m.location o) ∈ grids then 1 else 0 := by
  by_cases ho : o ∈ inside
  · have hcount : (grids.countP fun g => o ∈ m.entities g) = grids.count (c.getGridIdxByPos (m.location o)) := by
      rw [List.count]
      congr 1
      funext g
      rw [Bool.eq_iff_iff]
      simp [hmem, ho]
    rw [hcount, List.Nodup.count hgrids]
    simp [ho]
  · have hnone : ∀ g, o ∉ m.entities g := fun g hg => ho ((hmem g).mp hg).1
    simp [hnone, ho]

theorem sights_notify_of_ne (h : notice.target ≠ t) (grids : List GridIdx) :
    sights (m.notifyGrids grids notice) o t = sights m o t := by
  simp [sights, AOIManager.notifyGrids, List.filter_append, h]

theorem sights_notify (notice : AOINotice) (grids : List GridIdx) :
    sights (m.notifyGrids grids notice) o notice.target =
      sights m o notice.target ++ List.replicate (grids.countP fun g => o ∈ m.entities g) (sight notice) := by
  simp [sights, AOIManager.notifyGrids, List.filter_append]

end Calls

/-! ## The view of every pair -/

/-- The target is visible: both are inside and the observer's grid is around the target. -/
def Sees (m : AOIManager) (inside : Finset ℕ) (o t : ℕ) : Prop :=
  o ∈ inside ∧ t ∈ inside ∧ Near c (m.location o) (m.location t)

instance (m : AOIManager) (inside : Finset ℕ) (o t : ℕ) : Decidable (Sees c m inside o t) :=
  inferInstanceAs (Decidable (_ ∧ _ ∧ _))

structure Viewed (m : AOIManager) (inside : Finset ℕ) : Prop where
  placed : Placed c m inside
  seen : ∀ o t, o ≠ t → exec look false (sights m o t) = some (decide (Sees c m inside o t))

section Step
variable {c} {m m' : AOIManager} {inside inside' : Finset ℕ} {grids : List GridIdx} {notice : AOINotice}
  {o t p : ℕ} {pos : AOILocation}

theorem Placed.mem_iff (h : Placed c m inside) (o : ℕ) (g : GridIdx) :
    o ∈ m.entities g ↔ o ∈ inside ∧ g = c.getGridIdxByPos (m.location o) := by
  rw [h.mem]
  constructor
  · rintro ⟨ho, hg⟩
    exact ⟨ho, (getGridByPos_eq hg).2⟩
  · rintro ⟨ho, rfl⟩
    obtain ⟨g, hg⟩ := Option.isSome_iff_exists.mp (h.found o ho)
    rw [hg, (getGridByPos_eq hg).2]
    exact ⟨ho, rfl⟩

/-- A step of `p` is seen by the others as the calls say, and changes nothing that `p` sees. -/
theorem Viewed.update (h : Viewed c m inside) (hplaced : Placed c m' inside')
    (hloc : ∀ q, q ≠ p → m'.location q = m.location q) (hinside : ∀ q, q ≠ p → (q ∈ inside' ↔ q ∈ inside))
    (hself : ∀ o, o ≠ p → exec look false (sights m' o p) = some (decide (Sees c m' inside' o p)))
    (hother : ∀ o t, t ≠ p → sights m' o t = sights m o t)
    (hback : ∀ t, t ≠ p → (Sees c m' inside' p t ↔ Sees c m inside p t)) : Viewed c m' inside' := by
  refine ⟨hplaced, ?_⟩
  intro o t hne
  rcases eq_or_ne t p with rfl | ht
  · exact hself o hne
  · have hsees : Sees c m' inside' o t ↔ Sees c m inside o t := by
      rcases eq_or_ne o p with rfl | ho
      · exact hback t ht
      · rw [Sees, Sees, hinside o ho, hinside t ht, hloc o ho, hloc t ht]
    rw [hother o t ht, h.seen o t hne]
    simp only [hsees]

theorem look_enter {v after : Prop} [Decidable v] [Decidable after] (hv : ¬v) (ha : after) :
    look (decide v) .enter = some (decide after) := by
  rw [decide_eq_false hv, decide_eq_true ha]
  rfl

theorem look_leave {v after : Prop} [Decidable v] [Decidable after] (hv : v) (ha : ¬after) :
    look (decide v) .leave = some (decide after) := by
  rw [decide_eq_true hv, decide_eq_false ha]
  rfl

theorem look_move {v after : Prop} [Decidable v] [Decidable after] (hv : v) (ha : after) :
    look (decide v) .move = some (decide after) := by
  rw [decide_eq_true hv, decide_eq_true ha]
  rfl

/-- The calls of one `NotifyGrids` to an observer that is placed: what is visible changes as the call says when
the observer's grid is notified, else not at all. -/
theorem exec_notify (hmem : ∀ g, o ∈ m.entities g ↔ o ∈ inside ∧ g = c.getGridIdxByPos (m.location o))
    (hgrids : grids.Nodup) (notice : AOINotice) {v after : Prop} [Decidable v] [Decidable after]
    (hv : exec look false (sights m o notice.target) = some (decide v))
    (hcalled : o ∈ inside → c.getGridIdxByPos (m.location o) ∈ grids →
      look (decide v) (sight notice) = some (decide after))
    (hnot : ¬(o ∈ inside ∧ c.getGridIdxByPos (m.location o) ∈ grids) → (v ↔ after)) :
    exec look false (sights (m.notifyGrids grids notice) o notice.target) = some (decide after) := by
  rw [sights_notify, exec_append, hv, Option.bind_some, countP_entities hmem hgrids]
  split_ifs with hgrid
  · rw [List.replicate_one, exec, hcalled hgrid.1 hgrid.2]
    rfl
  · rw [List.replicate_zero, exec, decide_eq_decide.mpr (hnot hgrid)]

theorem Viewed.enter {g : GridIdx} (h : Viewed c m inside) (hp : p ∉ inside)
    (hg : c.getGridByPos pos = some g) (hfar : ∀ q ∈ inside, ¬ Near c pos (m.location q)) :
    Viewed c (((m.setLocation p pos).insert p g).notifyAroundGrids c p (.enter p pos)) (insert p inside) := by
  have hplaced : Placed c ((m.setLocation p pos).insert p g) (insert p inside) :=
    h.placed.enter hg fun hin => absurd hin hp
  have hloc : ((m.setLocation p pos).insert p g).location p = pos := m.setLocation_self p pos
  apply h.update (p := p) (Placed.notify hplaced _ _)
  · intro q hq
    exact m.setLocation_of_ne p q pos hq
  · intro q hq
    rw [Finset.mem_insert, or_iff_right hq]
  · intro o ho
    rw [hloc]
    have hunseen : ¬Sees c m inside o p := fun hsees => hp hsees.2.1
    have hsees : Sees c (((m.setLocation p pos).insert p g).notifyGrids (c.findAroundGrids pos) (.enter p pos))
        (insert p inside) o p ↔ o ∈ insert p inside ∧
          c.getGridIdxByPos (((m.setLocation p pos).insert p g).location o) ∈ c.findAroundGrids pos := by
      rw [Sees, and_iff_right (Finset.mem_insert_self p inside)]
      refine and_congr_right fun _ => ?_
      rw [Near]
      exact iff_of_eq (congrArg (fun l => _ ∈ c.findAroundGrids l) hloc)
    apply exec_notify (Placed.mem_iff hplaced o) (nodup_findAroundGrids pos) (.enter p pos) (h.seen o p ho)
    · exact fun hin hnear => look_enter hunseen (hsees.mpr ⟨hin, hnear⟩)
    · exact fun hnot => iff_of_false hunseen (mt hsees.mp hnot)
  · intro o t ht
    exact sights_notify_of_ne (fun heq => ht heq.symm) _
  · intro t ht
    constructor
    · rintro ⟨_, htin, hnear⟩
      have htin : t ∈ inside := (Finset.mem_insert.mp htin).resolve_left ht
      have hloct : ((m.setLocation p pos).insert p g).location t = m.location t := m.setLocation_of_ne p t pos ht
      have hnear : Near c (((m.setLocation p pos).insert p g).location p)
          (((m.setLocation p pos).insert p g).location t) := hnear
      rw [hloc, hloct] at hnear
      exact absurd hnear (hfar t htin)
    · intro hsees
      exact absurd hsees.1 hp

theorem Viewed.leave {g : GridIdx} (h : Viewed c m inside) (hp : p ∈ inside)
    (hg : c.getGridByPos (m.location p) = some g)
    (hfar : ∀ q ∈ inside, q ≠ p → ¬ Near c (m.location p) (m.location q)) :
    Viewed c ((m.erase p g).notifyAroundGrids c p (.leave p)) (inside.erase p) := by
  have hplaced : Placed c (m.erase p g) (inside.erase p) := h.placed.leave hg
  apply h.update (p := p) (Placed.notify hplaced _ _)
  · intro q _
    rfl
  · intro q hq
    rw [Finset.mem_erase, and_iff_right hq]
  · intro o ho
    have hgone : ¬ Sees c ((m.erase p g).notifyGrids (c.findAroundGrids ((m.erase p g).location p)) (.leave p))
        (inside.erase p) o p := fun hsees => Finset.notMem_erase p inside hsees.2.1
    have hsees : Sees c m inside o p ↔ o ∈ inside.erase p ∧
        c.getGridIdxByPos (m.location o) ∈ c.findAroundGrids (m.location p) := by
      rw [Sees, Finset.mem_erase, and_iff_right ho, and_iff_right hp]
      rfl
    apply exec_notify (Placed.mem_iff hplaced o) (nodup_findAroundGrids (m.location p)) (.leave p) (h.seen o p ho)
    · exact fun hin hnear => look_leave (hsees.mpr ⟨hin, hnear⟩) hgone
    · exact fun hnot => iff_of_false (mt hsees.mp hnot) hgone
  · intro o t ht
    exact sights_notify_of_ne (fun heq => ht heq.symm) _
  · intro t ht
    constructor
    · intro hsees
      exact absurd hsees.1 (Finset.notMem_erase p inside)
    · rintro ⟨_, htin, hnear⟩
      exact absurd hnear (hfar t htin ht)

theorem findAroundGrids_congr {g : GridIdx} {pos pos' : AOILocation} (hg : c.getGridByPos pos = some g)
    (hg' : c.getGridByPos pos' = some g) : c.findAroundGrids pos = c.findAroundGrids pos' := by
  obtain ⟨hcheck, hidx⟩ := getGridByPos_eq hg
  obtain ⟨hcheck', hidx'⟩ := getGridByPos_eq hg'
  rw [AOISence.findAroundGrids, AOISence.findAroundGrids, if_pos hcheck, if_pos hcheck', ← hidx, ← hidx']

theorem Viewed.stay {g : GridIdx} (h : Viewed c m inside) (hp : p ∈ inside)
    (hold : c.getGridByPos (m.location p) = some g) (hg : c.getGridByPos pos = some g) :
    Viewed c ((m.notifyAroundGrids c p (.move p pos)).setLocation p pos) inside := by
  have hstay : Placed c (m.setLocation p pos) inside := h.placed.stay (hg.trans hold.symm)
  have hplaced : Placed c ((m.notifyAroundGrids c p (.move p pos)).setLocation p pos) inside :=
    ⟨hstay.mem, hstay.found⟩
  have hloc : ∀ q, q ≠ p → (m.setLocation p pos).location q = m.location q := fun q hq =>
    m.setLocation_of_ne p q pos hq
  have hself : (m.setLocation p pos).location p = pos := m.setLocation_self p pos
  have hfind := findAroundGrids_congr hg hold
  apply h.update hplaced hloc
  · intro q _
    rfl
  · intro o ho
    have hsees : Sees c ((m.notifyAroundGrids c p (.move p pos)).setLocation p pos) inside o p ↔
        o ∈ inside ∧ c.getGridIdxByPos (m.location o) ∈ c.findAroundGrids (m.location p) := by
      have hnear : Near c ((m.setLocation p pos).location o) ((m.setLocation p pos).location p) ↔
          c.getGridIdxByPos (m.location o) ∈ c.findAroundGrids (m.location p) := by
        rw [Near, hloc o ho, hself, hfind]
      exact and_congr_right fun _ => (and_iff_right hp).trans hnear
    have hold : Sees c m inside o p ↔
        o ∈ inside ∧ c.getGridIdxByPos (m.location o) ∈ c.findAroundGrids (m.location p) :=
      and_congr_right fun _ => and_iff_right hp
    apply exec_notify (Placed.mem_iff h.placed o) (nodup_findAroundGrids (m.location p)) (.move p pos) (h.seen o p ho)
    · exact fun hin hnear => look_move (hold.mpr ⟨hin, hnear⟩) (hsees.mpr ⟨hin, hnear⟩)
    · exact fun _ => hold.trans hsees.symm
  · intro o t ht
    exact sights_notify_of_ne (fun heq => ht heq.symm) _
  · intro t ht
    have hidx : c.getGridIdxByPos pos = c.getGridIdxByPos (m.location p) :=
      (getGridByPos_eq hg).2.symm.trans (getGridByPos_eq hold).2
    have hnear : Near c ((m.setLocation p pos).location p) ((m.setLocation p pos).location t) ↔
        Near c (m.location p) (m.location t) := by
      rw [Near, Near, hself, hloc t ht, hidx]
    exact and_congr_right fun _ => and_congr_right fun _ => hnear

/-- What the three calls of `NotifyGrids` of a crossing tell an observer who is not left behind. -/
theorem exec_cross {g g' : GridIdx} (h : Viewed c m inside) (hp : p ∈ inside) (ho : o ≠ p)
    (hold : c.getGridByPos (m.location p) = some g) (hg : c.getGridByPos pos = some g')
    (hkept : o ∈ inside → Near c (m.location o) (m.location p) → Near c (m.location o) pos) :
    exec look false (sights (m.crossGrid c p pos g g') o p) =
      some (decide (o ∈ inside ∧ Near c (m.location o) pos)) := by
  let oldSet := c.findAroundGrids (m.location p)
  let newSet := c.findAroundGrids pos
  let k := (m.erase p g).insert p g'
  let k' := k.notifyGrids (oldSet.filter fun i => i ∉ newSet) (.leave p)
  let k'' := k'.notifyGrids (newSet.filter fun i => i ∉ oldSet) (.enter p pos)
  have hmem : ∀ i, o ∈ k.entities i ↔ o ∈ inside ∧ i = c.getGridIdxByPos (m.location o) := by
    intro i
    have hloc : (k.setLocation p pos).location o = m.location o := k.setLocation_of_ne p o pos ho
    rw [← hloc]
    exact Placed.mem_iff (h.placed.shift hp hold hg) o i
  have hnodup : oldSet.Nodup := nodup_findAroundGrids (m.location p)
  have hnodup' : newSet.Nodup := nodup_findAroundGrids pos
  have hmoved : (oldSet ++ newSet.filter fun i => i ∉ oldSet).Nodup :=
    CellNotices.nodup_moveSet hnodup hnodup'
  have hv : exec look false (sights k o p) = some (decide (o ∈ inside ∧ Near c (m.location o) (m.location p))) := by
    refine (h.seen o p ho).trans ?_
    have hsees : Sees c m inside o p ↔ o ∈ inside ∧ Near c (m.location o) (m.location p) :=
      and_congr_right fun _ => and_iff_right hp
    simp only [hsees]
  have hleave : exec look false (sights k' o p) =
      some (decide (o ∈ inside ∧ Near c (m.location o) (m.location p))) := by
    apply exec_notify hmem (hnodup.filter fun i => i ∉ newSet) (.leave p) hv
    · intro hin hgrid
      rw [List.mem_filter, decide_eq_true_iff] at hgrid
      exact absurd (hkept hin hgrid.1) hgrid.2
    · exact fun _ => Iff.rfl
  have henter : exec look false (sights k'' o p) = some (decide (o ∈ inside ∧ Near c (m.location o) pos)) := by
    apply exec_notify (m := k') hmem (hnodup'.filter fun i => i ∉ oldSet) (.enter p pos) hleave
    · intro hin hgrid
      rw [List.mem_filter, decide_eq_true_iff] at hgrid
      exact look_enter (fun hnear => hgrid.2 hnear.2) ⟨hin, hgrid.1⟩
    · intro hgrid
      refine and_congr_right fun hin => ⟨hkept hin, fun hnear => ?_⟩
      by_contra hfar
      exact hgrid ⟨hin, List.mem_filter.mpr ⟨hnear, decide_eq_true hfar⟩⟩
  apply exec_notify (m := k'') hmem hmoved (.move p pos) henter
  · intro hin hgrid
    have hnear : Near c (m.location o) pos := by
      rcases List.mem_append.mp hgrid with hgrid | hgrid
      · exact hkept hin hgrid
      · exact (List.mem_filter.mp hgrid).1
    exact look_move ⟨hin, hnear⟩ ⟨hin, hnear⟩
  · exact fun _ => Iff.rfl

theorem sights_cross_of_ne {g g' : GridIdx} (ht : t ≠ p) :
    sights (m.crossGrid c p pos g g') o t = sights m o t := by
  have hleave : (AOINotice.leave p).target ≠ t := ht.symm
  have henter : (AOINotice.enter p pos).target ≠ t := ht.symm
  have hmove : (AOINotice.move p pos).target ≠ t := ht.symm
  rw [AOIManager.crossGrid, sights_notify_of_ne hmove, sights_notify_of_ne henter, sights_notify_of_ne hleave]
  rfl

theorem Viewed.cross {g g' : GridIdx} (h : Viewed c m inside) (hp : p ∈ inside)
    (hold : c.getGridByPos (m.location p) = some g) (hg : c.getGridByPos pos = some g')
    (hok : crossOk c inside p m pos) : Viewed c ((m.crossGrid c p pos g g').setLocation p pos) inside := by
  have hshift := h.placed.shift hp hold hg
  have hplaced : Placed c ((m.crossGrid c p pos g g').setLocation p pos) inside := ⟨hshift.mem, hshift.found⟩
  have hloc : ∀ q, q ≠ p → ((m.crossGrid c p pos g g').setLocation p pos).location q = m.location q := fun q hq =>
    AOIManager.setLocation_of_ne _ p q pos hq
  have hself : ((m.crossGrid c p pos g g').setLocation p pos).location p = pos := AOIManager.setLocation_self _ p pos
  apply h.update hplaced hloc
  · intro q _
    rfl
  · intro o ho
    have hsees : Sees c ((m.crossGrid c p pos g g').setLocation p pos) inside o p ↔
        o ∈ inside ∧ Near c (m.location o) pos := by
      rw [Sees, hloc o ho, hself, and_iff_right hp]
    have hcross := exec_cross h hp ho hold hg fun hin => (hok.2 o hin ho).2
    simp only [hsees]
    exact hcross
  · intro o t ht
    exact sights_cross_of_ne ht
  · intro t ht
    rw [Sees, Sees, hself, hloc t ht]
    refine and_congr_right fun _ => and_congr_right fun htin => ?_
    exact (hok.2 t htin ht).1

/-- One location of the loop of `Move`. -/
theorem Viewed.movePos (h : Viewed c m inside) (hp : p ∈ inside) (hok : crossOk c inside p m pos) :
    ∃ t, m.movePos c p pos = some t ∧ Viewed c t inside := by
  obtain ⟨g, hold⟩ := Option.isSome_iff_exists.mp (h.placed.found p hp)
  obtain ⟨g', hg⟩ := Option.isSome_iff_exists.mp hok.1
  rcases eq_or_ne g g' with rfl | hne
  · exact ⟨_, AOIManager.movePos_stay hold hg, h.stay hp hold hg⟩
  · exact ⟨_, AOIManager.movePos_cross hold hg hne, h.cross hp hold hg hok⟩

end Step

/-! ## Runs -/

section Runs
variable {c} {s t : AOIRun} {op : AOIOp}

theorem viewed_step (h : Viewed c s.manager s.inside) (hprotocol : aoiProtocol s op) (hok : viewOk c s op) :
    ∃ t, aoiStep c s op = some t ∧ Viewed c t.manager t.inside := by
  cases op with
  | enter p pos =>
    have hp : p ∉ s.inside := of_decide_eq_true hprotocol
    cases hpos : c.checkPos pos with
    | false => exact ⟨s, by simp [aoiStep, AOIManager.enter, hpos], h⟩
    | true =>
      obtain ⟨hgrid, hfar⟩ := hok hpos
      obtain ⟨g, hg⟩ := Option.isSome_iff_exists.mp hgrid
      exact ⟨_, by simp [aoiStep, AOIManager.enter, hpos, hg]; rfl, h.enter hp hg hfar⟩
  | leave p =>
    have hp : p ∈ s.inside := of_decide_eq_true hprotocol
    obtain ⟨g, hg⟩ := Option.isSome_iff_exists.mp (h.placed.found p hp)
    have hpos := (getGridByPos_eq hg).1
    exact ⟨_, by simp [aoiStep, AOIManager.leave, hpos, hg]; rfl, h.leave hp hg hok⟩
  | move p targetPos locations =>
    have hp : p ∈ s.inside := of_decide_eq_true hprotocol
    cases hpos : c.checkPos targetPos with
    | false => exact ⟨s, by simp [aoiStep, AOIManager.move, hpos], h⟩
    | true =>
      have hloop : ∀ m pos, Viewed c m s.inside → crossOk c s.inside p m pos →
          ∃ t, m.movePos c p pos = some t ∧ Viewed c t s.inside := fun m pos hm hok => hm.movePos hp hok
      obtain ⟨m, hm, hviewed⟩ := exec_of_guarded hloop h (hok hpos)
      refine ⟨⟨m, s.inside⟩, ?_, hviewed⟩
      simp [aoiStep, AOIManager.move, hpos, AOIManager.moveLoop_eq, hm]

theorem viewed_start (location : ℕ → AOILocation) :
    Viewed c (AOIRun.start location).manager (AOIRun.start location).inside := by
  refine ⟨placed_start location, ?_⟩
  intro o t _
  have hfar : ¬ Sees c (AOIRun.start location).manager (AOIRun.start location).inside o t := fun hsees =>
    Finset.notMem_empty o hsees.1
  rw [decide_eq_false hfar]
  rfl

/-- In a run that keeps to the protocol and whose steps meet the condition, what any entity receives about any
other one is well formed. -/
theorem notices_well_formed {location : ℕ → AOILocation} {ops : List AOIOp}
    (hrun : exec (protocolStep c) (.start location) ops = some s)
    (hok : Guarded (protocolStep c) (viewOk c) (.start location) ops) {o t : ℕ} (hne : o ≠ t) :
    WellFormed s.manager o t := by
  have hkept : ∀ s op t, Viewed c s.manager s.inside → viewOk c s op → protocolStep c s op = some t →
      Viewed c t.manager t.inside := by
    intro s op t h hok hstep
    simp only [protocolStep, Option.ite_none_right_eq_some] at hstep
    obtain ⟨u, hu, hviewed⟩ := viewed_step h hstep.1 hok
    rwa [Option.some.inj (hstep.2.symm.trans hu)]
  have hend : Viewed c s.manager s.inside := invariant_of_guarded hkept (viewed_start location) hok hrun
  rw [WellFormed, hend.seen o t hne]
  rfl

end Runs

/-- An entity arrives near another one that does not have it near, moves in its grid and to the next one, and
leaves. -/
def viewSample : List AOIOp :=
  [.enter 1 ⟨0, 0, 0⟩, .enter 2 ⟨3, 0, 0⟩, .move 2 ⟨4, 0, 0⟩ [⟨4, 0, 0⟩, ⟨4, 3, 0⟩], .leave 2]

def viewEnd : AOIRun :=
  (exec (protocolStep senceSample) (.start locationSample) viewSample).get (by decide +kernel)

theorem notices_well_formed_sample :
    WellFormed viewEnd.manager 1 2 ∧ sights viewEnd.manager 1 2 = [.enter, .move, .move, .leave] := by
  have hok : Guarded (protocolStep senceSample) (viewOk senceSample) (.start locationSample) viewSample := by
    decide +kernel
  exact ⟨notices_well_formed (Option.some_get _).symm hok (by decide), by decide +kernel⟩

/-- Three grids along `x`. -/
def longSence : AOISence := ⟨⟨0, 15, 10, 0, 10, 0⟩, gridSample⟩

def movedAway : AOIRun := (exec (protocolStep longSence) (.start locationSample)
  [.enter 1 ⟨0, 0, 0⟩, .enter 2 ⟨5, 0, 0⟩, .move 2 ⟨10, 0, 0⟩ [⟨10, 0, 0⟩]]).get (by decide +kernel)

/-- An entity moves out of sight: the observer is told that it left and then that it moved. -/
theorem not_notices_well_formed :
    ¬ ∀ (c : AOISence) (location : ℕ → AOILocation) (ops : List AOIOp) (s : AOIRun) (o t : ℕ),
      exec (protocolStep c) (.start location) ops = some s → o ≠ t → WellFormed s.manager o t := by
  intro h
  have hview := h longSence locationSample _ movedAway 1 2 (Option.some_get _).symm (by decide)
  have hsights : sights movedAway.manager 1 2 = [.enter, .leave, .move] := by decide +kernel
  rw [WellFormed, hsights] at hview
  exact absurd hview (by decide)

end Chaos.AOIViews
