import Chaos.AOIRange
import Chaos.AOIViews

/-!
# The grids around a position

`FindAroundGrids` is to find the 27 grids of the cube around a position, as far as there are grids. Its
loops end at the index of the position, so the grids ahead of it are missing.
-/
namespace Chaos.AOIAround

open GridCells

variable (c : AOISence)

/-- What `FindAroundGrids` owes at a position. -/
structure FindsCube (pos : AOILocation) : Prop where
  cube : ∀ g, g ∈ c.findAroundGrids pos ↔ c.hasGrid g = true ∧ Around g (c.getGridIdxByPos pos)
  inside : ∀ g ∈ c.findAroundGrids pos, c.hasGrid g = true
  symm : ∀ g, c.hasGrid g = true →
    (g ∈ c.aroundGrids (c.getGridIdxByPos pos) ↔ c.getGridIdxByPos pos ∈ c.aroundGrids g)

section Around
variable {c} {g h : GridIdx} {idx bound i : ℕ} {pos : AOILocation}

theorem hasGrid_iff : c.hasGrid g = true ↔ g.1 < c.xMaxPiece ∧ g.2.1 < c.yMaxPiece ∧ g.2.2 < c.zMaxPiece := by
  simp only [AOISence.hasGrid, Bool.and_eq_true, decide_eq_true_eq, and_assoc]

/-- The numbers of grids on the axes. -/
def pieces (c : AOISence) : ℕ × ℕ × ℕ := (c.xMaxPiece, c.yMaxPiece, c.zMaxPiece)

theorem hasGrid_iff_forall : c.hasGrid g = true ↔ ∀ a : Axis, a.get g < a.get (pieces c) := by
  rw [hasGrid_iff, Axis.forall_iff]
  rfl

theorem mem_around : i ∈ AOISence.around idx bound ↔ i < bound ∧ Trails i idx := by
  rw [AOISence.around, List.mem_filter, decide_eq_true_eq, Trails]
  split_ifs with hzero
  · rw [List.mem_singleton]
    omega
  · simp only [List.mem_cons, List.not_mem_nil, or_false]
    omega

/-- The third bound is one too large, which is of no effect where the index of the position is in range. -/
theorem mem_aroundGrids (hg : c.hasGrid g = true) : h ∈ c.aroundGrids g ↔
    c.hasGrid h = true ∧ ∀ a : Axis, Trails (a.get h) (a.get g) := by
  obtain ⟨x, y, z⟩ := h
  rw [Axis.forall_iff, AOISence.aroundGrids, List.pair_mem_product, List.pair_mem_product, mem_around,
    mem_around, mem_around]
  rw [hasGrid_iff] at hg ⊢
  simp only [Trails, Axis.get]
  omega

theorem aroundGrids_inside (hg : c.hasGrid g = true) : ∀ h ∈ c.aroundGrids g, c.hasGrid h = true := by
  intro h hh
  exact ((mem_aroundGrids hg).mp hh).1

/-- The position's own grid is the last one on every axis. -/
def LastGrid (c : AOISence) (g : GridIdx) : Prop :=
  g.1 + 1 = c.xMaxPiece ∧ g.2.1 + 1 = c.yMaxPiece ∧ g.2.2 + 1 = c.zMaxPiece

theorem aroundGrids_cube_iff (hg : c.hasGrid g = true) :
    (∀ h, h ∈ c.aroundGrids g ↔ c.hasGrid h = true ∧ Around h g) ↔ LastGrid c g := by
  have hlast : LastGrid c g ↔ ∀ a : Axis, a.get g + 1 = a.get (pieces c) := by
    rw [Axis.forall_iff]
    rfl
  rw [hlast, ← trails_eq_around_iff (hasGrid_iff_forall.mp hg)]
  refine forall_congr' fun h => ?_
  rw [mem_aroundGrids hg, and_congr_right_iff, hasGrid_iff_forall]

/-- The matrix has one grid. -/
def OneGrid (c : AOISence) : Prop := c.xMaxPiece = 1 ∧ c.yMaxPiece = 1 ∧ c.zMaxPiece = 1

instance (c : AOISence) : Decidable (OneGrid c) := inferInstanceAs (Decidable (_ ∧ _ ∧ _))

theorem aroundGrids_symm_iff (hg : c.hasGrid g = true) :
    (∀ h, c.hasGrid h = true → (h ∈ c.aroundGrids g ↔ g ∈ c.aroundGrids h)) ↔ OneGrid c := by
  have hone : OneGrid c ↔ ∀ a : Axis, a.get (pieces c) = 1 := by
    rw [Axis.forall_iff]
    rfl
  rw [hone, ← trails_symm_iff (hasGrid_iff_forall.mp hg)]
  refine forall_congr' fun h => ?_
  rw [← hasGrid_iff_forall]
  refine imp_congr_right fun hh => ?_
  rw [mem_aroundGrids hg, mem_aroundGrids hh, and_iff_right hh, and_iff_right hg]

theorem findAroundGrids_of_checkPos (hpos : c.checkPos pos = true) :
    c.findAroundGrids pos = c.aroundGrids (c.getGridIdxByPos pos) := if_pos hpos

theorem hasGrid_of_getGridByPos (h : c.getGridByPos pos = some g) : c.hasGrid g = true := by
  simp only [AOISence.getGridByPos, Option.ite_none_right_eq_some, Option.some.injEq, Bool.and_eq_true] at h
  exact h.2 ▸ h.1.2

/-- The grid of a position is one of those around it. -/
theorem mem_findAroundGrids_self (h : c.getGridByPos pos = some g) : g ∈ c.findAroundGrids pos := by
  have hgrid := hasGrid_of_getGridByPos h
  obtain ⟨hpos, rfl⟩ := AOIViews.getGridByPos_eq h
  rw [findAroundGrids_of_checkPos hpos, mem_aroundGrids hgrid]
  exact ⟨hgrid, fun a => ⟨le_rfl, Nat.le_succ _⟩⟩

/-- `FindAroundGrids` does what it owes at a position of the scene exactly where the matrix has one grid. -/
theorem around_is_cube_iff (hown : c.hasGrid (c.getGridIdxByPos pos) = true) :
    FindsCube c pos ↔ c.checkPos pos = true ∧ OneGrid c := by
  constructor
  · intro h
    refine ⟨?_, (aroundGrids_symm_iff hown).mp h.symm⟩
    by_contra hpos
    have hmem := (h.cube (c.getGridIdxByPos pos)).mpr ⟨hown, Around.refl _⟩
    rw [AOISence.findAroundGrids, if_neg hpos] at hmem
    exact absurd hmem List.not_mem_nil
  · rintro ⟨hpos, hone⟩
    obtain ⟨hx, hy, hz⟩ := hasGrid_iff.mp hown
    obtain ⟨honex, honey, honez⟩ := hone
    have hlast : LastGrid c (c.getGridIdxByPos pos) := ⟨by omega, by omega, by omega⟩
    constructor
    · rw [findAroundGrids_of_checkPos hpos]
      exact (aroundGrids_cube_iff hown).mpr hlast
    · rw [findAroundGrids_of_checkPos hpos]
      exact aroundGrids_inside hown
    · exact (aroundGrids_symm_iff hown).mpr ⟨honex, honey, honez⟩

end Around

/-- The matrix can have any numbers of grids that an `int` can count. -/
theorem exists_sence {x y z : ℕ} (hx : 1 ≤ x ∧ x < 2147483648) (hy : 1 ≤ y ∧ y < 2147483648)
    (hz : 1 ≤ z ∧ z < 2147483648) : ∃ c : AOISence, c.xMaxPiece = x ∧ c.yMaxPiece = y ∧ c.zMaxPiece = z := by
  have hpieces {n : ℕ} (hn : 1 ≤ n ∧ n < 2147483648) : AOISence.maxPiece 0 n 1 = n := by
    have hsize : (0 : ℚ) ≤ n - 0 := by simp
    have hfit : (n : ℚ) - 0 ≤ 4294967295 := by
      rw [sub_zero]
      exact_mod_cast hn.2.le.trans (by decide)
    rw [AOIRange.maxPiece_eq Nat.one_pos hsize hfit, sub_zero, Nat.ceil_natCast, ceilDiv_one, if_pos hn.2]
    omega
  exact ⟨⟨⟨0, x, y, 0, z, 0⟩, ⟨1, 1, 1, by decide⟩⟩, hpieces hx, hpieces hy, hpieces hz⟩

def roomSample : AOISence := ⟨⟨0, 5, 5, 0, 5, 0⟩, AOIPlacement.gridSample⟩

theorem around_is_cube_sample :
    FindsCube roomSample ⟨0, 0, 0⟩ ∧ ¬ FindsCube AOIPlacement.senceSample ⟨5, 5, 5⟩ :=
  ⟨(around_is_cube_iff (by decide +kernel)).mpr ⟨by decide +kernel, by decide +kernel⟩,
    fun h => absurd ((around_is_cube_iff (by decide +kernel)).mp h).2.1 (by decide +kernel)⟩

/-- The corner of a scene with two grids on each axis does not find its seven neighbours. -/
theorem not_around_is_cube :
    ¬ ∀ (c : AOISence) (pos : AOILocation), c.checkPos pos = true →
      c.hasGrid (c.getGridIdxByPos pos) = true → FindsCube c pos := by
  intro h
  have hcube := (h AOIPlacement.senceSample ⟨0, 0, 0⟩ (by decide +kernel) (by decide +kernel)).cube (1, 1, 1)
  have hnext := hcube.mpr ⟨by decide +kernel, by decide +kernel⟩
  have hmiss : ((1, 1, 1) : GridIdx) ∉ AOIPlacement.senceSample.findAroundGrids ⟨0, 0, 0⟩ := by decide +kernel
  exact hmiss hnext

end Chaos.AOIAround
