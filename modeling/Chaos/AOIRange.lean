import Chaos.AOIPlacement
import Chaos.GridCells
import Chaos.Word32

/-!
# A grid for every position

How many grids the constructor allocates along an axis and the index that `GetGridIdxByPos` finds there,
with the conversions to `uint32` and `int`. The index is rounded up, so a position behind the last
border inside the scene has no grid.
-/
namespace Chaos.AOIRange

open GridCells Word32 AOISence

/-- The index of a position on an axis, as the `int` that it is stored in. -/
def gridIdx (left : ℚ) (grid : ℕ) (pos : ℚ) : Option ℤ := (ceil32 ((pos - left) / grid)).map toInt

/-- The index is one of the grids. -/
def Allocated (left right : ℚ) (grid : ℕ) (pos : ℚ) : Prop :=
  ∃ pieces ∈ allocated left right grid, ∃ idx ∈ gridIdx left grid pos, 0 ≤ idx ∧ idx < pieces

/-- A scene that a `uint32` and an `int` can count, and a border between two grids at or behind the position
unless it lies on the left end. -/
def AxisOk (left right : ℚ) (grid : ℕ) (pos : ℚ) : Prop :=
  right - left ≤ 4294967295 ∧
    (pos = left ∨ right - left ≤ grid * 2147483647 ∧ ∃ k : ℕ, pos ≤ left + grid * k ∧ left + grid * k < right)

section Axis
variable {left right pos x : ℚ} {grid n : ℕ}

theorem ceil32_of_nonneg (h : 0 ≤ x) : ceil32 x = if x ≤ 4294967295 then some ⌈x⌉₊ else none := by
  have hceil : x.ceil < word32 ↔ x ≤ 4294967295 := by
    rw [word32, Nat.cast_ofNat, ← Int.le_sub_one_iff, Rat.ceil_le_iff]
    norm_num
  have hnonneg : 0 ≤ x.ceil := by
    have hlt : (-1 : ℤ) < x.ceil := Rat.lt_ceil_iff.mpr (by push_cast; linarith)
    omega
  rw [ceil32, toNat_ceil]
  simp only [hceil, hnonneg, true_and]

theorem toInt_of_lt (h : n < 2147483648) : toInt n = n := if_pos h

theorem toInt_neg (h : 2147483648 ≤ n) (hn : n < word32) : toInt n < 0 := by
  rw [toInt, if_neg (not_lt.mpr h)]
  omega

/-- What the constructor makes of the number of pieces. -/
theorem pieces_eq (hn : n < word32) :
    (if toInt n ≤ 0 then 1 else (toInt n).toNat) = if n < 2147483648 then max 1 n else 1 := by
  by_cases h : n < 2147483648
  · rw [toInt_of_lt h, if_pos h]
    split_ifs <;> omega
  · have hneg := toInt_neg (not_lt.mp h) hn
    rw [if_neg h, if_pos hneg.le]

theorem allocated_eq (hgrid : 0 < grid) (hsize : 0 ≤ right - left) (hfit : right - left ≤ 4294967295) :
    allocated left right grid =
      some (if ⌈right - left⌉₊ ⌈/⌉ grid < 2147483648 then max 1 (⌈right - left⌉₊ ⌈/⌉ grid) else 1) := by
  have hceil : ⌈right - left⌉₊ < word32 := by
    rw [word32, Nat.lt_succ_iff, Nat.ceil_le]
    exact_mod_cast hfit
  rw [allocated, ceil32_of_nonneg hsize, if_pos hfit, Option.map_some, div_add_eq_ceilDiv hgrid]
  rw [pieces_eq (lt_of_le_of_lt (ceilDiv_le_self hgrid) hceil)]

/-- The index is below the number of grids where it is 0 or the number is one that an `int` holds. -/
theorem idx_lt_iff (hn : n < word32) {k : ℕ} (hk : k ≤ n) :
    (0 ≤ toInt k ∧ toInt k < ((if n < 2147483648 then max 1 n else 1 : ℕ) : ℤ)) ↔
      k = 0 ∨ n < 2147483648 ∧ k < n := by
  by_cases hint : k < 2147483648
  · rw [toInt_of_lt hint]
    split_ifs <;> omega
  · have hneg := toInt_neg (not_lt.mp hint) (by omega)
    omega

theorem gridIdx_eq (hgrid : 0 < grid) (hleft : left ≤ pos) (hright : pos ≤ right)
    (hfit : right - left ≤ 4294967295) : gridIdx left grid pos = some (toInt ⌈(pos - left) / grid⌉₊) := by
  have hone : (1 : ℚ) ≤ grid := Nat.one_le_cast.mpr hgrid
  have hnonneg : 0 ≤ (pos - left) / grid := div_nonneg (sub_nonneg.mpr hleft) (by linarith)
  have hle : (pos - left) / grid ≤ right - left :=
    (div_le_self (sub_nonneg.mpr hleft) hone).trans (by linarith)
  rw [gridIdx, ceil32_of_nonneg hnonneg, if_pos (hle.trans hfit), Option.map_some]

theorem allocated_iff (hgrid : 0 < grid) (hleft : left ≤ pos) (hright : pos ≤ right) :
    Allocated left right grid pos ↔ AxisOk left right grid pos := by
  have hsize : 0 ≤ right - left := by linarith
  by_cases hfit : right - left ≤ 4294967295
  · have hceil : ⌈right - left⌉₊ < word32 := by
      rw [word32, Nat.lt_succ_iff, Nat.ceil_le]
      exact_mod_cast hfit
    have hn : ⌈right - left⌉₊ ⌈/⌉ grid < word32 := lt_of_le_of_lt (ceilDiv_le_self hgrid) hceil
    have hk : ⌈(pos - left) / grid⌉₊ ≤ ⌈right - left⌉₊ ⌈/⌉ grid :=
      ceil_div_le_ceilDiv hgrid (by linarith)
    have hzero : ⌈(pos - left) / grid⌉₊ = 0 ↔ pos = left := by
      have hpos : (0 : ℚ) < grid := Nat.cast_pos.mpr hgrid
      rw [Nat.ceil_eq_zero, div_le_iff₀ hpos, zero_mul, sub_nonpos]
      exact ⟨fun h => le_antisymm h hleft, le_of_eq⟩
    have hcount : ⌈right - left⌉₊ ⌈/⌉ grid < 2147483648 ↔ right - left ≤ grid * 2147483647 := by
      rw [Nat.lt_succ_iff, ceil_ceilDiv_le_iff hgrid, Nat.cast_ofNat]
    have hborder : ⌈(pos - left) / grid⌉₊ < ⌈right - left⌉₊ ⌈/⌉ grid ↔
        ∃ k : ℕ, pos ≤ left + grid * k ∧ left + grid * k < right := by
      rw [ceil_div_lt_iff hgrid]
      refine exists_congr fun k => and_congr ?_ ?_
      · exact sub_le_iff_le_add'
      · exact lt_sub_iff_add_lt'
    simp only [Allocated, allocated_eq hgrid hsize hfit, gridIdx_eq hgrid hleft hright hfit, Option.mem_def,
      Option.some.injEq, exists_eq_left', idx_lt_iff hn hk, AxisOk]
    rw [hzero, hcount, hborder, and_iff_right hfit]
  · constructor
    · rintro ⟨pieces, hpieces, -⟩
      rw [allocated, ceil32_of_nonneg hsize, if_neg hfit] at hpieces
      exact absurd hpieces (Option.not_mem_none pieces)
    · intro h
      exact absurd h.1 hfit

theorem maxPiece_eq (hgrid : 0 < grid) (hsize : 0 ≤ right - left) (hfit : right - left ≤ 4294967295) :
    maxPiece left right grid =
      if ⌈right - left⌉₊ ⌈/⌉ grid < 2147483648 then max 1 (⌈right - left⌉₊ ⌈/⌉ grid) else 1 := by
  rw [maxPiece, allocated_eq hgrid hsize hfit, Option.getD_some]

/-- The conversion of the index to an `int` makes no difference. -/
theorem lt_maxPiece_iff (hgrid : 0 < grid) (hleft : left ≤ pos) (hright : pos ≤ right) :
    ((pos - left) / grid).ceil.toNat < maxPiece left right grid ↔ Allocated left right grid pos := by
  have hsize : 0 ≤ right - left := by linarith
  by_cases hfit : right - left ≤ 4294967295
  · have hceil : ⌈right - left⌉₊ < word32 := by
      rw [word32, Nat.lt_succ_iff, Nat.ceil_le]
      exact_mod_cast hfit
    have hn : ⌈right - left⌉₊ ⌈/⌉ grid < word32 := lt_of_le_of_lt (ceilDiv_le_self hgrid) hceil
    have hk : ⌈(pos - left) / grid⌉₊ ≤ ⌈right - left⌉₊ ⌈/⌉ grid :=
      ceil_div_le_ceilDiv hgrid (by linarith)
    simp only [Allocated, allocated_eq hgrid hsize hfit, gridIdx_eq hgrid hleft hright hfit, Option.mem_def,
      Option.some.injEq, exists_eq_left', idx_lt_iff hn hk]
    rw [maxPiece_eq hgrid hsize hfit, toNat_ceil]
    split_ifs <;> omega
  · have hnone : allocated left right grid = none := by
      rw [allocated, ceil32_of_nonneg hsize, if_neg hfit, Option.map_none]
    rw [maxPiece, Allocated, hnone]
    simp

end Axis

/-! ### The three axes -/

section Scene
variable (c : AOISence) (pos : AOILocation)

/-- `GetGridIdxByPos` finds an index on each axis that the constructor has allocated, so `GetGridByPos` stays
inside `m_grids`. -/
def HasGrid : Prop :=
  Allocated c.senceRange.xleft c.senceRange.xright c.gridSize.length pos.x ∧
    Allocated c.senceRange.ybottom c.senceRange.ytop c.gridSize.width pos.y ∧
    Allocated c.senceRange.zbottom c.senceRange.ztop c.gridSize.high pos.z

def AxesOk : Prop :=
  AxisOk c.senceRange.xleft c.senceRange.xright c.gridSize.length pos.x ∧
    AxisOk c.senceRange.ybottom c.senceRange.ytop c.gridSize.width pos.y ∧
    AxisOk c.senceRange.zbottom c.senceRange.ztop c.gridSize.high pos.z

variable {c pos}

theorem checkPos_iff : c.checkPos pos = true ↔
    (c.senceRange.xleft ≤ pos.x ∧ pos.x ≤ c.senceRange.xright) ∧
      (c.senceRange.ybottom ≤ pos.y ∧ pos.y ≤ c.senceRange.ytop) ∧
      (c.senceRange.zbottom ≤ pos.z ∧ pos.z ≤ c.senceRange.ztop) := by
  simp only [AOISence.checkPos, gt_iff_lt, Bool.not_eq_true', Bool.or_eq_false_iff, decide_eq_false_iff_not,
    not_lt]
  tauto

/-- A position that `CheckPos` accepts has a grid exactly where each of its axes is as `AxisOk` says. -/
theorem admitted_has_grid_iff (hpos : c.checkPos pos = true) : HasGrid c pos ↔ AxesOk c pos := by
  obtain ⟨⟨hleft, hright⟩, ⟨hbottom, htop⟩, hlow, hhigh⟩ := checkPos_iff.mp hpos
  obtain ⟨hlength, hwidth, hz⟩ := c.gridSize.pos
  exact and_congr (allocated_iff hlength hleft hright)
    (and_congr (allocated_iff hwidth hbottom htop) (allocated_iff hz hlow hhigh))

/-- These are the positions of the scene for which `GetGridByPos` has a grid. -/
theorem getGridByPos_isSome_iff (hpos : c.checkPos pos = true) : (c.getGridByPos pos).isSome ↔ HasGrid c pos := by
  obtain ⟨⟨hleft, hright⟩, ⟨hbottom, htop⟩, hlow, hhigh⟩ := checkPos_iff.mp hpos
  obtain ⟨hlength, hwidth, hhigh'⟩ := c.gridSize.pos
  rw [HasGrid, ← lt_maxPiece_iff hlength hleft hright, ← lt_maxPiece_iff hwidth hbottom htop,
    ← lt_maxPiece_iff hhigh' hlow hhigh]
  simp only [AOISence.getGridByPos, AOISence.hasGrid, hpos, Bool.true_and, Option.isSome_ite,
    Bool.and_eq_true, decide_eq_true_eq, and_assoc]
  rfl

end Scene

theorem admitted_has_grid_sample :
    HasGrid AOIPlacement.senceSample ⟨5, 0, 3⟩ ∧ ¬ HasGrid AOIPlacement.senceSample ⟨5, 0, 6⟩ := by
  have hleft : AxisOk 0 10 5 0 := ⟨by norm_num, .inl rfl⟩
  have hinner : AxisOk 0 10 5 3 := ⟨by norm_num, .inr ⟨by norm_num, 1, by norm_num, by norm_num⟩⟩
  have hborder : AxisOk 0 10 5 5 := ⟨by norm_num, .inr ⟨by norm_num, 1, by norm_num, by norm_num⟩⟩
  have hlast : ¬ AxisOk 0 10 5 6 := by
    rintro ⟨-, heq | ⟨-, k, hk, hlt⟩⟩
    · norm_num at heq
    · have hk' : (1 : ℚ) < k := by push_cast at hk; linarith
      have hk'' : (k : ℚ) < 2 := by push_cast at hlt; linarith
      norm_cast at hk' hk''
      omega
  exact ⟨(admitted_has_grid_iff (by decide +kernel)).mpr ⟨hborder, hleft, hinner⟩,
    fun h => hlast ((admitted_has_grid_iff (by decide +kernel)).mp h).2.2⟩

/-- The corner of a scene with two grids on each axis has the index 2. -/
theorem not_admitted_has_grid :
    ¬ ∀ (c : AOISence) (pos : AOILocation), c.checkPos pos = true → HasGrid c pos := by
  intro h
  obtain ⟨⟨pieces, hpieces, idx, hidx, -, hlt⟩, -⟩ :=
    h AOIPlacement.senceSample ⟨10, 10, 10⟩ (by decide +kernel)
  have hpieces' : allocated 0 10 5 = some 2 := by decide +kernel
  have hidx' : gridIdx 0 5 10 = some 2 := by decide +kernel
  obtain rfl : 2 = pieces := Option.some.inj (hpieces'.symm.trans hpieces)
  obtain rfl : 2 = idx := Option.some.inj (hidx'.symm.trans hidx)
  omega

end Chaos.AOIRange
