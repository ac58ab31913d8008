import Mathlib.Algebra.Order.Floor.Div
import Mathlib.Algebra.Order.Floor.Semifield
import Mathlib.Data.Nat.Cast.Order.Field
import Mathlib.Data.Rat.Floor

/-!
# Cells of a uniform grid

An axis is cut into pieces of one length, and a point has the number of the piece that ends at or after
it. Two cells are beside each other where their numbers differ by at most one.
-/
namespace Chaos.GridCells

/-! ### Pieces of an axis -/

section Pieces
variable {α : Type*} [Field α] [LinearOrder α] [FloorSemiring α] {x y : α} {g k n : ℕ}

/-- The quotient, one more where the division leaves a remainder. -/
theorem div_add_eq_ceilDiv (hg : 0 < g) : n / g + (if 0 < n % g then 1 else 0) = n ⌈/⌉ g := by
  apply eq_of_forall_ge_iff
  intro k
  have hdiv := Nat.div_add_mod n g
  have hlt := Nat.mod_lt n hg
  rw [ceilDiv_le_iff_le_mul hg]
  split_ifs with hmod
  · constructor
    · intro h
      have hmul : g * (n / g + 1) ≤ g * k := Nat.mul_le_mul_left g h
      rw [Nat.mul_add] at hmul
      omega
    · intro h
      have hmul : g * (n / g) < g * k := by omega
      exact Nat.lt_of_mul_lt_mul_left hmul
  · rw [Nat.add_zero]
    constructor
    · intro h
      have hmul : g * (n / g) ≤ g * k := Nat.mul_le_mul_left g h
      omega
    · intro h
      exact Nat.le_of_mul_le_mul_left (by omega) hg

theorem ceilDiv_le_self (hg : 0 < g) : n ⌈/⌉ g ≤ n :=
  (ceilDiv_le_iff_le_mul hg).mpr (Nat.le_mul_of_pos_left n hg)

/-- Rounding the length up first does not change the number of pieces. -/
theorem ceil_ceilDiv_le_iff (hg : 0 < g) : ⌈x⌉₊ ⌈/⌉ g ≤ k ↔ x ≤ g * k := by
  rw [ceilDiv_le_iff_le_mul hg, Nat.ceil_le, Nat.cast_mul]

theorem lt_ceil_ceilDiv_iff (hg : 0 < g) : k < ⌈x⌉₊ ⌈/⌉ g ↔ g * k < x := by
  rw [← not_le, ceil_ceilDiv_le_iff hg, not_le]

variable [IsStrictOrderedRing α]

/-- The piece that ends at or after the point is one of the pieces exactly where it ends before the axis does. -/
theorem ceil_div_lt_iff (hg : 0 < g) : ⌈y / g⌉₊ < ⌈x⌉₊ ⌈/⌉ g ↔ ∃ k : ℕ, y ≤ g * k ∧ g * k < x := by
  have hpos : (0 : α) < g := Nat.cast_pos.mpr hg
  constructor
  · intro h
    refine ⟨⌈y / g⌉₊, ?_, (lt_ceil_ceilDiv_iff hg).mp h⟩
    rw [mul_comm, ← div_le_iff₀ hpos]
    exact Nat.le_ceil _
  · rintro ⟨k, hy, hx⟩
    have hk : ⌈y / g⌉₊ ≤ k := by
      rw [Nat.ceil_le, div_le_iff₀ hpos, mul_comm]
      exact hy
    exact lt_of_le_of_lt hk ((lt_ceil_ceilDiv_iff hg).mpr hx)

theorem ceil_div_le_ceilDiv (hg : 0 < g) (h : y ≤ x) : ⌈y / g⌉₊ ≤ ⌈x⌉₊ ⌈/⌉ g := by
  have hpos : (0 : α) < g := Nat.cast_pos.mpr hg
  rw [Nat.ceil_le, div_le_iff₀ hpos, mul_comm]
  exact h.trans ((ceil_ceilDiv_le_iff hg).mp le_rfl)

end Pieces

theorem toNat_ceil (x : ℚ) : x.ceil.toNat = ⌈x⌉₊ := by
  apply eq_of_forall_ge_iff
  intro k
  rw [Int.toNat_le, Rat.ceil_le_iff, Nat.ceil_le, Int.cast_natCast]

/-! ### Cells of three axes -/

def Beside (i j : ℕ) : Prop := |(i : ℤ) - j| ≤ 1

theorem beside_iff {i j : ℕ} : Beside i j ↔ i ≤ j + 1 ∧ j ≤ i + 1 := by
  rw [Beside, abs_le]
  omega

instance (i j : ℕ) : Decidable (Beside i j) := decidable_of_iff _ beside_iff.symm

inductive Axis where
  | x
  | y
  | z
  deriving DecidableEq

namespace Axis

def get : Axis → ℕ × ℕ × ℕ → ℕ
  | x, g => g.1
  | y, g => g.2.1
  | z, g => g.2.2

/-- The cell with another number on one axis. -/
def set : Axis → ℕ × ℕ × ℕ → ℕ → ℕ × ℕ × ℕ
  | x, g, i => (i, g.2)
  | y, g, i => (g.1, i, g.2.2)
  | z, g, i => (g.1, g.2.1, i)

theorem get_set_self (a : Axis) (g : ℕ × ℕ × ℕ) (i : ℕ) : a.get (a.set g i) = i := by
  cases a <;> rfl

theorem get_set_of_ne {a b : Axis} (h : b ≠ a) (g : ℕ × ℕ × ℕ) (i : ℕ) : b.get (a.set g i) = b.get g := by
  cases a <;> cases b <;> first | rfl | exact absurd rfl h

theorem forall_iff {P : Axis → Prop} : (∀ a, P a) ↔ P x ∧ P y ∧ P z := by
  constructor
  · intro h
    exact ⟨h x, h y, h z⟩
  · intro h a
    cases a with
    | x => exact h.1
    | y => exact h.2.1
    | z => exact h.2.2

/-- What holds of a cell on every axis holds of a changed cell where it holds of the new number. -/
theorem forall_get_set (R : Axis → ℕ → Prop) {g : ℕ × ℕ × ℕ} (hg : ∀ b, R b (b.get g)) (a : Axis) (i : ℕ) :
    (∀ b, R b (b.get (a.set g i))) ↔ R a i := by
  constructor
  · intro h
    exact get_set_self a g i ▸ h a
  · intro h b
    rcases eq_or_ne b a with rfl | hne
    · rwa [get_set_self]
    · rw [get_set_of_ne hne]
      exact hg b

end Axis

/-- The cells around a cell are the cube of three in each direction. -/
def Around (g h : ℕ × ℕ × ℕ) : Prop := Beside g.1 h.1 ∧ Beside g.2.1 h.2.1 ∧ Beside g.2.2 h.2.2

instance (g h : ℕ × ℕ × ℕ) : Decidable (Around g h) := inferInstanceAs (Decidable (_ ∧ _ ∧ _))

theorem Around.refl (g : ℕ × ℕ × ℕ) : Around g g := by
  simp [Around, beside_iff]

/-- The half of `Beside` that does not look ahead. -/
def Trails (i j : ℕ) : Prop := i ≤ j ∧ j ≤ i + 1

theorem Trails.antisymm {i j : ℕ} (h : Trails i j) (h' : Trails j i) : i = j := le_antisymm h.1 h'.1

/-- In a row of more than one cell each cell has another one on one side. -/
theorem exists_trails {i n : ℕ} (hi : i < n) (hn : n ≠ 1) : ∃ j < n, j ≠ i ∧ (Trails j i ∨ Trails i j) := by
  rcases Nat.eq_zero_or_pos i with rfl | hpos
  · exact ⟨1, by omega, by omega, .inr ⟨by omega, by omega⟩⟩
  · exact ⟨i - 1, by omega, by omega, .inl ⟨by omega, by omega⟩⟩

/-- A cell that looks back and not ahead sees what is beside it only at the end of its row. -/
theorem beside_eq_trails_iff {i n : ℕ} (hi : i < n) :
    (∀ j < n, (Trails j i ↔ Beside j i)) ↔ i + 1 = n := by
  constructor
  · intro h
    by_contra hne
    have hnext := (h (i + 1) (by omega)).mpr (beside_iff.mpr ⟨le_rfl, by omega⟩)
    exact absurd hnext.1 (by omega)
  · intro hlast j hj
    rw [Trails, beside_iff]
    omega

section Boxes
variable {g h n : ℕ × ℕ × ℕ}

theorem around_iff : Around g h ↔ ∀ a : Axis, Beside (a.get g) (a.get h) := by
  rw [Axis.forall_iff]
  rfl

/-- In a box, looking back along every axis finds the cells around a cell just when it is the last one on
every axis. -/
theorem trails_eq_around_iff (hg : ∀ a : Axis, a.get g < a.get n) :
    (∀ h : ℕ × ℕ × ℕ, (∀ a : Axis, a.get h < a.get n) →
      ((∀ a : Axis, Trails (a.get h) (a.get g)) ↔ Around h g)) ↔ ∀ a : Axis, a.get g + 1 = a.get n := by
  have hself (i : ℕ) : Trails i i := ⟨le_rfl, Nat.le_succ i⟩
  have hbeside (i : ℕ) : Beside i i := beside_iff.mpr ⟨Nat.le_succ i, Nat.le_succ i⟩
  constructor
  · intro h a
    refine (beside_eq_trails_iff (hg a)).mp fun j hj => ?_
    -- the other two numbers stay those of the cell
    have hcell := h (a.set g j) ((Axis.forall_get_set (fun b i => i < b.get n) hg a j).mpr hj)
    rw [around_iff] at hcell
    rwa [Axis.forall_get_set (fun b i => Trails i (b.get g)) (fun b => hself (b.get g)),
      Axis.forall_get_set (fun b i => Beside i (b.get g)) (fun b => hbeside (b.get g))] at hcell
  · intro hlast h hh
    rw [around_iff]
    exact forall_congr' fun a => (beside_eq_trails_iff (hg a)).mpr (hlast a) (a.get h) (hh a)

/-- In a box, looking back is symmetric at a cell just when the box has no other cell. -/
theorem trails_symm_iff (hg : ∀ a : Axis, a.get g < a.get n) :
    (∀ h : ℕ × ℕ × ℕ, (∀ a : Axis, a.get h < a.get n) →
      ((∀ a : Axis, Trails (a.get h) (a.get g)) ↔ ∀ a : Axis, Trails (a.get g) (a.get h))) ↔
      ∀ a : Axis, a.get n = 1 := by
  have hself (i : ℕ) : Trails i i := ⟨le_rfl, Nat.le_succ i⟩
  constructor
  · intro h a
    by_contra hmany
    obtain ⟨j, hj, hne, hside⟩ := exists_trails (hg a) hmany
    have hcell := h (a.set g j) ((Axis.forall_get_set (fun b i => i < b.get n) hg a j).mpr hj)
    rw [Axis.forall_get_set (fun b i => Trails i (b.get g)) (fun b => hself (b.get g)),
      Axis.forall_get_set (fun b i => Trails (b.get g) i) (fun b => hself (b.get g))] at hcell
    exact hne ((hside.elim id hcell.mpr).antisymm (hside.elim hcell.mp id))
  · intro hone h hh
    refine forall_congr' fun a => ?_
    have heq : a.get h = a.get g := by
      have := hone a
      have := hg a
      have := hh a
      omega
    rw [heq]

end Boxes

end Chaos.GridCells
