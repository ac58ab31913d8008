import Mathlib.Order.Antisymmetrization
import Mathlib.Order.RelClasses

/-!
# The levels of a weak order

A comparison that is a strict weak order puts the elements on levels: two are on one level when neither is
before the other. The levels are in a linear order, and the comparison is the comparison of the levels.
-/
namespace Chaos.WeakOrder

variable {α : Type*}

/-- The relation of a comparison. -/
def Before (cmp : α → α → Bool) (a b : α) : Prop := cmp a b = true

variable (cmp : α → α → Bool) [IsStrictWeakOrder α (Before cmp)] {a b c : α}

theorem not_before_self (a : α) : cmp a a = false := by
  have hirrefl : ¬ Before cmp a a := irrefl a
  exact Bool.eq_false_iff.mpr hirrefl

variable {cmp}

theorem before_trans (hab : cmp a b = true) (hbc : cmp b c = true) : cmp a c = true :=
  IsTrans.trans (r := Before cmp) a b c hab hbc

theorem not_before_of_before (hab : cmp a b = true) : cmp b a = false := by
  apply Bool.eq_false_iff.mpr
  intro hba
  have haa := before_trans hab hba
  rw [not_before_self cmp a] at haa
  exact Bool.false_ne_true haa

/-- What is not after `b` is not after what `b` is not after. -/
theorem not_before_trans (hba : cmp b a = false) (hcb : cmp c b = false) : cmp c a = false := by
  apply Bool.eq_false_iff.mpr
  intro hca
  have hbc : cmp b c = false := by
    apply Bool.eq_false_iff.mpr
    intro hbc
    rw [before_trans hbc hca] at hba
    exact Bool.false_ne_true hba.symm
  have hab : cmp a b = false := by
    apply Bool.eq_false_iff.mpr
    intro hab
    rw [before_trans hca hab] at hcb
    exact Bool.false_ne_true hcb.symm
  have hlevel := @IsStrictWeakOrder.incomp_trans α (Before cmp) _ c b a
    ⟨Bool.eq_false_iff.mp hcb, Bool.eq_false_iff.mp hbc⟩ ⟨Bool.eq_false_iff.mp hba, Bool.eq_false_iff.mp hab⟩
  exact hlevel.1 hca

/-- The elements under the order of `cmp`. -/
def Ordered (_ : α → α → Bool) : Type _ := α

instance : Preorder (Ordered cmp) where
  le a b := cmp b a = false
  lt a b := cmp a b = true
  le_refl := not_before_self cmp
  le_trans _ _ _ hab hbc := not_before_trans (α := α) hab hbc
  lt_iff_le_not_ge _ _ := by
    constructor
    · intro hab
      exact ⟨not_before_of_before (α := α) hab, fun hba => Bool.false_ne_true (hba.symm.trans hab)⟩
    · intro h
      exact Bool.eq_true_of_not_eq_false h.2

instance : DecidableLE (Ordered cmp) := fun a b => instDecidableEqBool (cmp b a) false

instance : DecidableLT (Ordered cmp) := fun a b => instDecidableEqBool (cmp a b) true

instance : @Std.Total (Ordered cmp) (· ≤ ·) where
  total a b := by
    cases hba : cmp b a with
    | false => exact Or.inl hba
    | true => exact Or.inr (not_before_of_before (α := α) hba)

variable (cmp)

/-- Elements that the comparison does not tell apart are on one level. -/
abbrev Level : Type _ := Antisymmetrization (Ordered cmp) (· ≤ ·)

def level (a : α) : Level cmp := @toAntisymmetrization (Ordered cmp) (· ≤ ·) inferInstance a

theorem level_le : level cmp a ≤ level cmp b ↔ cmp b a = false := Iff.rfl

theorem level_lt : level cmp a < level cmp b ↔ cmp a b = true := Iff.rfl

end Chaos.WeakOrder
