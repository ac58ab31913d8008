import Mathlib.Order.Basic
import Mathlib.Tactic.Ring
import Mathlib.Logic.Function.Basic

/-!
# Heap order with expiring keys

A binary tree on the positions from 1 on, whose cells hold keys that may be gone (`none`). Two keys are
in order when one of them is gone, so the order between live keys is asked for along every path and
not only between neighbours. Sifting moves a hole; `UpOrder` and `DownOrder` are what holds around it.
-/
namespace Chaos.ExpiringHeap

variable {K : Type*} [LinearOrder K]

/-- `i` lies strictly above `j`. -/
def Above (i j : ℕ) : Prop := 0 < i ∧ ∃ k < j, j / 2 ^ (k + 1) = i

instance (i j : ℕ) : Decidable (Above i j) := by
  unfold Above
  infer_instance

theorem above_iff {i j : ℕ} : Above i j ↔ 2 ≤ j ∧ (i = j / 2 ∨ Above i (j / 2)) := by
  constructor
  · rintro ⟨hi, k, hk, hj⟩
    cases k with
    | zero =>
      rw [Nat.zero_add, Nat.pow_one] at hj
      exact ⟨by omega, Or.inl hj.symm⟩
    | succ k =>
      rw [Nat.pow_succ, Nat.mul_comm, ← Nat.div_div_eq_div_mul] at hj
      have hpow : 2 ^ (k + 1) ≤ j / 2 := by
        by_contra hlt
        rw [Nat.div_eq_of_lt (by omega)] at hj
        omega
      have hk' : k + 1 < 2 ^ (k + 1) := Nat.lt_two_pow_self
      exact ⟨by omega, Or.inr ⟨hi, k, by omega, hj⟩⟩
  · rintro ⟨hj, rfl | ⟨hi, k, hk, hkj⟩⟩
    · exact ⟨by omega, 0, by omega, by rw [Nat.zero_add, Nat.pow_one]⟩
    · refine ⟨hi, k + 1, by omega, ?_⟩
      rw [Nat.pow_succ, Nat.mul_comm, ← Nat.div_div_eq_div_mul]
      exact hkj

theorem above_half {j : ℕ} (h : 2 ≤ j) : Above (j / 2) j := above_iff.mpr ⟨h, Or.inl rfl⟩

theorem Above.lt {i j : ℕ} (h : Above i j) : i < j := by
  induction j using Nat.strong_induction_on with
  | _ j ih =>
    obtain ⟨hj, rfl | h⟩ := above_iff.mp h
    · omega
    · have hlt := ih (j / 2) (by omega) h
      omega

theorem Above.trans {i j k : ℕ} (hij : Above i j) (hjk : Above j k) : Above i k := by
  induction k using Nat.strong_induction_on with
  | _ k ih =>
    obtain ⟨hk, rfl | h⟩ := above_iff.mp hjk
    · exact above_iff.mpr ⟨hk, Or.inr hij⟩
    · exact above_iff.mpr ⟨hk, Or.inr (ih (k / 2) (by omega) h)⟩

theorem above_one {j : ℕ} (h : 2 ≤ j) : Above 1 j := by
  induction j using Nat.strong_induction_on with
  | _ j ih =>
    apply above_iff.mpr
    rcases Nat.lt_or_ge (j / 2) 2 with hlt | hge
    · exact ⟨h, Or.inl (by omega)⟩
    · exact ⟨h, Or.inr (ih (j / 2) (by omega) hge)⟩

theorem above_child {i c : ℕ} (hi : 0 < i) (hc : c = i * 2 ∨ c = i * 2 + 1) : Above i c :=
  above_iff.mpr ⟨by omega, Or.inl (by omega)⟩

/-- What lies below a position is a child of it or below a child. -/
theorem Above.child_cases {i j : ℕ} (h : Above i j) :
    ∃ c, (c = i * 2 ∨ c = i * 2 + 1) ∧ (j = c ∨ Above c j) := by
  induction j using Nat.strong_induction_on with
  | _ j ih =>
    obtain ⟨hj, rfl | h⟩ := above_iff.mp h
    · exact ⟨j, by omega, Or.inl rfl⟩
    · obtain ⟨c, hc, rfl | hcj⟩ := ih (j / 2) (by omega) h
      · exact ⟨j / 2, hc, Or.inr (above_half hj)⟩
      · exact ⟨c, hc, Or.inr (above_iff.mpr ⟨hj, Or.inr hcj⟩)⟩

/-- In order, as far as both keys are there. -/
def LiveLe (a b : Option K) : Prop := ∀ x ∈ a, ∀ y ∈ b, x ≤ y

/-- The comparison that is false on a key that is gone. -/
def liveLt (a b : Option K) : Bool :=
  match a, b with
  | some x, some y => decide (x < y)
  | _, _ => false

instance (a b : Option K) : Decidable (LiveLe a b) := by
  unfold LiveLe
  infer_instance

@[simp] theorem liveLe_none_left (b : Option K) : LiveLe none b := by simp [LiveLe]

@[simp] theorem liveLe_none_right (a : Option K) : LiveLe a none := by simp [LiveLe]

@[simp] theorem liveLe_some {x y : K} : LiveLe (some x) (some y) ↔ x ≤ y := by simp [LiveLe]

theorem liveLt_eq_true {a b : Option K} : liveLt a b = true ↔ ∃ x y, a = some x ∧ b = some y ∧ x < y := by
  cases a <;> cases b <;> simp [liveLt]

theorem liveLe_of_liveLt {a b : Option K} (h : liveLt a b = true) : LiveLe a b := by
  obtain ⟨x, y, rfl, rfl, hlt⟩ := liveLt_eq_true.mp h
  exact liveLe_some.mpr hlt.le

theorem liveLe_of_not_liveLt {a b : Option K} (h : liveLt a b = false) : LiveLe b a := by
  cases a <;> cases b <;> simp_all [liveLt]

/-- A key in the middle that is there hands the order on. -/
theorem LiveLe.trans_some {a c : Option K} {y : K} (hab : LiveLe a (some y)) (hbc : LiveLe (some y) c) :
    LiveLe a c := by
  intro x hx z hz
  exact (hab x hx y rfl).trans (hbc y rfl z hz)

/-- In order along every path that starts at `m` or later. -/
def HeapFrom (m : ℕ) (key : ℕ → Option K) : Prop :=
  ∀ i j, m ≤ i → Above i j → LiveLe (key i) (key j)

theorem HeapFrom.mono {m n : ℕ} {key : ℕ → Option K} (h : HeapFrom m key) (hmn : m ≤ n) :
    HeapFrom n key := fun i j hi hij => h i j (hmn.trans hi) hij

/-- A key at the root that is there is the least. -/
theorem HeapFrom.root_le {key : ℕ → Option K} (h : HeapFrom 1 key) {x y : K} {j : ℕ}
    (hx : key 1 = some x) (hj : 1 ≤ j) (hy : key j = some y) : x ≤ y := by
  rcases Nat.eq_or_lt_of_le hj with rfl | hlt
  · rw [hx] at hy
    exact (Option.some.inj hy).le
  · exact h 1 j le_rfl (above_one hlt) x hx y hy

/-- Keys that go only take conditions away. -/
theorem HeapFrom.expire {m : ℕ} {key key' : ℕ → Option K} (h : HeapFrom m key)
    (hkey : ∀ i, key' i = key i ∨ key' i = none) : HeapFrom m key' := by
  intro i j hi hij
  rcases hkey i with hki | hki
  · rcases hkey j with hkj | hkj
    · rw [hki, hkj]
      exact h i j hi hij
    · simp [hkj]
  · simp [hki]

/-! ## Sifting up -/

structure UpOrder (m : ℕ) (key : ℕ → Option K) (pos : ℕ) (x : Option K) : Prop where
  pairs : ∀ i j, m ≤ i → i ≠ pos → j ≠ pos → Above i j → LiveLe (key i) (key j)
  below : ∀ j, Above pos j → LiveLe x (key j)

section Up
variable {m pos : ℕ} {key : ℕ → Option K} {x : Option K}

/-- The hole moves up past a later key. -/
theorem UpOrder.move (h : UpOrder m key pos x) (hpos : 2 ≤ pos) (hm : m ≤ pos / 2)
    (hlt : liveLt x (key (pos / 2)) = true) :
    UpOrder m (Function.update key pos (key (pos / 2))) (pos / 2) x := by
  obtain ⟨a, b, hxa, hkb, hab⟩ := liveLt_eq_true.mp hlt
  have hhalf : pos / 2 ≠ pos := by omega
  have hup := above_half hpos
  constructor
  · intro i j hi hine hjne hij
    rcases eq_or_ne i pos with rfl | hip
    · have hj : j ≠ i := Ne.symm hij.lt.ne
      rw [Function.update_self, Function.update_of_ne hj]
      exact h.pairs (i / 2) j hm hhalf hj (hup.trans hij)
    · rw [Function.update_of_ne hip]
      rcases eq_or_ne j pos with rfl | hjp
      · rw [Function.update_self]
        obtain ⟨_, rfl | hij⟩ := above_iff.mp hij
        · exact absurd rfl hine
        · exact h.pairs i (j / 2) hi hip hhalf hij
      · rw [Function.update_of_ne hjp]
        exact h.pairs i j hi hip hjp hij
  · intro j hj
    rcases eq_or_ne j pos with rfl | hjp
    · rw [Function.update_self]
      exact liveLe_of_liveLt hlt
    · rw [Function.update_of_ne hjp]
      have hle : LiveLe x (key (pos / 2)) := liveLe_of_liveLt hlt
      rw [hkb] at hle
      have hrest := h.pairs (pos / 2) j hm hhalf hjp hj
      rw [hkb] at hrest
      exact hle.trans_some hrest

/-- The hole is filled where what lies above is not later. -/
theorem UpOrder.stop (h : UpOrder m key pos x)
    (habove : ∀ i, m ≤ i → Above i pos → LiveLe (key i) x) :
    HeapFrom m (Function.update key pos x) := by
  intro i j hi hij
  rcases eq_or_ne i pos with rfl | hip
  · rw [Function.update_self, Function.update_of_ne (Ne.symm hij.lt.ne)]
    exact h.below j hij
  · rw [Function.update_of_ne hip]
    rcases eq_or_ne j pos with rfl | hjp
    · rw [Function.update_self]
      exact habove i hi hij
    · rw [Function.update_of_ne hjp]
      exact h.pairs i j hi hip hjp hij

/-- A node that stops below its parent is in order with everything above: the parent hands the order
on, and above a gone key it is asked for. -/
theorem UpOrder.above_of_stop (h : UpOrder m key pos x)
    (hstop : liveLt x (key (pos / 2)) = false)
    (hgone : ∀ e, Above e pos → key e = none → ∀ i, m ≤ i → Above i e → LiveLe (key i) x)
    (i : ℕ) (hi : m ≤ i) (hip : Above i pos) : LiveLe (key i) x := by
  obtain ⟨hpos, rfl | hup⟩ := above_iff.mp hip
  · exact liveLe_of_not_liveLt hstop
  · cases hk : key (pos / 2) with
    | none => exact hgone (pos / 2) (above_half hpos) hk i hi hup
    | some y =>
      have hle := h.pairs i (pos / 2) hi hip.lt.ne (by omega) hup
      rw [hk] at hle hstop
      exact hle.trans_some (liveLe_of_not_liveLt hstop)

end Up

/-! ## Sifting down -/

structure DownOrder (key : ℕ → Option K) (pos : ℕ) (x : Option K) : Prop where
  pairs : ∀ i j, 1 ≤ i → i ≠ pos → j ≠ pos → Above i j → LiveLe (key i) (key j)
  above : ∀ i, 1 ≤ i → Above i pos → LiveLe (key i) x

section Down
variable {pos c s : ℕ} {key : ℕ → Option K} {x : Option K}

/-- The hole moves down past an earlier key that is not later than anything on the other side. -/
theorem DownOrder.move (h : DownOrder key pos x) (hpos : 1 ≤ pos)
    (hcs : c = pos * 2 ∧ s = pos * 2 + 1 ∨ c = pos * 2 + 1 ∧ s = pos * 2)
    (hlt : liveLt (key c) x = true) (hside : LiveLe (key c) (key s))
    (hbelow : ∀ j, Above s j → LiveLe (key c) (key j)) :
    DownOrder (Function.update key pos (key c)) c x := by
  have hpc : Above pos c := above_child hpos (by omega)
  have hcp : c ≠ pos := Ne.symm hpc.lt.ne
  constructor
  · intro i j hi hic hjc hij
    rcases eq_or_ne i pos with rfl | hip
    · have hji : j ≠ i := Ne.symm hij.lt.ne
      rw [Function.update_self, Function.update_of_ne hji]
      obtain ⟨d, hd, hdj⟩ := hij.child_cases
      have hds : d = c ∨ d = s := by omega
      rcases hds with rfl | rfl
      · rcases hdj with rfl | hdj
        · exact absurd rfl hjc
        · exact h.pairs d j (by omega) hcp hji hdj
      · rcases hdj with rfl | hdj
        · exact hside
        · exact hbelow j hdj
    · rw [Function.update_of_ne hip]
      rcases eq_or_ne j pos with rfl | hjp
      · rw [Function.update_self]
        exact h.pairs i c hi hip hcp (hij.trans hpc)
      · rw [Function.update_of_ne hjp]
        exact h.pairs i j hi hip hjp hij
  · intro i hi hic
    rcases eq_or_ne i pos with rfl | hip
    · rw [Function.update_self]
      exact liveLe_of_liveLt hlt
    · rw [Function.update_of_ne hip]
      have hup : Above i pos := by
        obtain ⟨_, hhalf | hhalf⟩ := above_iff.mp hic
        · omega
        · rwa [show c / 2 = pos by omega] at hhalf
      exact h.above i hi hup

theorem DownOrder.stop (h : DownOrder key pos x) (hbelow : ∀ j, Above pos j → LiveLe x (key j)) :
    HeapFrom 1 (Function.update key pos x) := by
  intro i j hi hij
  rcases eq_or_ne i pos with rfl | hip
  · rw [Function.update_self, Function.update_of_ne (Ne.symm hij.lt.ne)]
    exact hbelow j hij
  · rw [Function.update_of_ne hip]
    rcases eq_or_ne j pos with rfl | hjp
    · rw [Function.update_self]
      exact h.above i hi hij
    · rw [Function.update_of_ne hjp]
      exact h.pairs i j hi hip hjp hij

/-- A node not later than its two children, both there, is not later than anything below. -/
theorem DownOrder.below_of_children (h : DownOrder key pos x) (hpos : 1 ≤ pos)
    (hchild : ∀ d, d = pos * 2 ∨ d = pos * 2 + 1 → LiveLe x (key d) ∧ (key d).isSome)
    (j : ℕ) (hj : Above pos j) : LiveLe x (key j) := by
  obtain ⟨d, hd, hdj⟩ := hj.child_cases
  obtain ⟨hle, hsome⟩ := hchild d hd
  rcases hdj with rfl | hdj
  · exact hle
  · obtain ⟨y, hy⟩ := Option.isSome_iff_exists.mp hsome
    have hrest := h.pairs d j (by omega) (by omega) (Ne.symm hj.lt.ne) hdj
    rw [hy] at hle hrest
    exact hle.trans_some hrest

end Down

end Chaos.ExpiringHeap
