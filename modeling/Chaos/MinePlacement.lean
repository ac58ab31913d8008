import Chaos.MineMaps
import Mathlib.Data.List.Perm.Basic

/-!
# Where the mines are placed

`CreateMap` draws by swapping out: the element that was drawn is overwritten, and the range of the next draw is
one shorter. The element that is copied is the one that left the range in the turn before, so in the first turn it
is the one behind the array. What is drawn are therefore elements of the array and of the memory after it, each at
most once.
-/
namespace Chaos.MineSweeperMgr

open scoped List

/-! ## Swapping out -/

section Draws
variable {α : Type*} {rand : ℕ → ℕ} {n m k j : ℕ}

/-- Overwriting an element with the one behind the range takes it out of the range and that one in. -/
theorem range_update_perm (cells : ℕ → α) (hj : j < m) :
    (List.range m).map (Function.update cells j (cells m)) ++ [cells j] ~ (List.range (m + 1)).map cells := by
  have hset : (List.range m).map (Function.update cells j (cells m)) =
      ((List.range m).map cells).set j (cells m) := by
    apply List.ext_getElem
    · simp
    · intro i _ _
      simp [Function.update_apply, List.getElem_set, eq_comm]
  have hlt : j < ((List.range m).map cells).length := by simpa using hj
  have helem : ((List.range m).map cells)[j] = cells j := by simp
  have hout : ((List.range m).map cells).set j (cells m) ~ cells m :: ((List.range m).map cells).eraseIdx j :=
    List.set_perm_cons_eraseIdx hlt _
  have hin := List.getElem_cons_eraseIdx_perm hlt
  rw [helem] at hin
  rw [hset, List.range_succ, List.map_append]
  calc ((List.range m).map cells).set j (cells m) ++ [cells j]
    _ ~ cells j :: ((List.range m).map cells).set j (cells m) := List.perm_append_singleton _ _
    _ ~ cells j :: cells m :: ((List.range m).map cells).eraseIdx j := hout.cons _
    _ ~ cells m :: cells j :: ((List.range m).map cells).eraseIdx j := List.Perm.swap _ _ _
    _ ~ cells m :: (List.range m).map cells := hin.cons _
    _ ~ (List.range m).map cells ++ [cells m] := (List.perm_append_singleton _ _).symm

/-- The elements in reach of the next draw and those that were drawn are the elements of the array and the one
behind it. -/
theorem draws_perm (rand : ℕ → ℕ) (cells : ℕ → α) (hk : k ≤ n) :
    (List.range (n - k + 1)).map (draws rand n cells k).1 ++ (draws rand n cells k).2 ~
      (List.range (n + 1)).map cells := by
  induction k with
  | zero => simp [draws]
  | succ k ih =>
    have hidx : rand k % (n - k) < n - k := Nat.mod_lt _ (by omega)
    have hrange : n - (k + 1) + 1 = n - k := by omega
    have hnext := ih (by omega)
    rw [hrange]
    simp only [draws]
    generalize draws rand n cells k = t at hnext
    calc (List.range (n - k)).map (Function.update t.1 (rand k % (n - k)) (t.1 (n - k))) ++
          (t.2 ++ [t.1 (rand k % (n - k))])
      _ ~ ((List.range (n - k)).map (Function.update t.1 (rand k % (n - k)) (t.1 (n - k))) ++
          [t.1 (rand k % (n - k))]) ++ t.2 := by
        rw [List.append_assoc]
        exact List.perm_append_comm.append_left _
      _ ~ (List.range (n - k + 1)).map t.1 ++ t.2 := (range_update_perm t.1 hidx).append_right _
      _ ~ (List.range (n + 1)).map cells := hnext

theorem nodup_drawnIdxs (rand : ℕ → ℕ) (hk : k ≤ n) : (drawnIdxs rand n k).Nodup := by
  have hperm := draws_perm rand id hk
  rw [List.map_id] at hperm
  exact (hperm.symm.nodup List.nodup_range).of_append_right

theorem length_drawnIdxs (rand : ℕ → ℕ) (n k : ℕ) : (drawnIdxs rand n k).length = k := by
  induction k with
  | zero => rfl
  | succ k ih => simpa [drawnIdxs, draws] using ih

end Draws

/-! ## The points of a board -/

section Board
variable {x y : ℕ} {p : Point}

theorem boardPoints_eq (x y : ℕ) : boardPoints x y =
    (List.range x).flatMap fun i : ℕ => (List.range y).map fun j : ℕ => Point.mk i j := by
  simp [boardPoints, List.flatMap_assoc, List.map_eq_flatMap]

theorem mem_boardPoints : p ∈ boardPoints x y ↔ (0 ≤ p.x ∧ p.x < x) ∧ 0 ≤ p.y ∧ p.y < y := by
  simp only [boardPoints_eq, List.mem_flatMap, List.mem_map, List.mem_range]
  constructor
  · intro h
    obtain ⟨i, hi, j, hj, rfl⟩ := h
    simp only
    omega
  · intro h
    obtain ⟨⟨hx, hx'⟩, hy, hy'⟩ := h
    refine ⟨p.x.toNat, by omega, p.y.toNat, by omega, Point.ext ?_ ?_⟩
    · exact Int.toNat_of_nonneg hx
    · exact Int.toNat_of_nonneg hy

theorem nodup_boardPoints (x y : ℕ) : (boardPoints x y).Nodup := by
  rw [boardPoints_eq, List.nodup_flatMap]
  constructor
  · intro i _
    refine List.nodup_range.map ?_
    intro a b hab
    exact Int.ofNat.inj (congrArg Point.y hab)
  · refine List.nodup_range.imp ?_
    intro i i' hne q hq hq'
    obtain ⟨j, -, rfl⟩ := List.mem_map.mp hq
    obtain ⟨j', -, heq⟩ := List.mem_map.mp hq'
    exact hne (Int.ofNat.inj (congrArg Point.x heq).symm)

end Board

/-! ## What is placed -/

section Placement
variable {x y k : ℕ} {rand : ℕ → ℕ} {memory : ℕ → Point}

/-- The indices at which `CreateMap` reads or writes the array of `n` points for `k` mines: all of them in the first
loop, and in the turn `i` of the second the drawn one and the one that is copied there. -/
def aryIndices (rand : ℕ → ℕ) (n k : ℕ) : List ℕ :=
  List.range n ++ (List.range k).flatMap fun i => [rand i % (n - i), n - i]

/-- `u` has `k` mines, all of them on the board, and no other cells than those of the board. -/
structure Placement (u : MineSweeperMgr) (x y k : ℕ) : Prop where
  card : u.minePoints.card = k
  onBoard : u.minePoints ⊆ (boardPoints x y).toFinset
  keys : u.mineSweeperMap.keys = (boardPoints x y).toFinset

/-- `CreateMap` on a new manager in a new process leaves a placement. -/
def Places (x y k : ℕ) (rand : ℕ → ℕ) (memory : ℕ → Point) : Prop :=
  ∃ a u, new.createMap rand none memory x y k = some (a, u) ∧ Placement u x y k

def DrawsWithoutReplacement (x y k : ℕ) (rand : ℕ → ℕ) (memory : ℕ → Point) : Prop :=
  Places x y k rand memory ∧ ∀ j ∈ aryIndices rand (x * y) k, j < x * y

theorem mineCount_of_pos {n : ℕ} (hk : 1 ≤ k) : mineCount n k = k := if_neg (by omega)

/-- Indices of points that are drawn once give points that are drawn once. -/
theorem nodup_boardMines (hk : mineCount (x * y) k ≤ x * y)
    (hdrawn : x * y ∉ drawnIdxs rand (x * y) (mineCount (x * y) k)) : (boardMines rand x y k).Nodup := by
  refine (nodup_drawnIdxs rand hk).map_on ?_
  intro i hi j hj hij
  have hlt := lt_of_drawn hk hdrawn hi
  have hlt' := lt_of_drawn hk hdrawn hj
  rw [List.getD_eq_getElem _ _ hlt, List.getD_eq_getElem _ _ hlt'] at hij
  exact (nodup_boardPoints x y).getElem_inj_iff.mp hij

/-- A placement of mines that all lie among the points. -/
theorem placement_of_created {u : MineSweeperMgr} {placed : List Point} (hu : Created new u x y placed)
    (hnodup : placed.Nodup) (hsub : placed ⊆ boardPoints x y) : Placement u x y placed.length := by
  have hmines : u.minePoints = placed.toFinset := by
    rw [hu.minePoints]
    exact Finset.empty_union _
  constructor
  · rw [hmines, List.toFinset_card_of_nodup hnodup]
  · intro p hp
    rw [hmines, List.mem_toFinset] at hp
    exact List.mem_toFinset.mpr (hsub hp)
  · ext q
    have hnew : new.cell q = none := Finmap.lookup_empty q
    rw [mem_keys, List.mem_toFinset, hu.cell, cellBefore, hnew, Option.none_or]
    by_cases hplaced : q ∈ placed
    · simp [hplaced, hsub hplaced]
    · by_cases hps : q ∈ boardPoints x y <;> simp [hplaced, hps]

/-- Whatever lies behind the array, the mines are as many as asked for and on the board exactly when the element
behind the array is never drawn. -/
theorem places_iff (hk : 1 ≤ k) (hle : k ≤ x * y) :
    (∀ memory, Places x y k rand memory) ↔ x * y ∉ drawnIdxs rand (x * y) k := by
  have hcount : mineCount (x * y) k = k := mineCount_of_pos hk
  have hcreate (memory : ℕ → Point) := @createMap_spec new rand none memory x y k le_rfl (hcount.trans_le hle)
  constructor
  · intro h hdrawn
    -- a point that is not on the board, put behind the array
    obtain ⟨a, u, hu, hplaces⟩ := h fun _ => ⟨-1, -1⟩
    obtain ⟨a', u', hu', -, hcreated⟩ := hcreate fun _ => ⟨-1, -1⟩
    obtain ⟨-, rfl⟩ := Prod.mk.inj (Option.some.inj (hu.symm.trans hu'))
    have hmem : (⟨-1, -1⟩ : Point) ∈ u.minePoints := by
      rw [hcreated.minePoints]
      refine Finset.mem_union_right _ (List.mem_toFinset.mpr (List.mem_map.mpr ⟨x * y, ?_, ?_⟩))
      · rwa [hcount]
      · simp [fillAry, length_boardPoints]
    have hboard := mem_boardPoints.mp (List.mem_toFinset.mp (hplaces.onBoard hmem))
    exact absurd hboard.1.1 (by decide)
  · intro hdrawn memory
    obtain ⟨a, u, hu, -, hcreated⟩ := hcreate memory
    rw [← hcount] at hdrawn hle
    rw [placed_eq hle hdrawn] at hcreated
    refine ⟨a, u, hu, ?_⟩
    have hplacement := placement_of_created hcreated (nodup_boardMines hle hdrawn) (boardMines_subset hle hdrawn)
    rwa [boardMines, List.length_map, length_drawnIdxs, hcount] at hplacement

/-- The first turn copies the element behind the array. -/
theorem mem_aryIndices_self {n : ℕ} (hk : 1 ≤ k) : n ∈ aryIndices rand n k := by
  refine List.mem_append_right _ (List.mem_flatMap.mpr ⟨0, List.mem_range.mpr hk, ?_⟩)
  simp

/-- No call with a mine keeps to the elements of the array. -/
theorem not_drawsWithoutReplacement (hk : 1 ≤ k) : ¬ DrawsWithoutReplacement x y k rand memory := by
  intro h
  exact lt_irrefl _ (h.2 (x * y) (mem_aryIndices_self hk))

theorem not_drawsWithoutReplacement_beginner :
    ¬ DrawsWithoutReplacement 10 10 10 (fun i => i) (fun _ => ⟨0, 0⟩) :=
  not_drawsWithoutReplacement (by omega)

/-- The same index twice draws what was copied into it, here a point that is not on the board. -/
theorem not_draws_without_replacement :
    ¬ ∀ (x y k : ℕ) (rand : ℕ → ℕ) (memory : ℕ → Point), 1 ≤ x → 1 ≤ y → 1 ≤ k → k ≤ x * y →
      DrawsWithoutReplacement x y k rand memory := by
  intro h
  have hdraws := h 1 2 2 (fun _ => 0) (fun _ => ⟨7, 7⟩) (by omega) (by omega) (by omega) (by omega)
  obtain ⟨⟨a, u, hu, hplaces⟩, -⟩ := hdraws
  have hmine : (new.createMap (fun _ => 0) none (fun _ => ⟨7, 7⟩) 1 2 2).map
      (fun t => decide (⟨7, 7⟩ ∈ t.2.minePoints)) = some true := by
    decide +kernel
  rw [hu] at hmine
  have hmem : (⟨7, 7⟩ : Point) ∈ u.minePoints := of_decide_eq_true (Option.some.inj hmine)
  have hboard := mem_boardPoints.mp (List.mem_toFinset.mp (hplaces.onBoard hmem))
  exact absurd hboard.1.2 (by decide)

end Placement

end Chaos.MineSweeperMgr
