import Chaos.MineMaps
import Mathlib.Algebra.BigOperators.Ring.Finset
import Mathlib.Algebra.Order.Group.Abs
import Mathlib.Algebra.Order.Group.Int

/-!
# The numbers of a mine field

`CalcNumber` goes from each mine to the cells around it, a cell shows how many mines are around it. The two agree
because the cells that `GetPointAroundMine` gives are the neighbours on the board, each of them once.
-/
namespace Chaos

/-- The point is on the board up to `maxPoint`. -/
def OnBoard (maxPoint p : Point) : Prop := (0 ≤ p.x ∧ p.x ≤ maxPoint.x) ∧ 0 ≤ p.y ∧ p.y ≤ maxPoint.y

instance (maxPoint p : Point) : Decidable (OnBoard maxPoint p) := inferInstanceAs (Decidable ((_ ∧ _) ∧ _ ∧ _))

/-- Two cells that touch, at a side or a corner. -/
def Neighbour (p q : Point) : Prop := p ≠ q ∧ |p.x - q.x| ≤ 1 ∧ |p.y - q.y| ≤ 1

instance (p q : Point) : Decidable (Neighbour p q) := inferInstanceAs (Decidable (_ ∧ _ ∧ _))

namespace MineSweeperMgr

variable {maxPoint p q : Point} {s : MineSweeperMgr} {info : PointInfo}

/-! ## The cells around a cell -/

/-- The eight cells that touch a cell, in the order of `GetPointAroundMine`. -/
def around (p : Point) : List Point :=
  [⟨p.x, p.y + 1⟩, ⟨p.x + 1, p.y + 1⟩, ⟨p.x + 1, p.y⟩, ⟨p.x + 1, p.y - 1⟩, ⟨p.x, p.y - 1⟩, ⟨p.x - 1, p.y - 1⟩,
    ⟨p.x - 1, p.y⟩, ⟨p.x - 1, p.y + 1⟩]

theorem mem_around : q ∈ around p ↔ Neighbour p q := by
  obtain ⟨x, y⟩ := p
  obtain ⟨x', y'⟩ := q
  simp only [around, Neighbour, List.mem_cons, List.not_mem_nil, or_false, Point.mk.injEq, ne_eq, abs_le]
  constructor
  · intro h
    rcases h with h | h | h | h | h | h | h | h <;> omega
  · intro h
    have hx : x' = x - 1 ∨ x' = x ∨ x' = x + 1 := by omega
    have hy : y' = y - 1 ∨ y' = y ∨ y' = y + 1 := by omega
    rcases hx with rfl | rfl | rfl <;> rcases hy with rfl | rfl | rfl <;> simp at h ⊢

theorem nodup_around (p : Point) : (around p).Nodup := by
  simp [around, Point.ext_iff]
  omega

theorem push_eq {ok : Bool} {P : Point → Bool} {desPoint : Point} (h : ok = P desPoint) :
    (if ok then [desPoint] else []) = [desPoint].filter P := by
  rw [h]
  cases hP : P desPoint <;> simp [hP]

/-- For a cell of the board the eight tests, of one bound or of two, say which of the eight are on the board. -/
theorem getPointAroundMine_eq (hp : OnBoard maxPoint p) :
    getPointAroundMine maxPoint p = (around p).filter fun q => OnBoard maxPoint q := by
  obtain ⟨x, y⟩ := p
  have hfilter (a b c d e f g h : Point) (P : Point → Bool) : [a, b, c, d, e, f, g, h].filter P =
      [a].filter P ++ [b].filter P ++ [c].filter P ++ [d].filter P ++ [e].filter P ++ [f].filter P ++
        [g].filter P ++ [h].filter P := by
    simp only [← List.filter_append, List.cons_append, List.nil_append]
  simp only [OnBoard] at hp
  have hpush {ok : Bool} {desPoint : Point} (h : ok = true ↔ OnBoard maxPoint desPoint) :
      (if ok then [desPoint] else []) = [desPoint].filter fun q => OnBoard maxPoint q :=
    push_eq (Bool.eq_iff_iff.mpr (h.trans decide_eq_true_iff.symm))
  simp only [around, hfilter, getPointAroundMine]
  refine congrArg₂ _ (congrArg₂ _ (congrArg₂ _ (congrArg₂ _ (congrArg₂ _ (congrArg₂ _ (congrArg₂ _ (hpush ?_)
    (hpush ?_)) (hpush ?_)) (hpush ?_)) (hpush ?_)) (hpush ?_)) (hpush ?_)) (hpush ?_)
  all_goals
    simp only [Bool.and_eq_true, decide_eq_true_eq, OnBoard]
    omega

/-- Each neighbour on the board is one of the points, and those are neighbours on the board. -/
theorem mem_getPointAroundMine (hp : OnBoard maxPoint p) :
    q ∈ getPointAroundMine maxPoint p ↔ OnBoard maxPoint q ∧ Neighbour p q := by
  rw [getPointAroundMine_eq hp, List.mem_filter, mem_around, decide_eq_true_eq, and_comm]

theorem count_getPointAroundMine (hp : OnBoard maxPoint p) (hq : OnBoard maxPoint q) :
    (getPointAroundMine maxPoint p).count q = if Neighbour p q then 1 else 0 := by
  have hnodup : (getPointAroundMine maxPoint p).Nodup := by
    rw [getPointAroundMine_eq hp]
    exact (nodup_around p).filter _
  rw [hnodup.count]
  simp [mem_getPointAroundMine hp, hq]

/-! ## Counting -/

/-- A board whose mines are placed: they hold `LANDMINE`, the other cells 0. -/
structure Mined (s : MineSweeperMgr) : Prop where
  cells (p : Point) : p ∈ s.mineSweeperMap.keys ↔ OnBoard s.maxPoint p
  mines (p : Point) (h : p ∈ s.minePoints) : ∃ info, s.cell p = some info ∧ info.content = landmine
  zero (p : Point) (info : PointInfo) (h : s.cell p = some info) (hno : p ∉ s.minePoints) : info.content = 0

theorem Mined.onBoard (hs : s.Mined) (h : s.cell p = some info) : OnBoard s.maxPoint p :=
  (hs.cells p).mp (mem_keys.mpr ⟨info, h⟩)

/-- What the mines add to a cell is the number of those that are its neighbours. -/
theorem Mined.minesAround_eq (hs : s.Mined) (hq : OnBoard s.maxPoint q) :
    s.minesAround q = (s.minePoints.filter fun p => Neighbour p q).card := by
  rw [minesAround, Finset.card_filter]
  refine Finset.sum_congr rfl ?_
  intro p hp
  obtain ⟨info, hinfo, -⟩ := hs.mines p hp
  exact count_getPointAroundMine (hs.onBoard hinfo) hq

theorem bump_iterate_zero (status : MineSweeperStatus) (i : ℕ) :
    PointInfo.bump^[i] ⟨status, 0⟩ = ⟨status, i⟩ := by
  induction i with
  | zero => rfl
  | succ i ih =>
    have hcontent : (i : ℤ) ≠ landmine := by
      rw [landmine]
      omega
    rw [Function.iterate_succ_apply', ih, PointInfo.bump, if_neg hcontent]
    rfl

/-- After `CalcNumber` a mine still holds `LANDMINE` and every other cell the number of mines among its
neighbours; nothing else has changed. -/
theorem calcNumber_counts (hs : s.Mined) (q : Point) :
    s.calcNumber.cell q = (s.cell q).map fun info => { info with
      content := if q ∈ s.minePoints then landmine else (s.minePoints.filter fun p => Neighbour p q).card } := by
  rw [cell_calcNumber]
  cases hq : s.cell q with
  | none => rfl
  | some info =>
    refine congrArg some ?_
    obtain ⟨status, content⟩ := info
    by_cases hmine : q ∈ s.minePoints
    · obtain ⟨info, hinfo, hcontent⟩ := hs.mines q hmine
      obtain rfl := Option.some.inj (hq.symm.trans hinfo)
      replace hcontent : content = landmine := hcontent
      rw [if_pos hmine, hcontent, bump_iterate_landmine]
    · have hzero : content = 0 := hs.zero q _ hq hmine
      rw [if_neg hmine, hzero, bump_iterate_zero, hs.minesAround_eq (hs.onBoard hq)]

/-- Two cells, the second one a mine. -/
def minedBoard : MineSweeperMgr where
  maxPoint := ⟨1, 0⟩
  maxMine := 1
  mineSweeperMap := (Finmap.singleton ⟨0, 0⟩ {}).insert ⟨1, 0⟩ ⟨.mssDefault, landmine⟩
  minePoints := {⟨1, 0⟩}
  mOpenPoint := 0

theorem mined_minedBoard : minedBoard.Mined := by
  refine ⟨?_, ?_, ?_⟩
  · intro p
    rw [Finmap.mem_keys, minedBoard, Finmap.mem_insert, Finmap.mem_singleton, Point.ext_iff, Point.ext_iff, OnBoard]
    simp only
    omega
  · intro p hp
    obtain rfl := Finset.mem_singleton.mp hp
    exact ⟨⟨.mssDefault, landmine⟩, Finmap.lookup_insert _, rfl⟩
  · intro p info h hno
    have hne : p ≠ ⟨1, 0⟩ := fun hp => hno (Finset.mem_singleton.mpr hp)
    rw [cell, minedBoard, Finmap.lookup_insert_of_ne _ hne] at h
    obtain rfl := (Finmap.mem_singleton _ _ _).mp (Finmap.mem_of_lookup_eq_some h)
    obtain rfl := Option.some.inj h
    rfl

theorem calcNumber_counts_minedBoard :
    minedBoard.calcNumber.cell ⟨0, 0⟩ = (minedBoard.cell ⟨0, 0⟩).map fun info => { info with
      content := if ⟨0, 0⟩ ∈ minedBoard.minePoints then landmine
        else (minedBoard.minePoints.filter fun p => Neighbour p ⟨0, 0⟩).card } :=
  calcNumber_counts mined_minedBoard ⟨0, 0⟩

end MineSweeperMgr

end Chaos
