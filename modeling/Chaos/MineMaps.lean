import Chaos.MineSweeper
import Chaos.StdMap
import Mathlib.Data.Fintype.EquivFin
import Mathlib.Data.Finset.Lattice.Basic
import Mathlib.Data.List.GetD

/-!
# New mine fields

`CreateMap` with its static array, for all the managers of a process. The array holds as many points as the
first call asked for; what lies behind it is `memory`, which a call reads like the rest. A write behind the
array has no behaviour, the call is `none` there.
-/
namespace Chaos

/-- What `MinePointAry` points to; the cells from `size` on are not its own. -/
structure MinePointAry where
  size : ℕ
  cells : ℕ → Point

structure MapLevelCnf where
  maxMineCount : ℕ
  maxPoint : ℕ × ℕ

/-- `GetMapConfig`. -/
def getMapConfig (nMapLevel : ℤ) : Option MapLevelCnf :=
  if nMapLevel = 1 then some ⟨10, (10, 10)⟩
  else if nMapLevel = 2 then some ⟨40, (20, 20)⟩
  else if nMapLevel = 3 then some ⟨90, (30, 30)⟩
  else none

/-- `++Content` for a cell that is no mine. -/
def PointInfo.bump (info : PointInfo) : PointInfo :=
  if info.content = landmine then info else { info with content := info.content + 1 }

namespace MineSweeperMgr

open StdMap

/-! ## The numbers -/

/-- One turn of the inner loop of `CalcNumber`. -/
def bumpPoint (m : MineSweepMap) (p : Point) : MineSweepMap :=
  match m.lookup p with
  | none => m
  | some info => m.insert p info.bump

variable {p q : Point}

theorem lookup_bumpPoint (m : MineSweepMap) :
    (bumpPoint m p).lookup q = (m.lookup q).map (PointInfo.bump^[[p].count q]) := by
  by_cases hq : q = p
  · subst hq
    cases hm : m.lookup q <;> simp [bumpPoint, hm]
  · have hcount : [p].count q = 0 := List.count_eq_zero.mpr (by simpa using hq)
    cases hm : m.lookup p with
    | none => simp [bumpPoint, hm, hcount]
    | some info => simp [bumpPoint, hm, hcount, Finmap.lookup_insert_of_ne _ hq]

theorem lookup_foldl_bumpPoint (m : MineSweepMap) (ps : List Point) :
    (ps.foldl bumpPoint m).lookup q = (m.lookup q).map (PointInfo.bump^[ps.count q]) := by
  induction ps generalizing m with
  | nil => simp
  | cons p ps ih =>
    have hcount : (p :: ps).count q = ps.count q + [p].count q := by
      rw [← List.singleton_append, List.count_append, Nat.add_comm]
    rw [List.foldl_cons, ih, lookup_bumpPoint, hcount, Function.iterate_add, Option.map_map]

/-- The outer loop's body for one mine. -/
def countMine (maxPoint : Point) (m : MineSweepMap) (mine : Point) : MineSweepMap :=
  (getPointAroundMine maxPoint mine).foldl bumpPoint m

/-- The order of the mines makes no difference to the numbers. -/
instance (maxPoint : Point) : RightCommutative (countMine maxPoint) where
  right_comm m a b := by
    apply Finmap.ext_lookup
    intro q
    simp only [countMine, lookup_foldl_bumpPoint, Option.map_map]
    rw [← Function.iterate_add, ← Function.iterate_add, Nat.add_comm]

/-- `CalcNumber`. -/
def calcNumber (s : MineSweeperMgr) : MineSweeperMgr :=
  { s with mineSweeperMap := s.minePoints.val.foldl (countMine s.maxPoint) s.mineSweeperMap }

/-- How many mines of `s` have the cell `q` beside them. -/
def minesAround (s : MineSweeperMgr) (q : Point) : ℕ :=
  (s.minePoints.val.map fun mine => (getPointAroundMine s.maxPoint mine).count q).sum

theorem lookup_foldl_countMine (maxPoint : Point) (mines : Multiset Point) (m : MineSweepMap) :
    (mines.foldl (countMine maxPoint) m).lookup q =
      (m.lookup q).map (PointInfo.bump^[(mines.map fun p => (getPointAroundMine maxPoint p).count q).sum]) := by
  induction mines using Multiset.induction generalizing m with
  | empty => simp
  | cons mine mines ih =>
    rw [Multiset.foldl_cons, ih, countMine, lookup_foldl_bumpPoint, Multiset.map_cons, Multiset.sum_cons,
      Nat.add_comm, Function.iterate_add, Option.map_map]

theorem cell_calcNumber (s : MineSweeperMgr) :
    s.calcNumber.cell q = (s.cell q).map (PointInfo.bump^[s.minesAround q]) :=
  lookup_foldl_countMine s.maxPoint s.minePoints.val s.mineSweeperMap

/-! ## The cells and the mines -/

/-- `map.insert` of an untouched cell: an old cell stays. -/
def insertPoint (m : MineSweepMap) (p : Point) : MineSweepMap := insertNew m p {}

/-- The points in the order of the two loops. -/
def boardPoints (nMaxX nMaxY : ℕ) : List Point :=
  (List.range nMaxX).flatMap fun x => (List.range nMaxY).map fun y => ⟨x, y⟩

variable (s : MineSweeperMgr) (rand : ℕ → ℕ) (n : ℕ)

/-- `m_mine_sweeper_map[p].Content = LANDMINE` and the entry into `m_mine_points`. -/
def placeMine (p : Point) : MineSweeperMgr :=
  { s with
    mineSweeperMap := s.mineSweeperMap.insert p { (s.cell p).getD {} with content := landmine }
    minePoints := insert p s.minePoints }

/-- The loop that draws the mines: the array and the manager after `i` turns. The element that was drawn is
overwritten with the one at `nMaxIdx`, which at first lies behind the `n` points. -/
def drawMines (cells : ℕ → Point) : ℕ → (ℕ → Point) × MineSweeperMgr
  | 0 => (cells, s)
  | i + 1 =>
    let t := drawMines cells i
    let nMaxIdx := n - i
    let nMineIdx := rand i % nMaxIdx
    (Function.update t.1 nMineIdx (t.1 nMaxIdx), t.2.placeMine (t.1 nMineIdx))

/-- How many mines `CreateMap` draws. -/
def mineCount (n nMaxMine : ℕ) : ℕ := if nMaxMine = 0 then n / 10 else nMaxMine

/-- The array as the first loop leaves it. -/
def fillAry (ary : MinePointAry) (memory : ℕ → Point) (ps : List Point) (i : ℕ) : Point :=
  ps.getD i (if i < ary.size then ary.cells i else memory i)

/-- `CreateMap`: the array and the manager after it. `rand i` is the number that the turn `i` receives; there
is no remainder by 0. -/
def createMap (ary : Option MinePointAry) (memory : ℕ → Point) (nMaxX nMaxY nMaxMine : ℕ) :
    Option (MinePointAry × MineSweeperMgr) :=
  let n := nMaxX * nMaxY
  let ary := ary.getD ⟨n, fun _ => ⟨0, 0⟩⟩
  let ps := boardPoints nMaxX nMaxY
  if ary.size < n ∨ n < mineCount n nMaxMine then none
  else
    let filled : MineSweeperMgr :=
      { s with maxPoint := ⟨nMaxX - 1, nMaxY - 1⟩, mineSweeperMap := ps.foldl insertPoint s.mineSweeperMap }
    let t := filled.drawMines rand n (fillAry ary memory ps) (mineCount n nMaxMine)
    some (⟨ary.size, t.1⟩, { t.2.calcNumber with maxMine := mineCount n nMaxMine })

/-! ## What is drawn -/

/-- The same drawing for elements of any type: the array and what was drawn, in order. -/
def draws {α : Type*} (cells : ℕ → α) : ℕ → (ℕ → α) × List α
  | 0 => (cells, [])
  | i + 1 =>
    let t := draws cells i
    let nMaxIdx := n - i
    let nMineIdx := rand i % nMaxIdx
    (Function.update t.1 nMineIdx (t.1 nMaxIdx), t.2 ++ [t.1 nMineIdx])

theorem drawMines_eq (cells : ℕ → Point) (k : ℕ) :
    s.drawMines rand n cells k =
      ((draws rand n cells k).1, (draws rand n cells k).2.foldl placeMine s) := by
  induction k with
  | zero => rfl
  | succ k ih => rw [drawMines, ih, draws, List.foldl_append, List.foldl_cons, List.foldl_nil]

/-- Drawing elements is drawing their indices. -/
theorem draws_map {α β : Type*} (f : α → β) (cells : ℕ → α) (k : ℕ) :
    draws rand n (f ∘ cells) k = (f ∘ (draws rand n cells k).1, (draws rand n cells k).2.map f) := by
  induction k with
  | zero => rfl
  | succ k ih =>
    simp only [draws, ih, Function.comp_apply, List.map_append, List.map_cons, List.map_nil, Prod.mk.injEq,
      and_true]
    exact (Function.comp_update f _ _ _).symm

/-- The indices, in the array as it is filled, of the elements that are drawn. -/
def drawnIdxs (k : ℕ) : List ℕ := (draws rand n id k).2

theorem draws_snd (cells : ℕ → Point) (k : ℕ) :
    (draws rand n cells k).2 = (drawnIdxs rand n k).map cells :=
  congrArg Prod.snd (draws_map rand n cells id k)

/-- No draw reaches further than one element behind the points. -/
theorem draws_le {k : ℕ} (hk : k ≤ n) :
    (∀ j ≤ n, (draws rand n id k).1 j ≤ n) ∧ ∀ j ∈ drawnIdxs rand n k, j ≤ n := by
  induction k with
  | zero => exact ⟨fun j hj => hj, by simp [drawnIdxs, draws]⟩
  | succ k ih =>
    obtain ⟨hcells, hdrawn⟩ := ih (by omega)
    have hidx : rand k % (n - k) < n - k := Nat.mod_lt _ (by omega)
    constructor
    · intro j hj
      simp only [draws, Function.update_apply]
      split
      · exact hcells _ (Nat.sub_le n k)
      · exact hcells j hj
    · intro j hj
      rcases List.mem_append.mp hj with hj | hj
      · exact hdrawn j hj
      · obtain rfl := List.mem_singleton.mp hj
        exact hcells _ (by omega)

variable {s rand n} {ps : List Point}

theorem cell_placeMine :
    (s.placeMine p).cell q = if q = p then some { (s.cell p).getD {} with content := landmine } else s.cell q := by
  split
  · next h => exact h ▸ Finmap.lookup_insert _
  · next h => exact Finmap.lookup_insert_of_ne _ h

theorem cell_foldl_placeMine : (ps.foldl placeMine s).cell q =
    if q ∈ ps then some { (s.cell q).getD {} with content := landmine } else s.cell q := by
  induction ps generalizing s with
  | nil => simp
  | cons p ps ih =>
    rw [List.foldl_cons, ih, cell_placeMine]
    by_cases hq : q = p
    · subst hq
      by_cases hps : q ∈ ps <;> simp [hps]
    · simp [hq]

theorem minePoints_foldl_placeMine : (ps.foldl placeMine s).minePoints = s.minePoints ∪ ps.toFinset := by
  induction ps generalizing s with
  | nil => simp
  | cons p ps ih =>
    rw [List.foldl_cons, ih, placeMine, List.toFinset_cons, Finset.insert_union, Finset.union_insert]

theorem frame_foldl_placeMine : (ps.foldl placeMine s).maxPoint = s.maxPoint ∧
    (ps.foldl placeMine s).mOpenPoint = s.mOpenPoint := by
  induction ps generalizing s with
  | nil => exact ⟨rfl, rfl⟩
  | cons p ps ih => exact ih

theorem lookup_foldl_insertPoint (m : MineSweepMap) :
    (ps.foldl insertPoint m).lookup q = (m.lookup q).or (if q ∈ ps then some {} else none) := by
  induction ps generalizing m with
  | nil => simp
  | cons p ps ih =>
    rw [List.foldl_cons, ih, insertPoint, lookup_insertNew, Option.or_assoc]
    by_cases hq : q = p
    · simp [hq]
    · simp [hq]

/-! ## The manager after the call -/

/-- The cell `q` before the numbers: what the first loop finds or inserts at the points `ps`, with the mines
of `placed`. -/
def cellBefore (s : MineSweeperMgr) (ps placed : List Point) (q : Point) : Option PointInfo :=
  let found := (s.cell q).or (if q ∈ ps then some {} else none)
  if q ∈ placed then some { found.getD {} with content := landmine } else found

/-- `u` is `s` after a `CreateMap` of this size that drew `placed`. -/
structure Created (s u : MineSweeperMgr) (x y : ℕ) (placed : List Point) : Prop where
  maxPoint : u.maxPoint = ⟨x - 1, y - 1⟩
  openPoint : u.mOpenPoint = s.mOpenPoint
  minePoints : u.minePoints = s.minePoints ∪ placed.toFinset
  cell (q : Point) :
    u.cell q = (s.cellBefore (boardPoints x y) placed q).map (PointInfo.bump^[u.minesAround q])

/-- The points that become mines: the elements of the filled array that are drawn. -/
def placed (ary : Option MinePointAry) (memory : ℕ → Point) (rand : ℕ → ℕ) (x y k : ℕ) : List Point :=
  (drawnIdxs rand (x * y) (mineCount (x * y) k)).map
    (fillAry (ary.getD ⟨x * y, fun _ => ⟨0, 0⟩⟩) memory (boardPoints x y))

variable {ary : Option MinePointAry} {memory : ℕ → Point} {x y k : ℕ}

theorem createMap_spec (hroom : x * y ≤ (ary.map MinePointAry.size).getD (x * y))
    (hk : mineCount (x * y) k ≤ x * y) :
    ∃ a u, s.createMap rand ary memory x y k = some (a, u) ∧
      a.size = (ary.map MinePointAry.size).getD (x * y) ∧ Created s u x y (placed ary memory rand x y k) := by
  have hsize : (ary.getD ⟨x * y, fun _ => ⟨0, 0⟩⟩).size = (ary.map MinePointAry.size).getD (x * y) := by
    cases ary <;> rfl
  have hok : ¬ ((ary.getD ⟨x * y, fun _ => ⟨0, 0⟩⟩).size < x * y ∨ x * y < mineCount (x * y) k) := by
    omega
  refine ⟨_, _, if_neg hok, hsize, ?_⟩
  rw [drawMines_eq, draws_snd]
  have hframe := @frame_foldl_placeMine
    { s with maxPoint := ⟨x - 1, y - 1⟩, mineSweeperMap := (boardPoints x y).foldl insertPoint s.mineSweeperMap }
    (placed ary memory rand x y k)
  refine ⟨hframe.1, hframe.2, minePoints_foldl_placeMine, ?_⟩
  intro q
  refine (cell_calcNumber _).trans (congrArg _ ?_)
  rw [cell_foldl_placeMine, cellBefore]
  simp only [cell, lookup_foldl_insertPoint, placed]
  rfl

theorem createMap_eq_none (h : ∃ a, ary = some a ∧ a.size < x * y) :
    s.createMap rand ary memory x y k = none := by
  obtain ⟨a, rfl, ha⟩ := h
  exact if_pos (Or.inl ha)

/-! ## Two games compared -/

/-- The map, the mines and the open count agree. -/
def SameGame (s t : MineSweeperMgr) : Prop :=
  s.mineSweeperMap = t.mineSweeperMap ∧ s.minePoints = t.minePoints ∧ s.mOpenPoint = t.mOpenPoint

/-- A count that starts at 0 is met from no other content. -/
theorem bump_iterate (info : PointInfo) (i : ℕ) :
    PointInfo.bump^[i] info = ⟨.mssDefault, i⟩ ↔ info = ⟨.mssDefault, 0⟩ := by
  induction i with
  | zero => simp
  | succ i ih =>
    rw [Function.iterate_succ_apply', ← ih]
    generalize PointInfo.bump^[i] info = j
    obtain ⟨status, content⟩ := j
    rw [PointInfo.bump]
    split
    · next h =>
      simp only [landmine] at h
      simp only [PointInfo.mk.injEq, h]
      omega
    · simp

theorem bump_iterate_landmine (status : MineSweeperStatus) (i : ℕ) :
    PointInfo.bump^[i] ⟨status, landmine⟩ = ⟨status, landmine⟩ := by
  induction i with
  | zero => rfl
  | succ i ih => rwa [Function.iterate_succ_apply]

/-- What an old cell must show for the new game not to differ at it. -/
def Clean (ps placed : List Point) (q : Point) (info : PointInfo) : Prop :=
  q ∈ ps ∧ info.status = .mssDefault ∧ (info.content = 0 ∨ q ∈ placed)

theorem cell_eq_iff {ps placed : List Point} (hsub : placed ⊆ ps) (i : ℕ) :
    (s.cellBefore ps placed q).map (PointInfo.bump^[i]) = (new.cellBefore ps placed q).map (PointInfo.bump^[i]) ↔
      ∀ info, s.cell q = some info → Clean ps placed q info := by
  have hnew : new.cell q = none := Finmap.lookup_empty q
  have hzero : PointInfo.bump^[i] {} = ⟨.mssDefault, i⟩ := (bump_iterate _ i).mpr rfl
  simp only [cellBefore, hnew, Option.none_or, Clean]
  by_cases hplaced : q ∈ placed
  · have hps := hsub hplaced
    cases s.cell q <;> simp [hplaced, hps, bump_iterate_landmine]
  · by_cases hps : q ∈ ps
    · cases hcell : s.cell q with
      | none => simp [hplaced, hps]
      | some info =>
        simp only [hplaced, hps, if_false, if_true, Option.some_or, Option.map_some, Option.some_inj, hzero,
          bump_iterate, true_and, or_false]
        obtain ⟨status, content⟩ := info
        simp
    · cases hcell : s.cell q <;> simp [hplaced, hps]

theorem sameGame_iff {u v : MineSweeperMgr} {placed : List Point} (hu : Created s u x y placed)
    (hv : Created new v x y placed) (hsub : placed ⊆ boardPoints x y) :
    SameGame u v ↔ s.mOpenPoint = 0 ∧ s.minePoints ⊆ placed.toFinset ∧
      ∀ q info, s.cell q = some info → Clean (boardPoints x y) placed q info := by
  have hopen : u.mOpenPoint = v.mOpenPoint ↔ s.mOpenPoint = 0 := by
    rw [hu.openPoint, hv.openPoint]
    exact Iff.rfl
  have hmines : u.minePoints = v.minePoints ↔ s.minePoints ⊆ placed.toFinset := by
    rw [hu.minePoints, hv.minePoints, new, Finset.empty_union, Finset.union_eq_right]
  have hmap (h : u.minePoints = v.minePoints) : u.mineSweeperMap = v.mineSweeperMap ↔
      ∀ q info, s.cell q = some info → Clean (boardPoints x y) placed q info := by
    have haround (q : Point) : u.minesAround q = v.minesAround q := by
      rw [minesAround, minesAround, h, hu.maxPoint, hv.maxPoint]
    have hcell (q : Point) : u.cell q = v.cell q ↔
        ∀ info, s.cell q = some info → Clean (boardPoints x y) placed q info := by
      rw [hu.cell, hv.cell, haround]
      exact cell_eq_iff hsub _
    constructor
    · intro heq q
      exact (hcell q).mp (congrArg (Finmap.lookup q) heq)
    · intro hclean
      exact Finmap.ext_lookup fun q => (hcell q).mpr (hclean q)
  rw [SameGame, hopen, hmines]
  constructor
  · intro h
    obtain ⟨heq, hsubset, hzero⟩ := h
    exact ⟨hzero, hsubset, (hmap (hmines.mpr hsubset)).mp heq⟩
  · intro h
    obtain ⟨hzero, hsubset, hclean⟩ := h
    exact ⟨(hmap (hmines.mpr hsubset)).mpr hclean, hsubset, hzero⟩

/-- The points that become mines where no draw reaches behind the points. -/
def boardMines (rand : ℕ → ℕ) (x y k : ℕ) : List Point :=
  (drawnIdxs rand (x * y) (mineCount (x * y) k)).map fun i => (boardPoints x y).getD i ⟨0, 0⟩

theorem length_boardPoints (x y : ℕ) : (boardPoints x y).length = x * y := by
  simp [boardPoints, List.length_flatMap]

section

variable (hk : mineCount (x * y) k ≤ x * y) (hdrawn : x * y ∉ drawnIdxs rand (x * y) (mineCount (x * y) k))
include hk hdrawn

theorem lt_of_drawn {i : ℕ} (hi : i ∈ drawnIdxs rand (x * y) (mineCount (x * y) k)) :
    i < (boardPoints x y).length := by
  have hle := (draws_le rand _ hk).2 i hi
  rw [length_boardPoints]
  exact lt_of_le_of_ne hle fun h => hdrawn (h ▸ hi)

theorem placed_eq : placed ary memory rand x y k = boardMines rand x y k := by
  apply List.map_congr_left
  intro i hi
  have hlt := lt_of_drawn hk hdrawn hi
  rw [fillAry, List.getD_eq_getElem _ _ hlt, List.getD_eq_getElem _ _ hlt]

theorem boardMines_subset : boardMines rand x y k ⊆ boardPoints x y := by
  intro p hp
  obtain ⟨i, hi, rfl⟩ := List.mem_map.mp hp
  rw [List.getD_eq_getElem _ _ (lt_of_drawn hk hdrawn hi)]
  exact List.getElem_mem _

end

theorem mineCount_le {n nMaxMine : ℕ} (h : nMaxMine ≤ n) : mineCount n nMaxMine ≤ n := by
  rw [mineCount]
  split
  · exact Nat.div_le_self n 10
  · exact h

instance : Infinite Point :=
  Infinite.of_injective (fun i : ℤ => Point.mk i 0) fun _ _ h => congrArg Point.x h

end MineSweeperMgr

/-! ## All the managers of a process -/

open MineSweeperMgr GuardedRuns

/-- The managers are named by `ι`; the array is shared by all of them. -/
structure MineProcess (ι : Type*) where
  ary : Option MinePointAry
  mgr : ι → MineSweeperMgr

/-- A public call, with the random numbers and the memory behind the array that it finds. -/
inductive MineCall (ι : Type*) where
  | construct (m : ι)
  | createMap (m : ι) (nMaxX nMaxY nMaxMine : ℕ) (rand : ℕ → ℕ) (memory : ℕ → Point)
  | createLevel (m : ι) (nMapLevel : ℤ) (rand : ℕ → ℕ) (memory : ℕ → Point)
  | onClickPoint (m : ι) (c : Click)

namespace MineProcess

variable {ι : Type*} [DecidableEq ι]

def start : MineProcess ι := ⟨none, fun _ => new⟩

/-- `CreateMap` on the manager `m`. -/
def create (s : MineProcess ι) (m : ι) (nMaxX nMaxY nMaxMine : ℕ) (rand : ℕ → ℕ) (memory : ℕ → Point) :
    Option (MineProcess ι) :=
  ((s.mgr m).createMap rand s.ary memory nMaxX nMaxY nMaxMine).map fun t =>
    ⟨some t.1, Function.update s.mgr m t.2⟩

def step (s : MineProcess ι) : MineCall ι → Option (MineProcess ι)
  | .construct m => some { s with mgr := Function.update s.mgr m new }
  | .createMap m nMaxX nMaxY nMaxMine rand memory => s.create m nMaxX nMaxY nMaxMine rand memory
  | .createLevel m nMapLevel rand memory => match getMapConfig nMapLevel with
    | none => some s
    | some cnf => s.create m cnf.maxPoint.1 cnf.maxPoint.2 cnf.maxMineCount rand memory
  | .onClickPoint m c => ((s.mgr m).click c).map fun t => { s with mgr := Function.update s.mgr m t }

/-- The number of points that a call asks for. -/
def asks : MineCall ι → Option ℕ
  | .createMap _ nMaxX nMaxY _ _ _ => some (nMaxX * nMaxY)
  | .createLevel _ nMapLevel _ _ => (getMapConfig nMapLevel).map fun cnf => cnf.maxPoint.1 * cnf.maxPoint.2
  | .construct _ | .onClickPoint _ _ => none

theorem create_size {s t : MineProcess ι} {m : ι} {x y k : ℕ} {rand : ℕ → ℕ} {memory : ℕ → Point}
    (h : s.create m x y k rand memory = some t) :
    t.ary.map MinePointAry.size = (s.ary.map MinePointAry.size).or (some (x * y)) := by
  obtain ⟨⟨a, u⟩, hau, rfl⟩ := Option.map_eq_some_iff.mp h
  rw [createMap] at hau
  simp only at hau
  split at hau
  · cases hau
  · obtain ⟨rfl, -⟩ := Prod.mk.inj (Option.some.inj hau)
    cases s.ary <;> rfl

/-- Only the first call that makes a map sizes the array. -/
theorem step_size {s t : MineProcess ι} {c : MineCall ι} (h : s.step c = some t) :
    t.ary.map MinePointAry.size = (s.ary.map MinePointAry.size).or (asks c) := by
  cases c with
  | construct m =>
    obtain rfl := Option.some.inj h
    simp [asks]
  | createMap m x y k rand memory => exact create_size h
  | createLevel m nMapLevel rand memory =>
    simp only [step] at h
    cases hcnf : getMapConfig nMapLevel with
    | none =>
      obtain rfl := Option.some.inj (hcnf ▸ h)
      simp [asks, hcnf]
    | some cnf =>
      simp only [hcnf] at h
      simpa [asks, hcnf] using create_size h
  | onClickPoint m c =>
    obtain ⟨u, -, rfl⟩ := Option.map_eq_some_iff.mp h
    simp [asks]

theorem run_size {s t : MineProcess ι} {calls : List (MineCall ι)} (h : exec step s calls = some t) :
    t.ary.map MinePointAry.size = (s.ary.map MinePointAry.size).or (calls.findSome? asks) := by
  induction calls generalizing s with
  | nil =>
    obtain rfl := Option.some.inj h
    simp
  | cons c cs ih =>
    obtain ⟨v, hv, ht⟩ := exec_cons_eq_some.mp h
    rw [ih ht, step_size hv, Option.or_assoc, List.findSome?_cons]
    cases asks c <;> simp

/-- The call leaves the manager `m` as it leaves a new manager of a new process, whatever lies behind the
array there, and there is room for all the points. -/
def FreshGame (s : MineProcess ι) (m : ι) (x y k : ℕ) (rand : ℕ → ℕ) (memory : ℕ → Point) : Prop :=
  ∃ a u, (s.mgr m).createMap rand s.ary memory x y k = some (a, u) ∧ x * y ≤ a.size ∧
    ∀ memory', ∃ a' v, new.createMap rand none memory' x y k = some (a', v) ∧ SameGame u v

/-- The array was made large enough, the element behind the points is never drawn, and what the manager
still has of old games fits the new one. -/
structure StartsFresh (calls : List (MineCall ι)) (s : MineSweeperMgr) (x y k : ℕ) (rand : ℕ → ℕ) : Prop where
  room (size : ℕ) (h : calls.findSome? asks = some size) : x * y ≤ size
  drawn : x * y ∉ drawnIdxs rand (x * y) (mineCount (x * y) k)
  openPoint : s.mOpenPoint = 0
  mines : s.minePoints ⊆ (boardMines rand x y k).toFinset
  cells (q : Point) (info : PointInfo) (h : s.cell q = some info) :
    Clean (boardPoints x y) (boardMines rand x y k) q info

/-- In every process the new game is fresh exactly under these conditions. -/
theorem new_game_fresh_iff {calls : List (MineCall ι)} {s : MineProcess ι} (hs : exec step start calls = some s)
    (m : ι) (x y k : ℕ) (rand : ℕ → ℕ) (memory : ℕ → Point) (hk : k ≤ x * y) :
    FreshGame s m x y k rand memory ↔ StartsFresh calls (s.mgr m) x y k rand := by
  have hcount := mineCount_le hk
  have hsize : s.ary.map MinePointAry.size = calls.findSome? asks := run_size hs
  -- the new process
  have hnew (memory' : ℕ → Point) :
      ∃ a v, new.createMap rand none memory' x y k = some (a, v) ∧
        Created new v x y (placed none memory' rand x y k) := by
    obtain ⟨a, v, hv, -, hcreated⟩ := @createMap_spec new rand none memory' x y k le_rfl hcount
    exact ⟨a, v, hv, hcreated⟩
  -- this process, where the array has room
  have hthis (hroom : ∀ size, calls.findSome? asks = some size → x * y ≤ size) :
      ∃ a u, (s.mgr m).createMap rand s.ary memory x y k = some (a, u) ∧ x * y ≤ a.size ∧
        Created (s.mgr m) u x y (placed s.ary memory rand x y k) := by
    have hle : x * y ≤ (s.ary.map MinePointAry.size).getD (x * y) := by
      rw [hsize]
      cases hfirst : calls.findSome? asks with
      | none => exact le_rfl
      | some size => exact hroom size hfirst
    obtain ⟨a, u, hu, ha, hcreated⟩ := createMap_spec hle hcount
    exact ⟨a, u, hu, ha ▸ hle, hcreated⟩
  constructor
  · intro h
    obtain ⟨a, u, hu, -, hall⟩ := h
    have hroom : ∀ size, calls.findSome? asks = some size → x * y ≤ size := by
      intro size hfirst
      by_contra hlt
      obtain ⟨b, hb, rfl⟩ := Option.map_eq_some_iff.mp (hsize.trans hfirst)
      simp [createMap_eq_none ⟨b, hb, not_le.mp hlt⟩] at hu
    have hdrawn : x * y ∉ drawnIdxs rand (x * y) (mineCount (x * y) k) := by
      intro hmem
      -- a point that is no mine here, put behind the array there
      obtain ⟨p, hp⟩ := Infinite.exists_notMem_finset u.minePoints
      obtain ⟨a', v, hv, hsame⟩ := hall fun _ => p
      obtain ⟨_, v', hv', hcreated⟩ := hnew fun _ => p
      obtain ⟨-, rfl⟩ := Prod.mk.inj (Option.some.inj (hv.symm.trans hv'))
      apply hp
      rw [hsame.2.1, hcreated.minePoints]
      refine Finset.mem_union_right _ (List.mem_toFinset.mpr (List.mem_map.mpr ⟨_, hmem, ?_⟩))
      simp [fillAry, length_boardPoints]
    obtain ⟨_, u', hu', -, hcreated⟩ := hthis hroom
    obtain ⟨-, rfl⟩ := Prod.mk.inj (Option.some.inj (hu.symm.trans hu'))
    obtain ⟨_, v, hv, hsame⟩ := hall memory
    obtain ⟨_, v', hv', hcreated'⟩ := hnew memory
    obtain ⟨-, rfl⟩ := Prod.mk.inj (Option.some.inj (hv.symm.trans hv'))
    rw [placed_eq hcount hdrawn] at hcreated hcreated'
    obtain ⟨hopen, hmines, hclean⟩ :=
      (sameGame_iff hcreated hcreated' (boardMines_subset hcount hdrawn)).mp hsame
    exact ⟨hroom, hdrawn, hopen, hmines, hclean⟩
  · intro h
    obtain ⟨a, u, hu, ha, hcreated⟩ := hthis h.room
    refine ⟨a, u, hu, ha, fun memory' => ?_⟩
    obtain ⟨a', v, hv, hcreated'⟩ := hnew memory'
    rw [placed_eq hcount h.drawn] at hcreated hcreated'
    exact ⟨a', v, hv, (sameGame_iff hcreated hcreated' (boardMines_subset hcount h.drawn)).mpr
      ⟨h.openPoint, h.mines, h.cells⟩⟩

/-- The arguments that make sense. -/
def InDomain : MineCall ι → Prop
  | .createMap _ nMaxX nMaxY nMaxMine _ _ => (1 ≤ nMaxX ∧ 1 ≤ nMaxY) ∧ nMaxMine ≤ nMaxX * nMaxY
  | .construct _ | .createLevel _ _ _ _ | .onClickPoint _ _ => True

/-- A map of two cells, the first one a mine. -/
def firstGame : List (MineCall Unit) := [.createMap () 1 2 1 (fun _ => 0) fun _ => ⟨0, 0⟩]

theorem firstGame_isSome : (exec step start firstGame).isSome := by decide +kernel

def played : MineProcess Unit := (exec step start firstGame).get firstGame_isSome

theorem exec_firstGame : exec step start firstGame = some played := (Option.some_get _).symm

theorem new_game_fresh_iff_played :
    FreshGame played () 1 2 1 (fun _ => 1) (fun _ => ⟨0, 0⟩) ↔
      StartsFresh firstGame (played.mgr ()) 1 2 1 fun _ => 1 :=
  new_game_fresh_iff exec_firstGame () 1 2 1 (fun _ => 1) (fun _ => ⟨0, 0⟩) (by omega)

/-- The mine of the first game is still one in the second. -/
theorem not_new_game_fresh :
    ¬ ∀ (calls : List (MineCall Unit)) (s : MineProcess Unit), (∀ c ∈ calls, InDomain c) →
      exec step start calls = some s → ∀ (m : Unit) (x y k : ℕ) (rand : ℕ → ℕ) (memory : ℕ → Point),
        1 ≤ x → 1 ≤ y → k ≤ x * y → FreshGame s m x y k rand memory := by
  intro h
  have hdomain : ∀ c ∈ firstGame, InDomain c := by
    intro c hc
    obtain rfl := List.mem_singleton.mp hc
    exact ⟨⟨le_rfl, by omega⟩, by omega⟩
  obtain ⟨a, u, hu, -, hall⟩ := h firstGame played hdomain exec_firstGame () 1 2 1 (fun _ => 1)
    (fun _ => ⟨0, 0⟩) (by omega) (by omega) (by omega)
  obtain ⟨a', v, hv, -, hmines, -⟩ := hall fun _ => ⟨0, 0⟩
  have hdiff :
      (((played.mgr ()).createMap (fun _ => 1) played.ary (fun _ => ⟨0, 0⟩) 1 2 1).map fun t => t.2.minePoints) ≠
      (new.createMap (fun _ => 1) none (fun _ => ⟨0, 0⟩) 1 2 1).map fun t => t.2.minePoints := by
    decide +kernel
  rw [hu, hv] at hdiff
  exact hdiff (congrArg some hmines)

end MineProcess

end Chaos
