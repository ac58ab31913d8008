import Chaos.GuardedRuns
import Mathlib.Data.Finmap
import Mathlib.Data.Finset.Card
import Mathlib.Data.Int.Notation

/-!
# The mine sweeper

`MineSweeperMgr` of `gamesvr/mine_sweeper`: the board, the clicks and the recursive opening of its cells.
A `std::map` is a finite map, an `int` an integer; what is printed and the two times are left out.
-/
namespace Chaos

@[ext] structure Point where
  x : ℤ
  y : ℤ
  deriving DecidableEq, Repr

/-- The content of a cell with a mine. -/
def landmine : ℤ := -1

inductive MineSweeperStatus where
  | mssDefault
  | mssOpen
  | mssFlag
  deriving DecidableEq, Repr

structure PointInfo where
  status : MineSweeperStatus := .mssDefault
  content : ℤ := 0
  deriving DecidableEq, Repr

/-- The only action that `OnClickPoint` tells from the others; `PA_OPEN` is 1. -/
def paFlag : ℤ := 2

abbrev MineSweepMap := Finmap fun _ : Point => PointInfo

/-- `mOpenPoint` is the counter `m_open_point`. -/
structure MineSweeperMgr where
  maxPoint : Point
  maxMine : ℤ
  mineSweeperMap : MineSweepMap
  minePoints : Finset Point
  mOpenPoint : ℤ

namespace MineSweeperMgr

open GuardedRuns

/-- The constructor. -/
def new : MineSweeperMgr := ⟨⟨0, 0⟩, 0, ∅, ∅, 0⟩

/-- `GetPointAroundMine`. The corners ask for two bounds, a cell behind the other edges is pushed too. -/
def getPointAroundMine (maxPoint rePoint : Point) : List Point :=
  let x := rePoint.x
  let y := rePoint.y
  let push (ok : Bool) (desPoint : Point) : List Point := if ok then [desPoint] else []
  push (y + 1 ≤ maxPoint.y) ⟨x, y + 1⟩ ++
  push (x + 1 ≤ maxPoint.x && y + 1 ≤ maxPoint.y) ⟨x + 1, y + 1⟩ ++
  push (x + 1 ≤ maxPoint.x) ⟨x + 1, y⟩ ++
  push (x + 1 ≤ maxPoint.x && 0 ≤ y - 1) ⟨x + 1, y - 1⟩ ++
  push (0 ≤ y - 1) ⟨x, y - 1⟩ ++
  push (0 ≤ x - 1 && 0 ≤ y - 1) ⟨x - 1, y - 1⟩ ++
  push (0 ≤ x - 1) ⟨x - 1, y⟩ ++
  push (0 ≤ x - 1 && y + 1 ≤ maxPoint.y) ⟨x - 1, y + 1⟩

variable (s : MineSweeperMgr) (point : Point)

def cell : Option PointInfo := s.mineSweeperMap.lookup point

/-- `it->second.Status = status` for the cell `info` found at `point`. -/
def setStatus (info : PointInfo) (status : MineSweeperStatus) : MineSweeperMgr :=
  { s with mineSweeperMap := s.mineSweeperMap.insert point { info with status := status } }

/-- The two writes of `OpenPoint`. -/
def openCell (info : PointInfo) : MineSweeperMgr :=
  { s.setStatus point info .mssOpen with mOpenPoint := s.mOpenPoint + 1 }

/-- `OpenPoint`; `fuel` bounds the depth of the recursion, `none` is a deeper one. -/
def openPoint : ℕ → MineSweeperMgr → Point → Option MineSweeperMgr
  | 0, _, _ => none
  | fuel + 1, s, point => match s.cell point with
    | none => some s
    | some info =>
      if info.content = landmine ∨ info.status ≠ .mssDefault then some s
      else if info.content = 0 then
        exec (openPoint fuel) (s.openCell point info) (getPointAroundMine s.maxPoint point)
      else some (s.openCell point info)

/-- `OnClickPoint`: the manager after the call and its return value. -/
def onClickPoint (nAction : ℤ) : Option (MineSweeperMgr × ℤ) :=
  match s.cell point with
  | none => some (s, 0)
  | some info =>
    if info.status ≠ .mssDefault then some (s, 0)
    -- `PA_FLAG` itself is stored, it is the number of `MSS_FLAG`
    else if nAction = paFlag then some (s.setStatus point info .mssFlag, 0)
    else if info.content = landmine then some (s, -2)
    else (openPoint (s.mineSweeperMap.keys.card + 1) s point).map fun t =>
      (t, if (t.maxPoint.x + 1) * (t.maxPoint.y + 1) - t.maxMine ≤ t.mOpenPoint then 1 else 0)

/-- A call of `OnClickPoint`. -/
structure Click where
  point : Point
  nAction : ℤ
  deriving DecidableEq, Repr

/-- A click as a step; its return value is dropped. -/
def click (c : Click) : Option MineSweeperMgr := (s.onClickPoint c.point c.nAction).map Prod.fst

/-! ## What the cells show -/

/-- The cells that show `status`. -/
def showing (status : MineSweeperStatus) : Finset Point :=
  s.mineSweeperMap.keys.filter fun p => (s.cell p).map PointInfo.status = some status

variable {s point} {p : Point} {info : PointInfo} {status : MineSweeperStatus}

theorem mem_keys : p ∈ s.mineSweeperMap.keys ↔ ∃ i, s.cell p = some i := by
  rw [Finmap.mem_keys, Finmap.mem_iff]
  rfl

@[simp] theorem mem_showing : p ∈ s.showing status ↔ ∃ i, s.cell p = some i ∧ i.status = status := by
  simp only [showing, Finset.mem_filter, mem_keys, Option.map_eq_some_iff]
  constructor
  · intro h
    exact h.2
  · intro h
    obtain ⟨i, hi, hs⟩ := h
    exact ⟨⟨i, hi⟩, i, hi, hs⟩

@[simp] theorem cell_setStatus_self : (s.setStatus point info status).cell point = some { info with status := status } :=
  Finmap.lookup_insert _

theorem cell_setStatus_of_ne (h : p ≠ point) : (s.setStatus point info status).cell p = s.cell p :=
  Finmap.lookup_insert_of_ne _ h

@[simp] theorem cell_openCell_self : (s.openCell point info).cell point = some { info with status := .mssOpen } :=
  cell_setStatus_self

theorem cell_openCell_of_ne (h : p ≠ point) : (s.openCell point info).cell p = s.cell p :=
  cell_setStatus_of_ne h

end MineSweeperMgr

end Chaos
