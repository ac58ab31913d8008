import Chaos.GuardedRuns
import Chaos.Word32
import Mathlib.Data.Finset.Erase
import Mathlib.Data.Finset.Insert
import Mathlib.Data.List.ProdSigma
import Mathlib.Data.Rat.Defs

/-!
# The area of interest

`AOIManager` of `gamesvr/aoi/AOIManager.cpp`, with exact rationals for `float`. An entity is an address, its
location is its own, and the grids hold the entities. The calls of `AOIEnter`, `AOILeave` and `AOIMove` are
kept for each receiver in their order. An access beyond `m_grids` has no behaviour: the operation is `none`
there.
-/
namespace Chaos

structure AOILocation where
  x : ℚ
  y : ℚ
  z : ℚ
  deriving DecidableEq, Repr

/-- The sizes of a grid; a division by one of them is a division by at least 1. -/
structure AOISenceSize where
  length : ℕ
  width : ℕ
  high : ℕ
  pos : 1 ≤ length ∧ 1 ≤ width ∧ 1 ≤ high

structure AOISenceRange where
  xleft : ℚ
  xright : ℚ
  ytop : ℚ
  ybottom : ℚ
  ztop : ℚ
  zbottom : ℚ

/-- What the constructor is given besides the path algorithm. -/
structure AOISence where
  senceRange : AOISenceRange
  gridSize : AOISenceSize

/-- The indices into `m_grids`. -/
abbrev GridIdx := ℕ × ℕ × ℕ

/-- A call that an entity receives about `target`. -/
inductive AOINotice where
  | enter (target : ℕ) (pos : AOILocation)
  | leave (target : ℕ)
  | move (target : ℕ) (pos : AOILocation)
  deriving DecidableEq, Repr

def AOINotice.target : AOINotice → ℕ
  | .enter target _ | .leave target | .move target _ => target

/-- `notices` are the calls that each entity has received. -/
structure AOIManager where
  location : ℕ → AOILocation
  entities : GridIdx → Finset ℕ
  notices : ℕ → List AOINotice

namespace AOISence

open Word32

variable (c : AOISence)

/-- `(uint32)ceil(x)`, which has a value where the ceiling is a `uint32`. -/
def ceil32 (x : ℚ) : Option ℕ := if 0 ≤ x.ceil ∧ x.ceil < word32 then some x.ceil.toNat else none

/-- A `uint32` that is stored in an `int`. -/
def toInt (n : ℕ) : ℤ := if n < 2147483648 then n else n - word32

/-- The number of grids that the constructor allocates along an axis. -/
def allocated (left right : ℚ) (grid : ℕ) : Option ℕ :=
  (ceil32 (right - left)).map fun size =>
    let maxPiece := toInt (size / grid + if 0 < size % grid then 1 else 0)
    if maxPiece ≤ 0 then 1 else maxPiece.toNat

/-- No grids where the size of the scene has no value as a `uint32`. -/
def maxPiece (left right : ℚ) (grid : ℕ) : ℕ := (allocated left right grid).getD 0

def xMaxPiece : ℕ := maxPiece c.senceRange.xleft c.senceRange.xright c.gridSize.length

def yMaxPiece : ℕ := maxPiece c.senceRange.ybottom c.senceRange.ytop c.gridSize.width

def zMaxPiece : ℕ := maxPiece c.senceRange.zbottom c.senceRange.ztop c.gridSize.high

def checkPos (pos : AOILocation) : Bool :=
  !(pos.x < c.senceRange.xleft || pos.x > c.senceRange.xright ||
    pos.y < c.senceRange.ybottom || pos.y > c.senceRange.ytop ||
    pos.z < c.senceRange.zbottom || pos.z > c.senceRange.ztop)

/-- The index in an `int` differs only where there is no grid in any case. -/
def getGridIdxByPos (pos : AOILocation) : GridIdx :=
  (((pos.x - c.senceRange.xleft) / c.gridSize.length).ceil.toNat,
    ((pos.y - c.senceRange.ybottom) / c.gridSize.width).ceil.toNat,
    ((pos.z - c.senceRange.zbottom) / c.gridSize.high).ceil.toNat)

/-- The grid is one of `m_grids`. -/
def hasGrid (g : GridIdx) : Bool := g.1 < c.xMaxPiece && g.2.1 < c.yMaxPiece && g.2.2 < c.zMaxPiece

def getGridByPos (pos : AOILocation) : Option GridIdx :=
  let g := c.getGridIdxByPos pos
  if c.checkPos pos && c.hasGrid g then some g else none

/-- The indices `idx - 1` and `idx` as far as the bounds let them through. -/
def around (idx bound : ℕ) : List ℕ := (if idx = 0 then [0] else [idx - 1, idx]).filter fun i => i < bound

/-- The third bound of `FindAroundGrids` lets the index `m_grids[x][y].size()` through. -/
def aroundGrids (g : GridIdx) : List GridIdx :=
  (around g.1 c.xMaxPiece).product ((around g.2.1 c.yMaxPiece).product (around g.2.2 (c.zMaxPiece + 1)))

def findAroundGrids (pos : AOILocation) : List GridIdx :=
  if c.checkPos pos then c.aroundGrids (c.getGridIdxByPos pos) else []

end AOISence

namespace AOIManager

open GuardedRuns

variable (c : AOISence) (s : AOIManager) (p : ℕ)

/-- Nobody is in a grid yet. -/
def new (location : ℕ → AOILocation) : AOIManager := ⟨location, fun _ => ∅, fun _ => []⟩

def setLocation (pos : AOILocation) : AOIManager :=
  { s with location := Function.update s.location p pos }

def insert (g : GridIdx) : AOIManager :=
  { s with entities := Function.update s.entities g (Insert.insert p (s.entities g)) }

def erase (g : GridIdx) : AOIManager :=
  { s with entities := Function.update s.entities g ((s.entities g).erase p) }

/-- An entity is called once for each of the grids that it is in. -/
def notifyGrids (grids : List GridIdx) (notice : AOINotice) : AOIManager :=
  { s with notices := fun o =>
      s.notices o ++ List.replicate (grids.countP fun g => o ∈ s.entities g) notice }

def notifyAroundGrids (notice : AOINotice) : AOIManager :=
  s.notifyGrids (c.findAroundGrids (s.location p)) notice

def enter (pos : AOILocation) : Option AOIManager :=
  if c.checkPos pos then
    (c.getGridByPos pos).map fun g =>
      (((s.setLocation p pos).insert p g).notifyAroundGrids c p (.enter p pos))
  else some s

def leave : Option AOIManager :=
  if c.checkPos (s.location p) then
    (c.getGridByPos (s.location p)).map fun g => (s.erase p g).notifyAroundGrids c p (.leave p)
  else some s

/-- The branch of `Move` for two grids. -/
def crossGrid (pos : AOILocation) (oldGrid newGrid : GridIdx) : AOIManager :=
  let oldSet := c.findAroundGrids (s.location p)
  let newSet := c.findAroundGrids pos
  let leaveSet := oldSet.filter fun g => g ∉ newSet
  let enterSet := newSet.filter fun g => g ∉ oldSet
  let moveSet := oldSet ++ enterSet
  ((((s.erase p oldGrid).insert p newGrid).notifyGrids leaveSet (.leave p)).notifyGrids enterSet
    (.enter p pos)).notifyGrids moveSet (.move p pos)

/-- The body of the loop of `Move` behind its `CheckPos`. -/
def movePos (pos : AOILocation) : Option AOIManager :=
  (c.getGridByPos (s.location p)).bind fun oldGrid =>
    (c.getGridByPos pos).map fun newGrid =>
      (if oldGrid = newGrid then s.notifyAroundGrids c p (.move p pos)
        else s.crossGrid c p pos oldGrid newGrid).setLocation p pos

/-- The loop of `Move`, with its answer. -/
def moveLoop (s : AOIManager) : List AOILocation → Option (AOIManager × Bool)
  | [] => some (s, true)
  | pos :: locations =>
    if c.checkPos pos then (s.movePos c p pos).bind fun t => t.moveLoop locations else some (s, false)

/-- `locations` is what the path algorithm found. -/
def move (targetPos : AOILocation) (locations : List AOILocation) : Option (AOIManager × Bool) :=
  if c.checkPos targetPos then s.moveLoop c p locations else some (s, false)

section Entities
variable (m : AOIManager) (p q : ℕ) (g g' : GridIdx)

theorem mem_insert : q ∈ (m.insert p g).entities g' ↔ q ∈ m.entities g' ∨ q = p ∧ g' = g := by
  rcases eq_or_ne g' g with rfl | hne
  · simp [insert, or_comm]
  · simp [insert, hne]

theorem mem_erase : q ∈ (m.erase p g).entities g' ↔ q ∈ m.entities g' ∧ (q = p → g' ≠ g) := by
  rcases eq_or_ne g' g with rfl | hne
  · simp [erase, and_comm]
  · simp [erase, hne]

@[simp] theorem setLocation_self (pos : AOILocation) : (m.setLocation p pos).location p = pos := by
  simp [setLocation]

theorem setLocation_of_ne (pos : AOILocation) (h : q ≠ p) : (m.setLocation p pos).location q = m.location q := by
  simp [setLocation, h]

end Entities

section Loop
variable {c : AOISence} {s : AOIManager} {p : ℕ} {pos : AOILocation} {g g' : GridIdx}

theorem movePos_stay (hold : c.getGridByPos (s.location p) = some g) (hpos : c.getGridByPos pos = some g) :
    s.movePos c p pos = some ((s.notifyAroundGrids c p (.move p pos)).setLocation p pos) := by
  rw [movePos, hold, hpos, Option.bind_some, Option.map_some, if_pos rfl]

theorem movePos_cross (hold : c.getGridByPos (s.location p) = some g) (hpos : c.getGridByPos pos = some g')
    (hne : g ≠ g') : s.movePos c p pos = some ((s.crossGrid c p pos g g').setLocation p pos) := by
  rw [movePos, hold, hpos, Option.bind_some, Option.map_some, if_neg hne]

/-- The loop goes through the locations up to the first that `CheckPos` refuses. -/
theorem moveLoop_eq (s : AOIManager) (locations : List AOILocation) : s.moveLoop c p locations =
    (exec (fun m pos => m.movePos c p pos) s (locations.takeWhile c.checkPos)).map
      fun t => (t, locations.all c.checkPos) := by
  induction locations generalizing s with
  | nil => rfl
  | cons pos locations ih =>
    cases hpos : c.checkPos pos with
    | false => simp [moveLoop, exec, hpos]
    | true =>
      simp only [moveLoop, hpos, if_true, List.takeWhile_cons, exec, List.all_cons, Bool.true_and]
      cases s.movePos c p pos with
      | none => rfl
      | some t => exact ih t

end Loop

end AOIManager

end Chaos
