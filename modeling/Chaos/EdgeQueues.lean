import Mathlib.Data.List.Basic

/-!
# Input behind an edge-triggered report

What waits at a source that reports edges: `covered` came before the last report and `fresh` after it. A
new edge is raised by input that comes after the report, and by arming the source again while something
waits. A handler that leaves covered input and does not arm the source again leaves it without an edge.
-/
namespace Chaos.EdgeQueues

structure EdgeQueue (α : Type*) where
  covered : List α
  fresh : List α
  rearmed : Bool
  deriving DecidableEq, Repr

namespace EdgeQueue

variable {α : Type*} (q : EdgeQueue α)

/-- A source that has not reported yet; its input is to be reported. -/
def start (fresh : List α) : EdgeQueue α := ⟨[], fresh, false⟩

def waiting : List α := q.covered ++ q.fresh

/-- An edge is pending. -/
def edge : Bool := !q.fresh.isEmpty || (q.rearmed && !q.covered.isEmpty)

def arrive (input : List α) : EdgeQueue α := { q with fresh := q.fresh ++ input }

def report : EdgeQueue α := ⟨q.waiting, [], false⟩

/-- The oldest `k` are taken. -/
def take (k : ℕ) : EdgeQueue α :=
  { q with covered := q.covered.drop k, fresh := q.fresh.drop (k - q.covered.length) }

def rearm : EdgeQueue α := { q with rearmed := true }

/-- The report is done with. -/
def Settled : Prop := q.rearmed = false → q.covered = []

instance [DecidableEq α] : Decidable q.Settled := inferInstanceAs (Decidable (_ → _))

theorem settled_start (fresh : List α) : (start fresh).Settled := fun _ => rfl

theorem settled_rearm : q.rearm.Settled := fun h => by cases h

/-- Covered input that is left takes the report with it. -/
theorem settled_take_iff (h : q.rearmed = false) (k : ℕ) : (q.take k).Settled ↔ q.covered.length ≤ k := by
  have hdrop : (q.take k).Settled ↔ q.covered.drop k = [] := ⟨fun hs => hs h, fun hs _ => hs⟩
  rw [hdrop, List.drop_eq_nil_iff]

/-- Where the report is done with whatever waits has its edge. -/
theorem edge_of_settled (h : q.Settled) (hwaiting : q.waiting ≠ []) : q.edge = true := by
  cases hfresh : q.fresh with
  | cons a fresh => simp [edge, hfresh]
  | nil =>
    have hcovered : q.covered ≠ [] := by simpa [waiting, hfresh] using hwaiting
    cases hr : q.rearmed with
    | false => exact absurd (h hr) hcovered
    | true => simp [edge, hfresh, hr, hcovered]

end EdgeQueue

end Chaos.EdgeQueues
