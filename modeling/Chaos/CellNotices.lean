import Mathlib.Data.Finset.Card
import Mathlib.Tactic.Tauto

/-!
# Notices to the members of cells

A thing that changes its place has two sets of cells around it, those around the old place and those around
the new one. The members of a cell are called once for each set that the cell is in: `leaveSet`, `enterSet`
and the union `moveSet`.
-/
namespace Chaos.CellNotices

variable {ι ο : Type*}

section Calls
variable (member : ο → ι → Prop) [∀ o i, Decidable (member o i)]

/-- How often an observer is called when the members of some cells are. -/
def calls (cells : List ι) (o : ο) : ℕ := cells.countP fun i => member o i

variable {member} {cells : List ι} {o : ο}

theorem calls_pos_iff : 0 < calls member cells o ↔ ∃ i ∈ cells, member o i := by
  simp only [calls, List.countP_pos_iff, decide_eq_true_eq]

theorem calls_eq_zero (h : ∀ i ∈ cells, ¬ member o i) : calls member cells o = 0 := by
  apply List.countP_eq_zero.mpr
  intro i hi
  simpa using h i hi

theorem calls_le_one_iff (hcells : cells.Nodup) :
    calls member cells o ≤ 1 ↔ ∀ i ∈ cells, ∀ j ∈ cells, member o i → member o j → i = j := by
  classical
  have hnodup : (cells.filter fun i => member o i).Nodup := hcells.filter _
  rw [calls, List.countP_eq_length_filter, ← List.toFinset_card_of_nodup hnodup, Finset.card_le_one]
  simp only [List.mem_toFinset, List.mem_filter, decide_eq_true_eq]
  constructor
  · intro h i hi j hj hoi hoj
    exact h i ⟨hi, hoi⟩ j ⟨hj, hoj⟩
  · intro h i hi j hj
    exact h i hi.1 j hj.1 hi.2 hj.2

end Calls

variable [BEq ι] [LawfulBEq ι]

section Sets
variable (oldSet newSet : List ι)

def leaveSet : List ι := oldSet.filter fun i => i ∉ newSet

def enterSet : List ι := newSet.filter fun i => i ∉ oldSet

def moveSet : List ι := oldSet ++ enterSet oldSet newSet

/-- No observer is in a cell of one set only, and none is in two cells of both. -/
structure Settled (member : ο → ι → Prop) (oldSet newSet : List ι) : Prop where
  left : ∀ i ∈ oldSet, i ∉ newSet → ∀ o, ¬ member o i
  entered : ∀ i ∈ newSet, i ∉ oldSet → ∀ o, ¬ member o i
  single : ∀ i ∈ oldSet, i ∈ newSet → ∀ j ∈ oldSet, j ∈ newSet → ∀ o, member o i → member o j → i = j

end Sets

section Members
variable {member : ο → ι → Prop} {oldSet newSet cells : List ι} {i : ι} {o : ο}

theorem mem_leaveSet : i ∈ leaveSet oldSet newSet ↔ i ∈ oldSet ∧ i ∉ newSet := by
  rw [leaveSet, List.mem_filter, decide_eq_true_eq]

theorem mem_enterSet : i ∈ enterSet oldSet newSet ↔ i ∈ newSet ∧ i ∉ oldSet := by
  rw [enterSet, List.mem_filter, decide_eq_true_eq]

theorem mem_moveSet : i ∈ moveSet oldSet newSet ↔ i ∈ oldSet ∨ i ∈ newSet := by
  rw [moveSet, List.mem_append, mem_enterSet]
  tauto

theorem nodup_moveSet (hold : oldSet.Nodup) (hnew : newSet.Nodup) : (moveSet oldSet newSet).Nodup := by
  refine List.nodup_append.mpr ⟨hold, hnew.filter _, ?_⟩
  intro i hi j hj heq
  exact (mem_enterSet.mp hj).2 (heq ▸ hi)

/-- A cell with a member is in both sets. -/
theorem Settled.both (h : Settled member oldSet newSet) (hi : i ∈ moveSet oldSet newSet) (ho : member o i) :
    i ∈ oldSet ∧ i ∈ newSet := by
  rcases mem_moveSet.mp hi with hold | hnew
  · exact ⟨hold, not_imp_comm.mp (h.left i hold) fun hall => hall o ho⟩
  · exact ⟨not_imp_comm.mp (h.entered i hnew) fun hall => hall o ho, hnew⟩

variable [∀ o i, Decidable (member o i)]

theorem Settled.calls_leave (h : Settled member oldSet newSet) (o : ο) :
    calls member (leaveSet oldSet newSet) o = 0 := by
  apply calls_eq_zero
  intro i hi
  obtain ⟨hold, hnew⟩ := mem_leaveSet.mp hi
  exact h.left i hold hnew o

theorem Settled.calls_enter (h : Settled member oldSet newSet) (o : ο) :
    calls member (enterSet oldSet newSet) o = 0 := by
  apply calls_eq_zero
  intro i hi
  obtain ⟨hnew, hold⟩ := mem_enterSet.mp hi
  exact h.entered i hnew hold o

theorem Settled.calls_move_le (h : Settled member oldSet newSet) (hold : oldSet.Nodup) (hnew : newSet.Nodup)
    (o : ο) : calls member (moveSet oldSet newSet) o ≤ 1 := by
  apply (calls_le_one_iff (nodup_moveSet hold hnew)).mpr
  intro i hi j hj hoi hoj
  obtain ⟨hiold, hinew⟩ := h.both hi hoi
  obtain ⟨hjold, hjnew⟩ := h.both hj hoj
  exact h.single i hiold hinew j hjold hjnew o hoi hoj

/-- Every observer is called at most once just when the cells are settled: who is in a cell of one set only is
called for that set and for the union. -/
theorem calls_le_one_iff_settled (hold : oldSet.Nodup) (hnew : newSet.Nodup) :
    (∀ o, calls member (leaveSet oldSet newSet) o + calls member (enterSet oldSet newSet) o +
      calls member (moveSet oldSet newSet) o ≤ 1) ↔ Settled member oldSet newSet := by
  constructor
  · intro h
    constructor
    · intro i hi hi' o ho
      have hleave : 0 < calls member (leaveSet oldSet newSet) o :=
        calls_pos_iff.mpr ⟨i, mem_leaveSet.mpr ⟨hi, hi'⟩, ho⟩
      have hmove : 0 < calls member (moveSet oldSet newSet) o :=
        calls_pos_iff.mpr ⟨i, mem_moveSet.mpr (.inl hi), ho⟩
      have hsum := h o
      omega
    · intro i hi hi' o ho
      have henter : 0 < calls member (enterSet oldSet newSet) o :=
        calls_pos_iff.mpr ⟨i, mem_enterSet.mpr ⟨hi, hi'⟩, ho⟩
      have hmove : 0 < calls member (moveSet oldSet newSet) o :=
        calls_pos_iff.mpr ⟨i, mem_moveSet.mpr (.inr hi), ho⟩
      have hsum := h o
      omega
    · intro i hi _ j hj _ o
      have hsum := h o
      have hmove : calls member (moveSet oldSet newSet) o ≤ 1 := by omega
      exact (calls_le_one_iff (nodup_moveSet hold hnew)).mp hmove i (mem_moveSet.mpr (.inl hi)) j
        (mem_moveSet.mpr (.inl hj))
  · intro h o
    rw [h.calls_leave, h.calls_enter, Nat.add_zero, Nat.zero_add]
    exact h.calls_move_le hold hnew o

/-- The members of a cell of both sets are called once. -/
theorem Settled.calls_move_eq (h : Settled member oldSet newSet) (hold : oldSet.Nodup) (hnew : newSet.Nodup)
    (hi : i ∈ oldSet) (ho : member o i) : calls member (moveSet oldSet newSet) o = 1 := by
  have hpos : 0 < calls member (moveSet oldSet newSet) o := calls_pos_iff.mpr ⟨i, mem_moveSet.mpr (.inl hi), ho⟩
  have hle := h.calls_move_le hold hnew o
  omega

end Members

end Chaos.CellNotices
