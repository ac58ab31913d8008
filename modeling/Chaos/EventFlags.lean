import Mathlib.Data.List.Basic

/-!
# Event masks

The `EV_` constants of `net/Event.h`; a mask is a `short`.
-/
namespace Chaos

abbrev EvMask := BitVec 16

def evIoread : EvMask := 1#16

def evIowrite : EvMask := 1#16 <<< 1

def evIoexcept : EvMask := 1#16 <<< 2

def evTimeout : EvMask := 1#16 <<< 3

def evSignal : EvMask := 1#16 <<< 4

def evCancel : EvMask := 1#16 <<< 5

def evError : EvMask := 1#16 <<< 6

def baseCareEvent : EvMask := evCancel

def ioCareEvent : EvMask := evIoread ||| evIowrite ||| evIoexcept

def timeoutCartEvent : EvMask := evTimeout

/-- `ev & mask` as a condition. -/
def EvMask.meets (ev mask : EvMask) : Bool := ev &&& mask != 0#16

/-- The operations of `EVENT_UPDATE_OP`. -/
inductive EventUpdateOp where
  | add
  | del
  deriving DecidableEq, Repr

/-- What `Event::UpdateEvent` does to the mask of a registered event. -/
def EventUpdateOp.apply : EventUpdateOp → EvMask → EvMask → EvMask
  | .add, m, ev => m ||| ev
  | .del, m, ev => m &&& ~~~ev

/-- The bits `EnableEvent` and `DisableEvent` let through. -/
def ioValid (ev : EvMask) : EvMask :=
  (if ev.meets evIoread then evIoread else 0#16) |||
    (if ev.meets evIowrite then evIowrite else 0#16) |||
      (if ev.meets evIoexcept then evIoexcept else 0#16)

theorem meets_or_mask (ev a b : EvMask) : ev.meets (a ||| b) = (ev.meets a || ev.meets b) := by
  rw [Bool.eq_iff_iff, Bool.or_eq_true, EvMask.meets, EvMask.meets, EvMask.meets, bne_iff_ne, bne_iff_ne,
    bne_iff_ne, BitVec.and_or_distrib_left, ne_eq, BitVec.or_eq_zero_iff, not_and_or]

theorem meets_and_clear {m mask : EvMask} (h : m.meets mask = false) (ev : EvMask) :
    (m &&& ev).meets mask = false := by
  rw [EvMask.meets, bne_eq_false_iff_eq] at h ⊢
  rw [BitVec.and_assoc, BitVec.and_comm ev, ← BitVec.and_assoc, h, BitVec.zero_and]

theorem meets_eq_false_iff (ev mask : EvMask) : ev.meets mask = false ↔ ev &&& mask = 0#16 := by
  rw [EvMask.meets, bne_eq_false_iff_eq]

/-- Setting bits changes nothing under a mask where they are set there already. -/
theorem or_same_iff (m ev mask : EvMask) :
    (m ||| ev) &&& mask = m &&& mask ↔ (ev &&& ~~~m).meets mask = false := by
  rw [meets_eq_false_iff, BitVec.eq_of_getLsbD_eq_iff, BitVec.eq_of_getLsbD_eq_iff]
  refine forall₂_congr fun i hi => ?_
  simp only [BitVec.getLsbD_and, BitVec.getLsbD_or, BitVec.getLsbD_not, BitVec.getLsbD_zero, hi, decide_true,
    Bool.true_and]
  cases m.getLsbD i <;> cases ev.getLsbD i <;> simp

/-- Clearing bits changes nothing under a mask where none of them is set there. -/
theorem clear_same_iff (m ev mask : EvMask) :
    (m &&& ~~~ev) &&& mask = m &&& mask ↔ (m &&& ev).meets mask = false := by
  rw [meets_eq_false_iff, BitVec.eq_of_getLsbD_eq_iff, BitVec.eq_of_getLsbD_eq_iff]
  refine forall₂_congr fun i hi => ?_
  simp only [BitVec.getLsbD_and, BitVec.getLsbD_not, BitVec.getLsbD_zero, hi, decide_true, Bool.true_and]
  cases m.getLsbD i <;> cases ev.getLsbD i <;> simp

/-- The bits of a mask are those that another one has too and those that it has not. -/
theorem meets_eq_or (m ev mask : EvMask) : m.meets mask = ((m &&& ~~~ev).meets mask || (m &&& ev).meets mask) := by
  have hsplit : m = (m &&& ~~~ev) ||| (m &&& ev) := by
    rw [← BitVec.and_or_distrib_left, BitVec.or_comm, BitVec.or_not_self, BitVec.and_allOnes]
  have hor : ∀ a b : EvMask, (a ||| b).meets mask = (a.meets mask || b.meets mask) := by
    intro a b
    rw [EvMask.meets, BitVec.and_comm, EvMask.meets, BitVec.and_comm a, EvMask.meets, BitVec.and_comm b]
    exact meets_or_mask mask a b
  conv_lhs => rw [hsplit]
  exact hor _ _

theorem twoPow_ne_zero {i : ℕ} (hi : i < 16) : BitVec.twoPow 16 i ≠ 0#16 := by
  intro hzero
  have htrue := congrArg (fun b => b.getLsbD i) hzero
  simp [hi] at htrue

/-- A mask of one bit is met where the bit is set. -/
theorem meets_twoPow (ev : EvMask) {i : ℕ} (hi : i < 16) : ev.meets (BitVec.twoPow 16 i) = ev.getLsbD i := by
  rw [EvMask.meets, BitVec.and_twoPow]
  split_ifs with hbit
  · rw [hbit, bne_iff_ne]
    exact twoPow_ne_zero hi
  · rw [Bool.eq_false_iff.mpr hbit, bne_self_eq_false]

theorem and_twoPow_eq_iff (m m' : EvMask) {i : ℕ} (hi : i < 16) :
    m &&& BitVec.twoPow 16 i = m' &&& BitVec.twoPow 16 i ↔
      m.meets (BitVec.twoPow 16 i) = m'.meets (BitVec.twoPow 16 i) := by
  have hne := twoPow_ne_zero hi
  rw [meets_twoPow _ hi, meets_twoPow _ hi, BitVec.and_twoPow, BitVec.and_twoPow]
  cases m.getLsbD i <;> cases m'.getLsbD i <;> simp [hne, hne.symm]

/-- Two masks agree under a union where they agree under its parts. -/
theorem and_or_eq_iff (m m' a b : EvMask) :
    m &&& (a ||| b) = m' &&& (a ||| b) ↔ m &&& a = m' &&& a ∧ m &&& b = m' &&& b := by
  simp only [BitVec.eq_of_getLsbD_eq_iff, ← forall₂_and]
  refine forall₂_congr fun i _ => ?_
  simp only [BitVec.getLsbD_and, BitVec.getLsbD_or]
  cases m.getLsbD i <;> cases m'.getLsbD i <;> cases a.getLsbD i <;> cases b.getLsbD i <;> simp

/-- An update sets or clears the bits that it names. -/
theorem meets_apply_twoPow (op : EventUpdateOp) (m ev : EvMask) {i : ℕ} (hi : i < 16) :
    (op.apply m ev).meets (BitVec.twoPow 16 i) =
      if ev.meets (BitVec.twoPow 16 i) then decide (op = .add) else m.meets (BitVec.twoPow 16 i) := by
  rw [meets_twoPow _ hi, meets_twoPow _ hi, meets_twoPow _ hi]
  cases op with
  | add =>
    rw [EventUpdateOp.apply, BitVec.getLsbD_or]
    cases ev.getLsbD i <;> simp
  | del =>
    rw [EventUpdateOp.apply, BitVec.getLsbD_and, BitVec.getLsbD_not]
    cases ev.getLsbD i <;> simp [hi]

/-- `EnableEvent` and `DisableEvent` pass the bits of `IO_CARE_EVENT` on. -/
theorem meets_ioValid (ev : EvMask) {bit : EvMask} (hbit : bit ∈ [evIoread, evIowrite, evIoexcept]) :
    (ioValid ev).meets bit = ev.meets bit := by
  have hall : ∀ r w x : Bool, ∀ mask : EvMask, mask = ((if r then evIoread else 0#16) |||
      (if w then evIowrite else 0#16) ||| (if x then evIoexcept else 0#16)) →
      mask.meets evIoread = r ∧ mask.meets evIowrite = w ∧ mask.meets evIoexcept = x := by
    rintro r w x _ rfl
    cases r <;> cases w <;> cases x <;> decide
  obtain ⟨hread, hwrite, hexcept⟩ :=
    hall (ev.meets evIoread) (ev.meets evIowrite) (ev.meets evIoexcept) (ioValid ev) rfl
  simp only [List.mem_cons, List.not_mem_nil, or_false] at hbit
  rcases hbit with rfl | rfl | rfl
  · exact hread
  · exact hwrite
  · exact hexcept

theorem meets_apply_ioValid {bit : EvMask} (hbit : bit ∈ [evIoread, evIowrite, evIoexcept])
    (op : EventUpdateOp) (m ev : EvMask) : (op.apply m (ioValid ev)).meets bit =
      if ev.meets bit then decide (op = .add) else m.meets bit := by
  have htwo : ∃ i < 16, bit = BitVec.twoPow 16 i := by
    simp only [List.mem_cons, List.not_mem_nil, or_false] at hbit
    rcases hbit with rfl | rfl | rfl
    · exact ⟨0, by decide, by decide⟩
    · exact ⟨1, by decide, by decide⟩
    · exact ⟨2, by decide, by decide⟩
  rw [← meets_ioValid ev hbit]
  obtain ⟨i, hi, rfl⟩ := htwo
  exact meets_apply_twoPow op m (ioValid ev) hi

end Chaos
