import Mathlib.Data.List.Basic

/-!
# The binary heap

`template/MinHeap.h`. Positions start at 1 as in the source; the cells up to `m_curSize` are a list
and `m_totalSize` is kept beside it. The sift loops move a hole: the node is written once, where they
stop. `Push` assumes that fewer than 2^31 - 1 entries are held, past which the source writes out of
its array.
-/
namespace Chaos

structure MinHeap (α : Type) where
  heap : List α
  totalSize : ℕ

namespace MinHeap

variable {α : Type}

def new : MinHeap α := ⟨[], 0⟩

/-- `*Parent(pos)`, `none` at the root. -/
def parent (heap : List α) (pos : ℕ) : Option α := if pos / 2 = 0 then none else heap[pos / 2 - 1]?

/-- `Compare(Left(pos), Right(pos))` with the position it answers. -/
def child (cmp : α → α → Bool) (heap : List α) (pos : ℕ) : Option (α × ℕ) :=
  match heap[pos * 2 - 1]?, heap[pos * 2]? with
  | none, none => none
  | some l, none => some (l, pos * 2)
  | none, some r => some (r, pos * 2 + 1)
  | some l, some r => if cmp l r then some (l, pos * 2) else some (r, pos * 2 + 1)

/-- The loop of `ShiftUp`; the position halves, so its value is fuel enough. -/
def shiftUpLoop (cmp : α → α → Bool) (node : α) : ℕ → List α → ℕ → List α
  | 0, heap, pos => heap.set (pos - 1) node
  | fuel + 1, heap, pos =>
    match parent heap pos with
    | none => heap.set (pos - 1) node
    | some p =>
      if cmp node p then shiftUpLoop cmp node fuel (heap.set (pos - 1) p) (pos / 2)
      else heap.set (pos - 1) node

/-- The loop of `ShiftDown`; the position at least doubles, so the size is fuel enough. -/
def shiftDownLoop (cmp : α → α → Bool) (node : α) : ℕ → List α → ℕ → List α
  | 0, heap, pos => heap.set (pos - 1) node
  | fuel + 1, heap, pos =>
    match child cmp heap pos with
    | none => heap.set (pos - 1) node
    | some (c, cpos) =>
      if cmp c node then shiftDownLoop cmp node fuel (heap.set (pos - 1) c) cpos
      else heap.set (pos - 1) node

def expandSize (totalSize : ℕ) : ℕ := if totalSize = 0 then 64 else min (totalSize * 2) 0x7FFFFFFF

def push (cmp : α → α → Bool) (h : MinHeap α) (node : α) : MinHeap α where
  heap := shiftUpLoop cmp node (h.heap.length + 1) (h.heap ++ [node]) (h.heap.length + 1)
  totalSize := if h.heap.length ≥ h.totalSize then expandSize h.totalSize else h.totalSize

/-- `Erase(int pos)`: the last entry takes the place and sinks from there. -/
def erase (cmp : α → α → Bool) (h : MinHeap α) (pos : ℕ) : MinHeap α :=
  if pos = 0 ∨ pos > h.heap.length then h
  else match h.heap.getLast? with
    | none => h
    | some last =>
      let cells := (h.heap.set (pos - 1) last).dropLast
      { h with heap := if pos > cells.length then cells
          else shiftDownLoop cmp last cells.length cells pos }

def pop (cmp : α → α → Bool) (h : MinHeap α) : MinHeap α := h.erase cmp 1

def front (h : MinHeap α) : Option α := h.heap.head?

/-! ## The entries stay the same -/

theorem set_swap_perm {l : List α} {i j : ℕ} {a : α} (hi : i < l.length) (hj : l[j]? = some a)
    (hne : j ≠ i) (node : α) : ((l.set i a).set j node).Perm (l.set i node) := by
  obtain ⟨hjlt, hja⟩ := List.getElem?_eq_some_iff.mp hj
  have hi' : i < (l.set i node).length := by simpa using hi
  have hj' : j < (l.set i node).length := by simpa using hjlt
  have hperm := List.set_set_perm hi' hj'
  rw [List.getElem_set_self, List.getElem_set_ne (Ne.symm hne), hja, List.set_set] at hperm
  exact hperm

theorem perm_shiftUpLoop (cmp : α → α → Bool) (node : α) (fuel : ℕ) {l : List α} {pos : ℕ}
    (hpos : pos - 1 < l.length) : (shiftUpLoop cmp node fuel l pos).Perm (l.set (pos - 1) node) := by
  induction fuel generalizing l pos with
  | zero => exact List.Perm.refl _
  | succ fuel ih =>
    rw [shiftUpLoop]
    cases hp : parent l pos with
    | none => exact List.Perm.refl _
    | some p =>
      dsimp only
      split_ifs with hlt
      · have hhalf : pos / 2 ≠ 0 ∧ l[pos / 2 - 1]? = some p := by
          simpa [parent] using hp
        have hin : pos / 2 - 1 < (l.set (pos - 1) p).length := by
          rw [List.length_set]
          omega
        exact (ih hin).trans (set_swap_perm hpos hhalf.2 (by omega) node)
      · exact List.Perm.refl _

theorem child_eq_some {cmp : α → α → Bool} {l : List α} {pos cpos : ℕ} {c : α}
    (h : child cmp l pos = some (c, cpos)) :
    (cpos = pos * 2 ∨ cpos = pos * 2 + 1) ∧ l[cpos - 1]? = some c := by
  rw [child] at h
  cases hl : l[pos * 2 - 1]? with
  | none =>
    cases hr : l[pos * 2]? with
    | none => simp [hl, hr] at h
    | some r =>
      simp only [hl, hr, Option.some.injEq, Prod.mk.injEq] at h
      obtain ⟨rfl, rfl⟩ := h
      exact ⟨Or.inr rfl, hr⟩
  | some a =>
    cases hr : l[pos * 2]? with
    | none =>
      simp only [hl, hr, Option.some.injEq, Prod.mk.injEq] at h
      obtain ⟨rfl, rfl⟩ := h
      exact ⟨Or.inl rfl, hl⟩
    | some r =>
      simp only [hl, hr] at h
      split_ifs at h
      · simp only [Option.some.injEq, Prod.mk.injEq] at h
        obtain ⟨rfl, rfl⟩ := h
        exact ⟨Or.inl rfl, hl⟩
      · simp only [Option.some.injEq, Prod.mk.injEq] at h
        obtain ⟨rfl, rfl⟩ := h
        exact ⟨Or.inr rfl, hr⟩

theorem perm_shiftDownLoop (cmp : α → α → Bool) (node : α) (fuel : ℕ) {l : List α} {pos : ℕ}
    (hpos : 0 < pos) (hin : pos - 1 < l.length) :
    (shiftDownLoop cmp node fuel l pos).Perm (l.set (pos - 1) node) := by
  induction fuel generalizing l pos with
  | zero => exact List.Perm.refl _
  | succ fuel ih =>
    rw [shiftDownLoop]
    cases hc : child cmp l pos with
    | none => exact List.Perm.refl _
    | some found =>
      obtain ⟨c, cpos⟩ := found
      obtain ⟨hcpos, hget⟩ := child_eq_some hc
      dsimp only
      split_ifs with hlt
      · have hclt := (List.getElem?_eq_some_iff.mp hget).1
        have hin' : cpos - 1 < (l.set (pos - 1) c).length := by simpa using hclt
        exact (ih (by omega) hin').trans (set_swap_perm hin hget (by omega) node)
      · exact List.Perm.refl _

theorem perm_push (cmp : α → α → Bool) (h : MinHeap α) (node : α) :
    (h.push cmp node).heap.Perm (node :: h.heap) := by
  have hpos : h.heap.length + 1 - 1 < (h.heap ++ [node]).length := by simp
  have hset : (h.heap ++ [node]).set (h.heap.length + 1 - 1) node = h.heap ++ [node] := by
    simp [List.set_append_right]
  have hperm := perm_shiftUpLoop cmp node (h.heap.length + 1) hpos
  rw [hset] at hperm
  exact hperm.trans (List.perm_append_singleton node h.heap)

/-- A node that is not before the root does not reach it. -/
theorem root_shiftUpLoop {cmp : α → α → Bool} {node : α} (fuel : ℕ) {l : List α} {pos : ℕ}
    (hpos : 2 ≤ pos) (hroot : ∀ r, l[0]? = some r → cmp node r = false) :
    (shiftUpLoop cmp node fuel l pos)[0]? = l[0]? := by
  have hset (a : α) : (l.set (pos - 1) a)[0]? = l[0]? := List.getElem?_set_ne (by omega)
  induction fuel generalizing l pos with
  | zero => exact hset node
  | succ fuel ih =>
    rw [shiftUpLoop]
    cases hp : parent l pos with
    | none => exact hset node
    | some p =>
      dsimp only
      have hget : l[pos / 2 - 1]? = some p := by
        have hhalf : pos / 2 ≠ 0 ∧ l[pos / 2 - 1]? = some p := by simpa [parent] using hp
        exact hhalf.2
      cases hlt : cmp node p with
      | false => exact hset node
      | true =>
        have hhalf : 2 ≤ pos / 2 := by
          by_contra hsmall
          have hone : pos / 2 - 1 = 0 := by omega
          rw [hone] at hget
          rw [hroot p hget] at hlt
          exact Bool.false_ne_true hlt
        rw [if_pos rfl, ih hhalf (by rwa [hset]) (fun a => List.getElem?_set_ne (by omega)), hset]

theorem front_push {cmp : α → α → Bool} {h : MinHeap α} {node x : α} {xs : List α}
    (hx : h.heap = x :: xs) (hroot : cmp node x = false) : (h.push cmp node).front = some x := by
  have hget : (h.heap ++ [node])[0]? = some x := by rw [hx]; rfl
  have hpos : 2 ≤ h.heap.length + 1 := by rw [hx]; simp
  rw [front, List.head?_eq_getElem?]
  refine (root_shiftUpLoop (h.heap.length + 1) hpos ?_).trans hget
  intro r hr
  rw [hget, Option.some.injEq] at hr
  exact hr ▸ hroot

/-- `Pop` sinks the last entry from the root. -/
theorem heap_pop (cmp : α → α → Bool) {h : MinHeap α} {x last : α} {ys : List α}
    (hx : h.heap = x :: (ys ++ [last])) :
    (h.pop cmp).heap = shiftDownLoop cmp last (ys.length + 1) (last :: ys) 1 := by
  have hlast : h.heap.getLast? = some last := by
    rw [hx, ← List.cons_append, List.getLast?_append]
    rfl
  have hcells : (h.heap.set (1 - 1) last).dropLast = last :: ys := by
    rw [hx, Nat.sub_self, List.set_cons_zero, ← List.cons_append, List.dropLast_concat]
  have hlen : ¬ (1 = 0 ∨ 1 > h.heap.length) := by
    rw [hx]
    simp
  simp only [pop, erase, if_neg hlen, hlast, hcells]
  simp

theorem heap_pop_single (cmp : α → α → Bool) {h : MinHeap α} {x : α} (hx : h.heap = [x]) :
    (h.pop cmp).heap = [] := by
  simp [pop, erase, hx]

/-- `Pop` takes the front away and nothing else. -/
theorem perm_pop (cmp : α → α → Bool) {h : MinHeap α} {x : α} {xs : List α} (hx : h.heap = x :: xs) :
    (h.pop cmp).heap.Perm xs := by
  rcases List.eq_nil_or_concat' xs with rfl | ⟨ys, last, rfl⟩
  · rw [heap_pop_single cmp hx]
  · rw [heap_pop cmp hx]
    have hperm := perm_shiftDownLoop cmp last (ys.length + 1) (l := last :: ys) Nat.one_pos (by simp)
    exact hperm.trans (List.perm_append_singleton last ys).symm

theorem mem_of_mem_pop {cmp : α → α → Bool} {h : MinHeap α} {a : α} (ha : a ∈ (h.pop cmp).heap) : a ∈ h.heap := by
  cases hx : h.heap with
  | nil =>
    rw [pop, erase, if_pos (Or.inr (by rw [hx]; exact Nat.one_pos)), hx] at ha
    exact ha
  | cons x xs => exact List.mem_cons_of_mem x ((perm_pop cmp hx).mem_iff.mp ha)

end MinHeap

end Chaos
