import Mathlib.Data.List.Rotate

/-!
# Lists read as rings

A list is walked cyclically from a cell by the index function `next`. The order of the walk is the
rotation of the list; updates, steps and insertions are restated in that order.
-/
namespace Chaos.RingOrder

variable {α : Type*}

/-- The cell after `i` in a ring of `n` cells. -/
def next (n i : ℕ) : ℕ := if i + 1 = n then 0 else i + 1

/-- How many steps the walk from `r` takes to reach `i`. -/
def offset (n r i : ℕ) : ℕ := if r ≤ i then i - r else i + n - r

theorem next_lt {n i : ℕ} (h : i < n) : next n i < n := by
  rw [next]
  split <;> omega

theorem offset_lt {n r i : ℕ} (hr : r < n) (hi : i < n) : offset n r i < n := by
  rw [offset]
  split <;> omega

@[simp] theorem offset_self (n r : ℕ) : offset n r r = 0 := by simp [offset]

theorem offset_next {n r i : ℕ} (hr : r < n) (hne : offset n r i + 1 < n) :
    offset n r (next n i) = offset n r i + 1 := by
  simp only [offset, next] at *
  split_ifs at * <;> omega

/-- The cell a given number of steps after `r`. -/
def cellAt (n r k : ℕ) : ℕ := if r + k < n then r + k else r + k - n

theorem cellAt_lt {n r k : ℕ} (hr : r < n) (hk : k < n) : cellAt n r k < n := by
  rw [cellAt]
  split <;> omega

theorem cellAt_offset {n r i : ℕ} (hr : r < n) (hi : i < n) : cellAt n r (offset n r i) = i := by
  rw [cellAt, offset]
  split_ifs <;> omega

theorem offset_cellAt {n r k : ℕ} (hr : r < n) (hk : k < n) : offset n r (cellAt n r k) = k := by
  rw [cellAt, offset]
  split_ifs <;> omega

theorem cellAt_eq_mod {n r k : ℕ} (hr : r < n) (hk : k < n) : cellAt n r k = (k + r) % n := by
  rw [cellAt]
  split
  · rw [Nat.mod_eq_of_lt (by omega), Nat.add_comm]
  · rw [Nat.mod_eq_sub_mod (by omega), Nat.mod_eq_of_lt (by omega), Nat.add_comm]

theorem getElem?_rotate_offset {l : List α} {r i : ℕ} (hr : r < l.length) (hi : i < l.length) :
    (l.rotate r)[offset l.length r i]? = l[i]? := by
  rw [List.getElem?_rotate (offset_lt hr hi), ← cellAt_eq_mod hr (offset_lt hr hi),
    cellAt_offset hr hi]

theorem rotate_set {l : List α} {r i : ℕ} (hr : r < l.length) (hi : i < l.length) (a : α) :
    (l.set i a).rotate r = (l.rotate r).set (offset l.length r i) a := by
  apply List.ext_getElem?
  intro k
  by_cases hk : k < l.length
  · rw [List.getElem?_rotate (by simpa using hk), List.getElem?_set, List.getElem?_set,
      List.getElem?_rotate hk, List.length_set, ← cellAt_eq_mod hr hk, List.length_rotate]
    by_cases he : i = cellAt l.length r k
    · subst he
      simp [offset_cellAt hr hk, cellAt_lt hr hk, hk]
    · have hne : offset l.length r i ≠ k := by
        intro h
        exact he (by rw [← h, cellAt_offset hr hi])
      simp [he, hne]
  · rw [List.getElem?_eq_none (by simpa using hk), List.getElem?_eq_none (by simpa using hk)]

theorem rotate_append {l l' : List α} {n : ℕ} (h : l.length = n) :
    (l ++ l').rotate n = l' ++ l := by
  subst h
  exact List.rotate_append_length_eq l l'

theorem rotate_next (l : List α) (r : ℕ) :
    l.rotate (next l.length r) = (l.rotate r).rotate 1 := by
  rw [List.rotate_rotate]
  rw [next]
  split
  · next h => rw [h, List.rotate_length, List.rotate_zero]
  · rfl

theorem rotate_next_cons {l xs : List α} {x : α} {r : ℕ}
    (h : l.rotate r = x :: xs) : l.rotate (next l.length r) = xs ++ [x] := by
  rw [rotate_next, h]
  simp

/-- Put `a` in front of the cell `i`. -/
def insertAt (l : List α) (i : ℕ) (a : α) : List α := l.take i ++ a :: l.drop i

@[simp] theorem length_insertAt {l : List α} {i : ℕ} (a : α) (hi : i ≤ l.length) :
    (insertAt l i a).length = l.length + 1 := by
  simp [insertAt]
  omega

theorem perm_insertAt (l : List α) (i : ℕ) (a : α) : (insertAt l i a).Perm (a :: l) := by
  have h : (l.take i ++ a :: l.drop i).Perm (a :: (l.take i ++ l.drop i)) := List.perm_middle
  simpa [insertAt] using h

/-- A cell put in front of the start of the walk comes last in it. -/
theorem rotate_insertAt_self {l : List α} {r : ℕ} (hr : r < l.length) (a : α) :
    (insertAt l r a).rotate (r + 1) = l.rotate r ++ [a] := by
  have hlen : (l.take r ++ [a]).length = r + 1 := by simp; omega
  have hsplit : insertAt l r a = (l.take r ++ [a]) ++ l.drop r := by simp [insertAt]
  rw [hsplit, rotate_append hlen, List.rotate_eq_drop_append_take hr.le]
  simp

/-- Anywhere else the walk meets the new cell between two old ones. -/
theorem rotate_insertAt_after {l : List α} {r i : ℕ} (hr : r < l.length) (hi : i < l.length)
    (a : α) : ∃ xs ys, l.rotate r = xs ++ ys ∧ xs.length = offset l.length r i + 1 ∧
      (insertAt l (i + 1) a).rotate (if i + 1 ≤ r then r + 1 else r) = xs ++ a :: ys := by
  by_cases h : i + 1 ≤ r
  · refine ⟨l.drop r ++ l.take (i + 1), (l.take r).drop (i + 1), ?_, ?_, ?_⟩
    · have ht : l.take (i + 1) = (l.take r).take (i + 1) := by
        rw [List.take_take, Nat.min_eq_left h]
      rw [List.rotate_eq_drop_append_take hr.le, List.append_assoc, ht, List.take_append_drop]
    · have ho : offset l.length r i = i + l.length - r := by simp [offset]; omega
      simp [ho]
      omega
    · have hlen : (l.take (i + 1) ++ a :: (l.take r).drop (i + 1)).length = r + 1 := by
        simp
        omega
      have hsplit : insertAt l (i + 1) a =
          (l.take (i + 1) ++ a :: (l.take r).drop (i + 1)) ++ l.drop r := by
        have hd : l.drop (i + 1) = (l.take r).drop (i + 1) ++ l.drop r := by
          conv_lhs => rw [← List.take_append_drop r l]
          rw [List.drop_append_of_le_length (by simp; omega)]
        simp [insertAt, hd]
      rw [if_pos h, hsplit, rotate_append hlen]
      simp
  · refine ⟨(l.drop r).take (i + 1 - r), l.drop (i + 1) ++ l.take r, ?_, ?_, ?_⟩
    · have hd : l.drop (i + 1) = (l.drop r).drop (i + 1 - r) := by
        rw [List.drop_drop]
        congr 1
        omega
      rw [List.rotate_eq_drop_append_take hr.le, hd, ← List.append_assoc, List.take_append_drop]
    · have ho : offset l.length r i = i - r := by simp [offset]; omega
      simp [ho]
      omega
    · have hlen : (l.take r).length = r := by simp; omega
      have hsplit : insertAt l (i + 1) a =
          l.take r ++ ((l.drop r).take (i + 1 - r) ++ a :: l.drop (i + 1)) := by
        have ht : l.take (i + 1) = l.take r ++ (l.drop r).take (i + 1 - r) := by
          rw [← List.take_add]
          congr 1
          omega
        simp [insertAt, ht]
      rw [if_neg h, hsplit, rotate_append hlen]
      simp

end Chaos.RingOrder
