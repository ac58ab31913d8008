import Mathlib.Data.List.Basic
import Mathlib.Tactic.Ring

/-!
# Blocks of memory

A block is the function from offsets to its cells. `load` reads a run of cells and `store` writes
one, as `memcpy` does.
-/
namespace Chaos.ByteMemory

variable {α : Type*}

def load (mem : ℕ → α) (off n : ℕ) : List α := (List.range n).map fun i => mem (off + i)

def store (mem : ℕ → α) (off : ℕ) (xs : List α) : ℕ → α := fun i =>
  if off ≤ i then (xs[i - off]?).getD (mem i) else mem i

@[simp] theorem length_load (mem : ℕ → α) (off n : ℕ) : (load mem off n).length = n := by
  simp [load]

@[simp] theorem load_zero (mem : ℕ → α) (off : ℕ) : load mem off 0 = [] := rfl

theorem load_add (mem : ℕ → α) (off m n : ℕ) :
    load mem off (m + n) = load mem off m ++ load mem (off + m) n := by
  simp [load, List.range_add, Function.comp_def, Nat.add_assoc]

theorem load_congr {mem mem' : ℕ → α} {off n : ℕ} (h : ∀ i < n, mem (off + i) = mem' (off + i)) :
    load mem off n = load mem' off n := by
  simp only [load, List.map_inj_left, List.mem_range]
  exact h

theorem take_load (mem : ℕ → α) (off : ℕ) {k n : ℕ} (h : k ≤ n) :
    (load mem off n).take k = load mem off k := by
  obtain ⟨m, rfl⟩ := Nat.exists_eq_add_of_le h
  rw [load_add, List.take_left' (length_load ..)]

theorem drop_load (mem : ℕ → α) (off : ℕ) {k n : ℕ} (h : k ≤ n) :
    (load mem off n).drop k = load mem (off + k) (n - k) := by
  obtain ⟨m, rfl⟩ := Nat.exists_eq_add_of_le h
  rw [load_add, List.drop_left' (length_load ..), Nat.add_sub_cancel_left]

@[simp] theorem store_nil (mem : ℕ → α) (off : ℕ) : store mem off [] = mem := by
  funext i
  simp [store]

theorem store_lt {mem : ℕ → α} {off i : ℕ} (xs : List α) (h : i < off) :
    store mem off xs i = mem i := by
  simp [store, Nat.not_le.mpr h]

theorem store_outside {mem : ℕ → α} {off i : ℕ} {xs : List α} (h : i < off ∨ off + xs.length ≤ i) :
    store mem off xs i = mem i := by
  rcases h with h | h
  · exact store_lt xs h
  · simp [store, List.getElem?_eq_none (show xs.length ≤ i - off by omega)]

/-- A written cell does not depend on what it held. -/
theorem store_inside (mem mem' : ℕ → α) {off i : ℕ} {xs : List α} (h : off ≤ i) (hi : i < off + xs.length) :
    store mem off xs i = store mem' off xs i := by
  have hlt : i - off < xs.length := by omega
  simp only [store, if_pos h, List.getElem?_eq_getElem hlt, Option.getD_some]

/-- What lies below the written run is unchanged. -/
theorem load_store_below (mem : ℕ → α) (xs : List α) {off start n : ℕ} (h : start + n ≤ off) :
    load (store mem off xs) start n = load mem start n := by
  apply load_congr
  intro i hi
  exact store_lt xs (by omega)

/-- A piece of what was written. -/
theorem load_store_middle (mem : ℕ → α) (off : ℕ) (xs ys zs : List α) :
    load (store mem off (xs ++ ys ++ zs)) (off + xs.length) ys.length = ys := by
  apply List.ext_getElem (by simp)
  intro i h₁ h₂
  have hget : (xs ++ ys ++ zs)[xs.length + i]? = some ys[i] := by
    rw [List.append_assoc, List.getElem?_append_right (by omega), Nat.add_sub_cancel_left,
      List.getElem?_append_left h₂, List.getElem?_eq_getElem h₂]
  have hsub : off + xs.length + i - off = xs.length + i := by omega
  have hle : off ≤ off + xs.length + i := by omega
  simp only [load, store, List.getElem_map, List.getElem_range, hsub, hget, if_pos hle, Option.getD_some]

theorem load_store_self (mem : ℕ → α) (off : ℕ) (xs : List α) :
    load (store mem off xs) off xs.length = xs := by
  simpa using load_store_middle mem off [] xs []

theorem load_shift (mem : ℕ → α) (off n : ℕ) : load (fun i => mem (off + i)) 0 n = load mem off n := by
  simp [load]

end Chaos.ByteMemory
