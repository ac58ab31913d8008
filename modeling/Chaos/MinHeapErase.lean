import Chaos.MinHeapQueue
import Mathlib.Data.List.Perm.Basic

/-!
# Erasing an entry

`Erase` puts the last entry in the place of the erased one and sinks it from there. An entry that belongs
above that place does not rise, so the order is kept unless the last entry is before the parent of the erased
one.
-/
namespace Chaos.MinHeap

open ExpiringHeap WeakOrder

variable {α : Type} {cmp : α → α → Bool} {h : MinHeap α} {ys : List α} {last : α} {pos node : ℕ}

/-- `Erase(const T*)`, for the cell at index `node`; the answer is the address of a cell too. -/
def eraseNode (cmp : α → α → Bool) (h : MinHeap α) (node : ℕ) : ℕ × MinHeap α := (node + 1, h.erase cmp (node + 1))

theorem heap_erase_last (hh : h.heap = ys ++ [last]) : (h.erase cmp (ys.length + 1)).heap = ys := by
  have hlast : h.heap.getLast? = some last := by rw [hh, List.getLast?_concat]
  have hcells : (h.heap.set (ys.length + 1 - 1) last).dropLast = ys := by
    rw [hh, Nat.add_sub_cancel, List.set_append_right _ _ le_rfl, Nat.sub_self, List.set_cons_zero,
      List.dropLast_concat]
  have hpos : ¬ (ys.length + 1 = 0 ∨ ys.length + 1 > h.heap.length) := by
    rw [hh]
    simp
  simp only [erase, if_neg hpos, hlast, hcells]
  exact if_pos (Nat.lt_succ_self _)

theorem heap_erase (hh : h.heap = ys ++ [last]) (hpos : 1 ≤ pos) (hin : pos ≤ ys.length) :
    (h.erase cmp pos).heap = shiftDownLoop cmp last ys.length (ys.set (pos - 1) last) pos := by
  have hlast : h.heap.getLast? = some last := by rw [hh, List.getLast?_concat]
  have hcells : (h.heap.set (pos - 1) last).dropLast = ys.set (pos - 1) last := by
    rw [hh, List.set_append_left _ _ (by omega), List.dropLast_concat]
  have hlen : ¬ (pos = 0 ∨ pos > h.heap.length) := by
    rw [hh, List.length_append, List.length_singleton]
    omega
  simp only [erase, if_neg hlen, hlast, hcells, List.length_set]
  exact if_neg (by omega)

theorem heap_concat (hnode : node < h.heap.length) :
    ∃ ys last, h.heap = ys ++ [last] ∧ h.heap.length = ys.length + 1 := by
  have hne : h.heap ≠ [] := List.ne_nil_of_length_pos (Nat.zero_lt_of_lt hnode)
  obtain ⟨ys, last, hh⟩ := (List.eq_nil_or_concat' h.heap).resolve_left hne
  exact ⟨ys, last, hh, by rw [hh, List.length_append, List.length_singleton]⟩

/-- Exactly the erased entry goes. -/
theorem perm_erase (cmp : α → α → Bool) (hnode : node < h.heap.length) :
    (h.erase cmp (node + 1)).heap.Perm (h.heap.eraseIdx node) := by
  obtain ⟨ys, last, hh, hlen⟩ := heap_concat hnode
  rcases Nat.lt_or_ge node ys.length with hin | hend
  · rw [heap_erase hh (Nat.le_add_left 1 node) hin, hh, List.eraseIdx_append_of_lt_length hin, Nat.add_sub_cancel]
    have hlt : node + 1 - 1 < (ys.set node last).length := by
      rw [List.length_set]
      exact hin
    have hsink := perm_shiftDownLoop cmp last ys.length (Nat.add_one_pos node) hlt
    rw [Nat.add_sub_cancel, List.set_set] at hsink
    exact (hsink.trans (List.set_perm_cons_eraseIdx hin last)).trans (List.perm_append_singleton last _).symm
  · obtain rfl : node = ys.length := by omega
    rw [heap_erase_last hh, hh, List.eraseIdx_append_of_length_le le_rfl, Nat.sub_self]
    simp

/-! ## The order -/

theorem getElem?_shiftDownLoop (fuel : ℕ) {l : List α} {i : ℕ} (hi : i + 1 < pos) :
    (shiftDownLoop cmp last fuel l pos)[i]? = l[i]? := by
  have hset (a : α) : (l.set (pos - 1) a)[i]? = l[i]? := List.getElem?_set_ne (by omega)
  induction fuel generalizing l pos with
  | zero => exact hset last
  | succ fuel ih =>
    rw [shiftDownLoop]
    cases hc : child cmp l pos with
    | none => exact hset last
    | some found =>
      obtain ⟨c, cpos⟩ := found
      have hcpos := (child_eq_some hc).1
      dsimp only
      split_ifs with hlt
      · rw [ih (by omega) fun a => List.getElem?_set_ne (by omega)]
        exact hset c
      · exact hset last

/-- What the hole is filled with is the sunk entry or one before it. -/
theorem shiftDownLoop_hole (fuel : ℕ) {l : List α} (hpos : 1 ≤ pos) (hin : pos - 1 < l.length) :
    ∃ a, (shiftDownLoop cmp last fuel l pos)[pos - 1]? = some a ∧ (a = last ∨ cmp a last = true) := by
  have hset (a : α) : (l.set (pos - 1) a)[pos - 1]? = some a := List.getElem?_set_self hin
  cases fuel with
  | zero => exact ⟨last, hset last, Or.inl rfl⟩
  | succ fuel =>
    rw [shiftDownLoop]
    cases hc : child cmp l pos with
    | none => exact ⟨last, hset last, Or.inl rfl⟩
    | some found =>
      obtain ⟨c, cpos⟩ := found
      have hcpos := (child_eq_some hc).1
      dsimp only
      split_ifs with hlt
      · refine ⟨c, ?_, Or.inr hlt⟩
        rw [getElem?_shiftDownLoop fuel (by omega)]
        exact hset c
      · exact ⟨last, hset last, Or.inl rfl⟩

variable [IsStrictWeakOrder α (Before cmp)]

/-- An entry that is not before the parent of the hole keeps the order. -/
theorem InOrder.erase (hord : InOrder cmp h.heap) (hh : h.heap = ys ++ [last]) (hpos : 1 ≤ pos)
    (hin : pos ≤ ys.length) (hparent : ∀ p ∈ parent h.heap pos, cmp last p = false) :
    InOrder cmp (h.erase cmp pos).heap := by
  have hheap := hord.heapFrom
  have hsame (i : ℕ) (hi : i ≤ ys.length) : keyAt (rank cmp) ys i = keyAt (rank cmp) h.heap i := by
    rw [hh, keyAt_append (by omega)]
  have hset : keyAt (rank cmp) (ys.set (pos - 1) last) =
      Function.update (keyAt (rank cmp) ys) pos (rank cmp last) := keyAt_set hpos (by omega)
  rw [heap_erase hh hpos hin]
  apply inOrder_of_heapFrom
  have hdown : DownOrder (keyAt (rank cmp) (ys.set (pos - 1) last)) pos (rank cmp last) := by
    rw [hset]
    constructor
    · intro i j hi hip hjp hij
      rw [Function.update_of_ne hip, Function.update_of_ne hjp]
      have hlt := hij.lt
      rcases Nat.lt_or_ge ys.length j with hend | hj
      · rw [@keyAt_beyond _ _ (rank cmp) ys j hend]
        exact liveLe_none_right _
      · rw [hsame i (by omega), hsame j hj]
        exact hheap i j hi hij
    · intro i hi hip
      have hlt := hip.lt
      rw [Function.update_of_ne (by omega), hsame i (by omega)]
      obtain ⟨hpos, hup⟩ := above_iff.mp hip
      have hin : pos / 2 - 1 < h.heap.length := by
        rw [hh, List.length_append, List.length_singleton]
        omega
      have hget : h.heap[pos / 2 - 1]? = some h.heap[pos / 2 - 1] := List.getElem?_eq_getElem hin
      have hle := hparent _ (parent_eq_some.mpr ⟨by omega, hget⟩)
      have hhalf : LiveLe (keyAt (rank cmp) h.heap (pos / 2)) (rank cmp last) := by
        rw [keyAt_of_get (by omega) hget]
        exact liveLe_some.mpr ((level_le cmp).mpr hle)
      rcases hup with rfl | hup
      · exact hhalf
      · have hrest := hheap i (pos / 2) hi hup
        rw [keyAt_of_get (by omega) hget] at hrest hhalf
        exact hrest.trans_some hhalf
  have hlive := live_rank cmp (ys.set (pos - 1) last)
  have hsink := heapFrom_shiftDownLoop hdown hpos (by rw [List.length_set]; omega) (by rw [List.length_set]; omega)
    (hlive.sinkOk last ys.length hpos)
  rwa [cmpKey_rank] at hsink

/-- An entry before the parent of the hole stays below it, or one before itself does. -/
theorem not_inOrder_erase (hh : h.heap = ys ++ [last]) (hpos : 1 ≤ pos) (hin : pos ≤ ys.length) {p : α}
    (hp : parent h.heap pos = some p) (hlt : cmp last p = true) : ¬ InOrder cmp (h.erase cmp pos).heap := by
  intro hord
  rw [heap_erase hh hpos hin] at hord
  obtain ⟨hhalf, hget⟩ := parent_eq_some.mp hp
  have hsame : (shiftDownLoop cmp last ys.length (ys.set (pos - 1) last) pos)[pos / 2 - 1]? = some p := by
    rw [getElem?_shiftDownLoop _ (by omega), List.getElem?_set_ne (by omega), ← hget, hh,
      List.getElem?_append_left (by omega)]
  obtain ⟨a, ha, hbefore⟩ := @shiftDownLoop_hole _ cmp last pos ys.length (ys.set (pos - 1) last) hpos
    (by rw [List.length_set]; omega)
  have hap : cmp a p = true := by
    rcases hbefore with rfl | hbefore
    · exact hlt
    · exact before_trans hbefore hlt
  have hfalse := hord pos a p ha (parent_eq_some.mpr ⟨hhalf, hsame⟩)
  rw [hap] at hfalse
  cases hfalse

/-- `Erase` of an entry keeps the order exactly when the last entry is not before the entry's parent. -/
theorem erase_keeps_order_iff (hord : InOrder cmp h.heap) (hnode : node < h.heap.length) :
    ((h.eraseNode cmp node).2.heap.Perm (h.heap.eraseIdx node) ∧ InOrder cmp (h.eraseNode cmp node).2.heap) ↔
      ∀ last ∈ h.heap.getLast?, ∀ p ∈ parent h.heap (node + 1), cmp last p = false := by
  obtain ⟨ys, last, hh, hlen⟩ := heap_concat hnode
  have hlast : h.heap.getLast? = some last := by rw [hh, List.getLast?_concat]
  rw [hlast]
  constructor
  · rintro ⟨-, hkept⟩ _ hsome p hp
    obtain rfl := Option.mem_some.mp hsome
    rcases Nat.lt_or_ge node ys.length with hin | hend
    · by_contra hlt
      exact not_inOrder_erase hh (Nat.le_add_left 1 node) hin hp (Bool.eq_true_of_not_eq_false hlt) hkept
    · obtain rfl : node = ys.length := by omega
      exact hord (ys.length + 1) last p (by rw [hh]; simp) hp
  · intro hparent
    refine ⟨perm_erase cmp hnode, ?_⟩
    rcases Nat.lt_or_ge node ys.length with hin | hend
    · exact hord.erase hh (Nat.le_add_left 1 node) hin (hparent last rfl)
    · obtain rfl : node = ys.length := by omega
      have herase : (h.eraseNode cmp ys.length).2.heap = ys := heap_erase_last hh
      rw [herase]
      intro pos a p ha hp
      have hin := (List.getElem?_eq_some_iff.mp ha).1
      obtain ⟨hhalf, hp⟩ := parent_eq_some.mp hp
      refine hord pos a p ?_ (parent_eq_some.mpr ⟨hhalf, ?_⟩)
      · rw [hh, List.getElem?_append_left hin, ha]
      · rw [hh, List.getElem?_append_left (by omega), hp]

/-- The last entry takes the place of one in its own subtree. -/
theorem erase_keeps_order_iff_sample :
    (((⟨[1, 10, 2, 12, 11, 5, 3, 14, 13], 64⟩ : MinHeap ℕ).eraseNode less 1).2.heap.Perm [1, 2, 12, 11, 5, 3, 14, 13] ∧
        InOrder less ((⟨[1, 10, 2, 12, 11, 5, 3, 14, 13], 64⟩ : MinHeap ℕ).eraseNode less 1).2.heap) ↔
      ∀ last ∈ [1, 10, 2, 12, 11, 5, 3, 14, 13].getLast?, ∀ p ∈ parent [1, 10, 2, 12, 11, 5, 3, 14, 13] 2,
        less last p = false :=
  @erase_keeps_order_iff ℕ less ⟨[1, 10, 2, 12, 11, 5, 3, 14, 13], 64⟩ 1 _ (by decide) (by decide)

/-- The entry 11 on the third level of 1, 10, 2, 11, 12, 3, 4: the 4 that takes its place is before the 10
above it. -/
theorem not_erase_keeps_order :
    ¬ ∀ (h : MinHeap ℕ) (node : ℕ), InOrder less h.heap → node < h.heap.length →
      (h.eraseNode less node).2.heap.Perm (h.heap.eraseIdx node) ∧ InOrder less (h.eraseNode less node).2.heap := by
  intro hall
  obtain ⟨-, hkept⟩ := hall ⟨[1, 10, 2, 11, 12, 3, 4], 64⟩ 3 (by decide) (by decide)
  revert hkept
  decide

end Chaos.MinHeap
