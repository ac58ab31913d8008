import Chaos.GuardedRuns
import Chaos.MinHeapOrder
import Chaos.WeakOrder

/-!
# The heap as a priority queue

Runs of `Push` and `Pop` under any strict weak order. Where every entry has a key the conditions of
`MinHeapOrder` hold of themselves, and the order along the paths is the one between parents and children.
The key of an entry is its level, so the results for keys carry over.
-/
namespace Chaos.MinHeap

open ExpiringHeap GuardedRuns WeakOrder

section Live
variable {α : Type} {K : Type*} {key : α → Option K} {heap : List α}

/-- Every entry has a key. -/
def Live (key : α → Option K) (heap : List α) : Prop := ∀ a ∈ heap, (key a).isSome

theorem Live.beyond (h : Live key heap) {i : ℕ} (hi : 1 ≤ i) (hnone : keyAt key heap i = none) :
    heap.length < i := by
  by_contra hle
  have hget := List.getElem?_eq_getElem (show i - 1 < heap.length by omega)
  have hsome := h _ (List.mem_of_getElem? hget)
  rw [keyAt_of_get hi hget] at hnone
  rw [hnone] at hsome
  cases hsome

theorem Live.set (h : Live key heap) {c : α} (hc : (key c).isSome) (i : ℕ) : Live key (heap.set i c) := by
  intro a ha
  rcases List.mem_or_eq_of_mem_set ha with ha | rfl
  · exact h a ha
  · exact hc

variable [LinearOrder K]

theorem Live.none_below (h : Live key heap) {i : ℕ} (hi : 1 ≤ i) (hnone : keyAt key heap i = none)
    (x : Option K) : noneEarlierBelow key heap i x := by
  intro j hj hij
  have hbeyond := h.beyond hi hnone
  have hlt := hij.lt
  omega

/-- On its way up a new entry meets none that is expired. -/
theorem Live.pushOk (h : Live key heap) (m : ℕ) (node : α) : MinHeap.pushOk key m heap node := by
  intro e he hup hnone
  have hbeyond := h.beyond (Nat.pos_of_ne_zero fun h0 => (hup.1).ne h0.symm) hnone
  omega

theorem Live.sinkOk (h : Live key heap) (node : α) (fuel : ℕ) {pos : ℕ} (hpos : 1 ≤ pos) :
    MinHeap.sinkOk key node fuel heap pos := by
  induction fuel generalizing heap pos with
  | zero => trivial
  | succ fuel ih =>
    rw [MinHeap.sinkOk]
    cases hc : child (cmpKey key) heap pos with
    | none => trivial
    | some found =>
      obtain ⟨c, cpos⟩ := found
      obtain ⟨hcpos, hget⟩ := child_eq_some hc
      have hside := sibling_cases hcpos
      dsimp only
      split_ifs with hlt
      · refine ⟨fun hnone => h.none_below (by omega) hnone _, ih ?_ (by omega)⟩
        exact h.set (h c (List.mem_of_getElem? hget)) (pos - 1)
      · intro hgone j hj hij
        have hin := (List.getElem?_eq_some_iff.mp hget).1
        have hend : heap.length ≤ pos * 2 := by
          rcases hgone with hnone | hnone
          · exact (h.beyond (by omega) hnone).le
          · exact Nat.lt_succ_iff.mp (h.beyond (by omega) hnone)
        -- the only position below is the child that was compared
        obtain ⟨d, hd, rfl | hdj⟩ := hij.child_cases
        · obtain rfl : j = cpos := by omega
          rw [child_key hpos hc]
          exact liveLe_of_not_liveLt (Bool.eq_false_iff.mpr hlt)
        · have hlow := hdj.lt
          omega

theorem Live.popOk (h : Live key heap) : MinHeap.popOk key heap := by
  rw [MinHeap.popOk]
  cases hlast : heap.getLast? with
  | none => trivial
  | some last =>
    have hset := h.set (h last (List.mem_of_getLast? hlast)) 0
    exact Live.sinkOk (fun a ha => hset a (List.dropLast_subset _ ha)) last _ le_rfl

/-- No entry is before its parent. -/
def InOrder (cmp : α → α → Bool) (heap : List α) : Prop :=
  ∀ pos a p, heap[pos - 1]? = some a → parent heap pos = some p → cmp a p = false

theorem inOrder_iff_bounded {cmp : α → α → Bool} : InOrder cmp heap ↔
    ∀ pos ≤ heap.length, ∀ a ∈ heap[pos - 1]?, ∀ p ∈ parent heap pos, cmp a p = false := by
  constructor
  · exact fun hord pos _ a ha p hp => hord pos a p ha hp
  · intro hord pos a p ha hp
    have hin := (List.getElem?_eq_some_iff.mp ha).1
    exact hord pos (by omega) a ha p hp

instance (cmp : α → α → Bool) (heap : List α) : Decidable (InOrder cmp heap) :=
  decidable_of_iff' _ inOrder_iff_bounded

theorem parent_eq_some {pos : ℕ} {p : α} : parent heap pos = some p ↔ pos / 2 ≠ 0 ∧ heap[pos / 2 - 1]? = some p := by
  simp [parent]

/-- Where every entry has a key the order between parents and children is the order along the paths. -/
theorem Live.inOrder_iff (h : Live key heap) :
    InOrder (cmpKey key) heap ↔ HeapFrom 1 (keyAt key heap) := by
  constructor
  · intro hord i j hi hij
    induction j using Nat.strong_induction_on with
    | _ j ih =>
      rcases Nat.lt_or_ge heap.length j with hend | hin
      · rw [@keyAt_beyond _ _ key _ j hend]
        exact liveLe_none_right _
      obtain ⟨hj, hup⟩ := above_iff.mp hij
      have hself := List.getElem?_eq_getElem (show j - 1 < heap.length by omega)
      have hhalf := List.getElem?_eq_getElem (show j / 2 - 1 < heap.length by omega)
      have hstep : LiveLe (keyAt key heap (j / 2)) (keyAt key heap j) := by
        rw [keyAt_of_get (by omega) hhalf, keyAt_of_get (by omega) hself]
        exact liveLe_of_not_liveLt (hord j _ _ hself (parent_eq_some.mpr ⟨by omega, hhalf⟩))
      rcases hup with rfl | hup
      · exact hstep
      · have hrest := ih (j / 2) (by omega) hup
        obtain ⟨y, hy⟩ := Option.isSome_iff_exists.mp (h _ (List.mem_of_getElem? hhalf))
        rw [keyAt_of_get (by omega) hhalf, hy] at hstep hrest
        exact hrest.trans_some hstep
  · intro hheap pos a p ha hp
    obtain ⟨hpos, hp⟩ := parent_eq_some.mp hp
    have hle := hheap (pos / 2) pos (by omega) (above_half (by omega))
    rw [keyAt_of_get (by omega) hp, keyAt_of_get (by omega) ha] at hle
    apply Bool.eq_false_iff.mpr
    intro hlt
    obtain ⟨x, y, hx, hy, hxy⟩ := liveLt_eq_true.mp hlt
    exact absurd (hle y hy x hx) (not_le.mpr hxy)

theorem Live.push {h : MinHeap α} (hlive : Live key h.heap) (hord : InOrder (cmpKey key) h.heap) {node : α}
    (hnode : (key node).isSome) : InOrder (cmpKey key) (h.push (cmpKey key) node).heap := by
  have hpushed : Live key (h.push (cmpKey key) node).heap := by
    intro a ha
    rcases List.mem_cons.mp ((perm_push _ h node).mem_iff.mp ha) with rfl | ha
    · exact hnode
    · exact hlive a ha
  apply hpushed.inOrder_iff.mpr
  refine heapFrom_push (hlive.inOrder_iff.mp hord) ?_ (hlive.pushOk 1 node) (by omega)
  intro i hi
  obtain rfl : i = 0 := by omega
  cases key node <;> rfl

theorem Live.pop {h : MinHeap α} (hlive : Live key h.heap) (hord : InOrder (cmpKey key) h.heap) :
    InOrder (cmpKey key) (h.pop (cmpKey key)).heap := by
  have hpopped : Live key (h.pop (cmpKey key)).heap := fun a ha => hlive a (mem_of_mem_pop ha)
  apply hpopped.inOrder_iff.mpr
  exact heapFrom_pop ((hlive.inOrder_iff.mp hord).mono (Nat.le_succ 1)) hlive.popOk

end Live

/-! ## Any weak order -/

section WeakOrder
variable {α : Type} (cmp : α → α → Bool) [IsStrictWeakOrder α (Before cmp)] {h : MinHeap α}

/-- The level as a key. -/
def rank (a : α) : Option (Level cmp) := some (level cmp a)

theorem live_rank (heap : List α) : Live (rank cmp) heap := fun _ _ => rfl

theorem cmpKey_rank : cmpKey (rank cmp) = cmp := by
  funext a b
  rw [Bool.eq_iff_iff]
  simp [cmpKey, rank, liveLt, level_lt]

variable {cmp}

theorem InOrder.heapFrom {heap : List α} (hord : InOrder cmp heap) : HeapFrom 1 (keyAt (rank cmp) heap) := by
  apply (live_rank cmp heap).inOrder_iff.mp
  rwa [cmpKey_rank]

theorem inOrder_of_heapFrom {heap : List α} (hheap : HeapFrom 1 (keyAt (rank cmp) heap)) : InOrder cmp heap := by
  have hord := (live_rank cmp heap).inOrder_iff.mpr hheap
  rwa [cmpKey_rank] at hord

theorem InOrder.push (hord : InOrder cmp h.heap) (node : α) : InOrder cmp (h.push cmp node).heap := by
  have hnode : (rank cmp node).isSome = true := rfl
  have hpush := (live_rank cmp h.heap).push (by rwa [cmpKey_rank]) hnode
  rwa [cmpKey_rank] at hpush

theorem InOrder.pop (hord : InOrder cmp h.heap) : InOrder cmp (h.pop cmp).heap := by
  have hpop := (live_rank cmp h.heap).pop (by rwa [cmpKey_rank])
  rwa [cmpKey_rank] at hpop

/-- Nothing in the heap is before its front. -/
theorem InOrder.front_le (hord : InOrder cmp h.heap) {a b : α} (ha : h.front = some a) (hb : b ∈ h.heap) :
    cmp b a = false := by
  obtain ⟨xs, hxs⟩ := List.head?_eq_some_iff.mp ha
  obtain ⟨i, hi⟩ := List.mem_iff_getElem?.mp hb
  have hroot : keyAt (rank cmp) h.heap 1 = some (level cmp a) := keyAt_of_get le_rfl (by rw [hxs]; rfl)
  have hat : keyAt (rank cmp) h.heap (i + 1) = some (level cmp b) := keyAt_of_get (by omega) hi
  exact (level_le cmp).mp (hord.heapFrom.root_le hroot (by omega) hat)

end WeakOrder

/-! ## Runs -/

section Runs
variable {α : Type} {cmp : α → α → Bool}

/-- What was pushed and what the front was at every `Pop`. -/
structure HeapRun (α : Type) where
  heap : MinHeap α
  pushed : List α
  popped : List α

inductive HeapOp (α : Type) where
  | push (node : α)
  | pop

def HeapRun.start : HeapRun α := ⟨.new, [], []⟩

/-- The heap is not used for 2^30 entries or more. -/
def heapStep (cmp : α → α → Bool) (s : HeapRun α) : HeapOp α → Option (HeapRun α)
  | .push node =>
    if s.heap.heap.length + 1 < 2 ^ 30 then
      some { s with heap := s.heap.push cmp node, pushed := s.pushed ++ [node] }
    else none
  | .pop => some { s with heap := s.heap.pop cmp, popped := s.popped ++ s.heap.front.toList }

/-- In order, as many cells as entries at least, and nothing lost or doubled. -/
structure QueueInv (cmp : α → α → Bool) (s : HeapRun α) : Prop where
  ordered : InOrder cmp s.heap.heap
  cells : s.heap.heap.length ≤ s.heap.totalSize
  kept : (s.popped ++ s.heap.heap).Perm s.pushed

theorem length_push (cmp : α → α → Bool) (h : MinHeap α) (node : α) :
    (h.push cmp node).heap.length = h.heap.length + 1 :=
  (perm_push cmp h node).length_eq

/-- `Expand` makes a cell more at least. -/
theorem length_le_push {h : MinHeap α} (hcells : h.heap.length ≤ h.totalSize) (hlen : h.heap.length + 1 < 2 ^ 30)
    (node : α) : (h.push cmp node).heap.length ≤ (h.push cmp node).totalSize := by
  rw [length_push, MinHeap.push]
  dsimp only
  rw [expandSize]
  split_ifs <;> omega

theorem totalSize_pop (cmp : α → α → Bool) (h : MinHeap α) : (h.pop cmp).totalSize = h.totalSize := by
  rw [MinHeap.pop, erase]
  by_cases hpos : 1 = 0 ∨ 1 > h.heap.length
  · rw [if_pos hpos]
  · rw [if_neg hpos]
    cases h.heap.getLast? <;> rfl

/-- `Pop` hands the front out. -/
theorem perm_front_pop (cmp : α → α → Bool) (h : MinHeap α) : (h.front.toList ++ (h.pop cmp).heap).Perm h.heap := by
  cases hx : h.heap with
  | nil => simp [front, MinHeap.pop, erase, hx]
  | cons x xs =>
    rw [show h.front.toList = [x] by simp [front, hx]]
    exact (perm_pop cmp hx).cons x

theorem queueInv_start : QueueInv cmp (.start : HeapRun α) := by
  refine ⟨fun pos a p ha _ => ?_, le_rfl, .nil⟩
  cases ha

variable [IsStrictWeakOrder α (Before cmp)]

theorem queueInv_step {s t : HeapRun α} {op : HeapOp α} (h : QueueInv cmp s) (ht : heapStep cmp s op = some t) :
    QueueInv cmp t := by
  cases op with
  | push node =>
    obtain ⟨hlen, hsome⟩ := Option.ite_none_right_eq_some.mp ht
    obtain rfl := Option.some.inj hsome
    refine ⟨h.ordered.push node, length_le_push h.cells hlen node, ?_⟩
    have hend := (perm_push cmp s.heap node).trans (List.perm_append_singleton node s.heap.heap).symm
    have hperm := hend.append_left s.popped
    rw [← List.append_assoc] at hperm
    exact hperm.trans (h.kept.append_right [node])
  | pop =>
    obtain rfl := Option.some.inj ht
    have hperm := perm_front_pop cmp s.heap
    refine ⟨h.ordered.pop, ?_, ?_⟩
    · have hlen := hperm.length_eq
      have hcells := h.cells
      rw [List.length_append] at hlen
      dsimp only
      rw [totalSize_pop]
      omega
    · rw [List.append_assoc]
      exact (hperm.append_left _).trans h.kept

/-- As many `Pop` as there are entries: they come out sorted. -/
theorem QueueInv.drain {n : ℕ} {s : HeapRun α} (h : QueueInv cmp s) (hn : s.heap.heap.length = n) :
    ∃ t l, exec (heapStep cmp) s (List.replicate n .pop) = some t ∧ t.heap.heap = [] ∧ t.popped = s.popped ++ l ∧
      l.Perm s.heap.heap ∧ l.Pairwise fun a b => cmp b a = false := by
  induction n generalizing s with
  | zero =>
    have hnil := List.eq_nil_of_length_eq_zero hn
    exact ⟨s, [], rfl, hnil, (List.append_nil _).symm, hnil ▸ .nil, .nil⟩
  | succ n ih =>
    obtain ⟨x, xs, hx⟩ := List.exists_cons_of_length_eq_add_one hn
    have hfront : s.heap.front = some x := by rw [front, hx]; rfl
    have hpop := perm_front_pop cmp s.heap
    rw [hfront] at hpop
    have hlen := hpop.length_eq
    rw [hn, Option.toList_some, List.length_append, List.length_singleton] at hlen
    have hrest : (s.heap.pop cmp).heap.length = n := by omega
    obtain ⟨t, l, ht, hempty, hpopped, hperm, hsorted⟩ := ih (@queueInv_step _ _ _ _ _ .pop h rfl) hrest
    refine ⟨t, x :: l, exec_cons_eq_some.mpr ⟨_, rfl, ht⟩, hempty, ?_, ?_, ?_⟩
    · rw [hpopped, hfront, List.append_assoc]
      rfl
    · exact (hperm.cons x).trans hpop
    · refine List.pairwise_cons.mpr ⟨fun b hb => ?_, hsorted⟩
      exact h.ordered.front_le hfront (mem_of_mem_pop (hperm.mem_iff.mp hb))

end Runs

/-- The comparison of a heap that names none. -/
def less {α : Type} [LT α] [DecidableLT α] (left right : α) : Bool := decide (left < right)

instance {α : Type} [LinearOrder α] : IsStrictWeakOrder α (Before (less : α → α → Bool)) where
  irrefl a := by simp [Before, less]
  trans a b c := by
    simp only [Before, less, decide_eq_true_eq]
    exact lt_trans
  incomp_trans a b c := by
    simp only [Before, less, decide_eq_true_eq, not_lt]
    rintro ⟨hba, hab⟩ ⟨hcb, hbc⟩
    exact ⟨hcb.trans hba, hab.trans hbc⟩

/-- More entries than the first array has cells, equal ones among them, and some of them popped. -/
def queueSample : List (HeapOp ℕ) :=
  (List.range 40).map (fun i => .push (i * 17 % 29)) ++ List.replicate 7 .pop ++
    (List.range 40).map (fun i => .push (i * 11 % 31))

theorem queueSample_isSome : (exec (heapStep less) .start queueSample).isSome := by decide +kernel

def queueSampleEnd : HeapRun ℕ := (exec (heapStep less) .start queueSample).get queueSample_isSome

end Chaos.MinHeap
