import Chaos.ExpiringHeap
import Chaos.MinHeap

/-!
# The heap under a comparison that is false on expired entries

`Push` keeps the order along the paths unless the new entry stops under an expired one with a later
live entry above it; `Pop` keeps it unless what it places has an expired entry beside or below it with
an earlier live entry further down. `pushOk` and `popOk` are these conditions. `Pop` mends the root, so
it asks for the order below the root only.
-/
namespace Chaos.MinHeap

open ExpiringHeap

variable {α : Type} {K : Type*} (key : α → Option K)

def keyAt (heap : List α) (pos : ℕ) : Option K :=
  if pos = 0 then none else heap[pos - 1]?.bind key

variable {key}

section KeyAt
variable {heap : List α} {pos : ℕ} {node : α}

theorem keyAt_of_get (hpos : 1 ≤ pos) {a : α} (h : heap[pos - 1]? = some a) :
    keyAt key heap pos = key a := by
  rw [keyAt, if_neg (by omega), h]
  rfl

theorem keyAt_beyond (h : heap.length < pos) : keyAt key heap pos = none := by
  rw [keyAt]
  split_ifs
  · rfl
  · rw [List.getElem?_eq_none (by omega)]
    rfl

theorem keyAt_set (hpos : 1 ≤ pos) (hin : pos - 1 < heap.length) :
    keyAt key (heap.set (pos - 1) node) = Function.update (keyAt key heap) pos (key node) := by
  funext i
  rcases eq_or_ne i pos with rfl | hne
  · rw [Function.update_self, keyAt_of_get hpos (List.getElem?_set_self hin)]
  · rw [Function.update_of_ne hne]
    simp only [keyAt]
    split_ifs
    · rfl
    · rw [List.getElem?_set_ne (by omega)]

theorem keyAt_append (hne : pos ≠ heap.length + 1) :
    keyAt key (heap ++ [node]) pos = keyAt key heap pos := by
  simp only [keyAt]
  split_ifs with h0
  · rfl
  · rcases Nat.lt_or_ge (pos - 1) heap.length with hlt | hge
    · rw [List.getElem?_append_left hlt]
    · rw [List.getElem?_eq_none (by simp; omega), List.getElem?_eq_none (by omega)]

end KeyAt

variable [LinearOrder K] (key)

def cmpKey (a b : α) : Bool := liveLt (key a) (key b)

/-- No live entry above position `e`, from `m` on, is later than `x`. -/
def noneLaterAbove (m : ℕ) (heap : List α) (e : ℕ) (x : Option K) : Prop :=
  ∀ i ≤ heap.length, m ≤ i → Above i e → LiveLe (keyAt key heap i) x

/-- No live entry below position `i` is earlier than `x`. -/
def noneEarlierBelow (heap : List α) (i : ℕ) (x : Option K) : Prop :=
  ∀ j ≤ heap.length, Above i j → LiveLe x (keyAt key heap j)

instance (m : ℕ) (heap : List α) (e : ℕ) (x : Option K) :
    Decidable (noneLaterAbove key m heap e x) := by
  unfold noneLaterAbove
  infer_instance

instance (heap : List α) (i : ℕ) (x : Option K) : Decidable (noneEarlierBelow key heap i x) := by
  unfold noneEarlierBelow
  infer_instance

/-- Where the new entry meets an expired one on its way up, no live entry above that one is later. -/
def pushOk (m : ℕ) (heap : List α) (node : α) : Prop :=
  ∀ e ≤ heap.length, Above e (heap.length + 1) → keyAt key heap e = none →
    noneLaterAbove key m heap e (key node)

instance (m : ℕ) (heap : List α) (node : α) : Decidable (pushOk key m heap node) := by
  unfold pushOk
  infer_instance

def sibling (pos cpos : ℕ) : ℕ := if cpos = pos * 2 then pos * 2 + 1 else pos * 2

/-- Along the way down, where one of the children is expired, nothing below it is earlier than what is
placed above it. -/
def sinkOk (node : α) : ℕ → List α → ℕ → Prop
  | 0, _, _ => True
  | fuel + 1, heap, pos =>
    match child (cmpKey key) heap pos with
    | none => True
    | some (c, cpos) =>
      if cmpKey key c node then
        (keyAt key heap (sibling pos cpos) = none →
          noneEarlierBelow key heap (sibling pos cpos) (key c)) ∧
        sinkOk node fuel (heap.set (pos - 1) c) cpos
      else keyAt key heap (pos * 2) = none ∨ keyAt key heap (pos * 2 + 1) = none →
        noneEarlierBelow key heap pos (key node)

instance sinkOk.decidable (node : α) :
    ∀ (fuel : ℕ) (heap : List α) (pos : ℕ), Decidable (sinkOk key node fuel heap pos)
  | 0, _, _ => isTrue trivial
  | fuel + 1, heap, pos => by
    unfold sinkOk
    cases child (cmpKey key) heap pos with
    | none => exact isTrue trivial
    | some found =>
      have := sinkOk.decidable node fuel (heap.set (pos - 1) found.1) found.2
      dsimp only
      infer_instance

/-- The condition of `sinkOk` for the last entry, sunk from the root. -/
def popOk (heap : List α) : Prop :=
  match heap.getLast? with
  | none => True
  | some last => sinkOk key last (heap.length - 1) ((heap.set 0 last).dropLast) 1

instance (heap : List α) : Decidable (popOk key heap) := by
  unfold popOk
  cases heap.getLast? <;> infer_instance

variable {key}

/-! ## Push -/

theorem heapFrom_shiftUpLoop {m fuel pos : ℕ} {heap : List α} {node : α}
    (h : UpOrder m (keyAt key heap) pos (key node)) (hpos : 1 ≤ pos) (hin : pos - 1 < heap.length)
    (hfuel : pos ≤ fuel) (htop : ∀ i < m, liveLt (key node) (keyAt key heap i) = false)
    (hgone : ∀ e, Above e pos → keyAt key heap e = none →
      ∀ i, m ≤ i → Above i e → LiveLe (keyAt key heap i) (key node)) :
    HeapFrom m (keyAt key (shiftUpLoop (cmpKey key) node fuel heap pos)) := by
  induction fuel generalizing heap pos with
  | zero => omega
  | succ fuel ih =>
    rw [shiftUpLoop]
    cases hp : parent heap pos with
    | none =>
      have hroot : pos / 2 = 0 := by
        by_contra hne
        have hget : heap[pos / 2 - 1]? = none := by simpa [parent, hne] using hp
        have := List.getElem?_eq_none_iff.mp hget
        omega
      dsimp only
      rw [keyAt_set hpos hin]
      refine h.stop fun i _ hi => ?_
      have := (above_iff.mp hi).1
      omega
    | some p =>
      have hhalf : pos / 2 ≠ 0 ∧ heap[pos / 2 - 1]? = some p := by simpa [parent] using hp
      have hkey : keyAt key heap (pos / 2) = key p := keyAt_of_get (by omega) hhalf.2
      dsimp only
      cases hlt : cmpKey key node p with
      | true =>
        rw [if_pos rfl]
        have hless : liveLt (key node) (keyAt key heap (pos / 2)) = true := by
          rw [hkey]
          exact hlt
        have hm : m ≤ pos / 2 := by
          by_contra hnot
          rw [htop (pos / 2) (by omega)] at hless
          exact Bool.false_ne_true hless
        have hset : keyAt key (heap.set (pos - 1) p) =
            Function.update (keyAt key heap) pos (keyAt key heap (pos / 2)) := by
          rw [keyAt_set hpos hin, hkey]
        apply ih
        · rw [hset]
          exact h.move (by omega) hm hless
        · omega
        · rw [List.length_set]
          omega
        · omega
        · intro i hi
          rw [hset, Function.update_of_ne (by omega)]
          exact htop i hi
        · intro e he hnone i hi hie
          have hup : Above (pos / 2) pos := above_half (by omega)
          have h1 := he.lt
          have h2 := hie.lt
          rw [hset, Function.update_of_ne (by omega)] at hnone ⊢
          exact hgone e (he.trans hup) hnone i hi hie
      | false =>
        rw [if_neg Bool.false_ne_true, keyAt_set hpos hin]
        refine h.stop (h.above_of_stop ?_ hgone)
        rw [hkey]
        exact hlt

/-- `Push` keeps the order from `m` on when no key before `m` is later than the new one. -/
theorem heapFrom_push {m : ℕ} {h : MinHeap α} {node : α} (hh : HeapFrom m (keyAt key h.heap))
    (htop : ∀ i < m, liveLt (key node) (keyAt key h.heap i) = false)
    (hok : pushOk key m h.heap node) (hm : m ≤ h.heap.length + 1) :
    HeapFrom m (keyAt key (h.push (cmpKey key) node).heap) := by
  have hsame (i : ℕ) (hi : i ≠ h.heap.length + 1) :
      keyAt key (h.heap ++ [node]) i = keyAt key h.heap i := keyAt_append hi
  refine heapFrom_shiftUpLoop ?_ (by omega) (by simp) le_rfl ?_ ?_
  · constructor
    · intro i j hi hin hjn hij
      rw [hsame i hin, hsame j hjn]
      exact hh i j hi hij
    · intro j hj
      have hlt := hj.lt
      rw [keyAt_beyond (by simp; omega)]
      exact liveLe_none_right _
  · intro i hi
    rw [hsame i (by omega)]
    exact htop i hi
  · intro e he hnone i hi hie
    have h1 := he.lt
    have h2 := hie.lt
    rw [hsame e (by omega)] at hnone
    rw [hsame i (by omega)]
    exact hok e (by omega) he hnone i (by omega) hi hie

/-! ## Pop -/

section Child
variable {heap : List α} {pos cpos : ℕ} {c : α}

theorem child_none {cmp : α → α → Bool} (hpos : 1 ≤ pos) (h : child cmp heap pos = none) :
    heap.length < pos * 2 := by
  rw [child] at h
  cases hl : heap[pos * 2 - 1]? with
  | none =>
    have := List.getElem?_eq_none_iff.mp hl
    omega
  | some a =>
    cases hr : heap[pos * 2]? with
    | none => simp [hl, hr] at h
    | some r =>
      simp only [hl, hr] at h
      split_ifs at h

/-- The child that is compared is not later than the other one. -/
theorem child_le (hpos : 1 ≤ pos) (h : child (cmpKey key) heap pos = some (c, cpos)) :
    LiveLe (key c) (keyAt key heap (sibling pos cpos)) := by
  rw [child] at h
  cases hl : heap[pos * 2 - 1]? with
  | none =>
    cases hr : heap[pos * 2]? with
    | none => simp [hl, hr] at h
    | some r =>
      simp only [hl, hr, Option.some.injEq, Prod.mk.injEq] at h
      obtain ⟨rfl, rfl⟩ := h
      have hgone : keyAt key heap (pos * 2) = none := by
        apply keyAt_beyond
        have := List.getElem?_eq_none_iff.mp hl
        omega
      simp [sibling, hgone]
  | some a =>
    have hka : keyAt key heap (pos * 2) = key a := keyAt_of_get (by omega) hl
    cases hr : heap[pos * 2]? with
    | none =>
      simp only [hl, hr, Option.some.injEq, Prod.mk.injEq] at h
      obtain ⟨rfl, rfl⟩ := h
      have hgone : keyAt key heap (pos * 2 + 1) = none := by
        apply keyAt_beyond
        have := List.getElem?_eq_none_iff.mp hr
        omega
      simp [sibling, hgone]
    | some r =>
      have hkr : keyAt key heap (pos * 2 + 1) = key r := keyAt_of_get (by omega) hr
      simp only [hl, hr] at h
      split_ifs at h with hlt
      · simp only [Option.some.injEq, Prod.mk.injEq] at h
        obtain ⟨rfl, rfl⟩ := h
        simpa [sibling, hkr] using liveLe_of_liveLt hlt
      · simp only [Option.some.injEq, Prod.mk.injEq] at h
        obtain ⟨rfl, rfl⟩ := h
        have hle := liveLe_of_not_liveLt (Bool.eq_false_iff.mpr hlt)
        simpa [sibling, hka] using hle

/-- Nothing is left below a position without children. -/
theorem below_child_none {cmp : α → α → Bool} {x : Option K} (hpos : 1 ≤ pos)
    (h : child cmp heap pos = none) (j : ℕ) (hj : Above pos j) : LiveLe x (keyAt key heap j) := by
  have hend := child_none hpos h
  obtain ⟨d, hd, hdj⟩ := hj.child_cases
  have hbeyond : heap.length < j := by
    rcases hdj with rfl | hdj
    · omega
    · have := hdj.lt
      omega
  rw [keyAt_beyond hbeyond]
  exact liveLe_none_right _

theorem sibling_cases (hcpos : cpos = pos * 2 ∨ cpos = pos * 2 + 1) :
    cpos = pos * 2 ∧ sibling pos cpos = pos * 2 + 1 ∨
      cpos = pos * 2 + 1 ∧ sibling pos cpos = pos * 2 := by
  rw [sibling]
  rcases hcpos with rfl | rfl
  · exact Or.inl ⟨rfl, if_pos rfl⟩
  · exact Or.inr ⟨rfl, if_neg (by omega)⟩

theorem child_key (hpos : 1 ≤ pos) (h : child (cmpKey key) heap pos = some (c, cpos)) :
    keyAt key heap cpos = key c := by
  obtain ⟨hcpos, hget⟩ := child_eq_some h
  exact keyAt_of_get (by omega) hget

/-- The child that moves up is not later than anything below its sibling. -/
theorem below_sibling {x : Option K} (hpos : 1 ≤ pos)
    (h : DownOrder (keyAt key heap) pos x) (hc : child (cmpKey key) heap pos = some (c, cpos))
    (hok : keyAt key heap (sibling pos cpos) = none →
      noneEarlierBelow key heap (sibling pos cpos) (key c))
    (j : ℕ) (hj : Above (sibling pos cpos) j) : LiveLe (key c) (keyAt key heap j) := by
  have hside := child_le hpos hc
  have hcs := sibling_cases (child_eq_some hc).1
  cases hs : keyAt key heap (sibling pos cpos) with
  | none =>
    rcases Nat.lt_or_ge heap.length j with hbeyond | hin
    · rw [keyAt_beyond hbeyond]
      exact liveLe_none_right _
    · exact hok hs j hin hj
  | some y =>
    have hlt := hj.lt
    have hrest := h.pairs (sibling pos cpos) j (by omega) (by omega) (by omega) hj
    rw [hs] at hside hrest
    exact hside.trans_some hrest

/-- The node stops above a child that is not earlier. -/
theorem below_stop {x : Option K} (hpos : 1 ≤ pos) (h : DownOrder (keyAt key heap) pos x)
    (hc : child (cmpKey key) heap pos = some (c, cpos)) (hle : LiveLe x (key c))
    (hok : keyAt key heap (pos * 2) = none ∨ keyAt key heap (pos * 2 + 1) = none →
      noneEarlierBelow key heap pos x)
    (j : ℕ) (hj : Above pos j) : LiveLe x (keyAt key heap j) := by
  have hcpos := (child_eq_some hc).1
  have hkey := child_key hpos hc
  have hside := child_le hpos hc
  have hcs := sibling_cases hcpos
  rcases Nat.lt_or_ge heap.length j with hbeyond | hin
  · rw [keyAt_beyond hbeyond]
    exact liveLe_none_right _
  by_cases hgone : keyAt key heap (pos * 2) = none ∨ keyAt key heap (pos * 2 + 1) = none
  · exact hok hgone j hin hj
  · have hboth : ∀ d, d = pos * 2 ∨ d = pos * 2 + 1 → (keyAt key heap d).isSome := by
      rintro d (rfl | rfl)
      · exact Option.isSome_iff_ne_none.mpr fun hn => hgone (Or.inl hn)
      · exact Option.isSome_iff_ne_none.mpr fun hn => hgone (Or.inr hn)
    refine h.below_of_children hpos (fun d hd => ⟨?_, hboth d hd⟩) j hj
    have hcsome := hboth cpos hcpos
    rw [hkey] at hcsome
    obtain ⟨y, hy⟩ := Option.isSome_iff_exists.mp hcsome
    have hds : d = cpos ∨ d = sibling pos cpos := by omega
    rcases hds with rfl | rfl
    · rw [hkey]
      exact hle
    · rw [hy] at hle hside
      exact hle.trans_some hside

end Child

theorem heapFrom_shiftDownLoop {fuel pos : ℕ} {heap : List α} {node : α}
    (h : DownOrder (keyAt key heap) pos (key node)) (hpos : 1 ≤ pos) (hin : pos - 1 < heap.length)
    (hfuel : heap.length < pos + fuel) (hok : sinkOk key node fuel heap pos) :
    HeapFrom 1 (keyAt key (shiftDownLoop (cmpKey key) node fuel heap pos)) := by
  induction fuel generalizing heap pos with
  | zero => omega
  | succ fuel ih =>
    rw [shiftDownLoop]
    rw [sinkOk] at hok
    cases hc : child (cmpKey key) heap pos with
    | none =>
      dsimp only
      rw [keyAt_set hpos hin]
      exact h.stop (below_child_none hpos hc)
    | some found =>
      obtain ⟨c, cpos⟩ := found
      rw [hc] at hok
      obtain ⟨hcpos, hget⟩ := child_eq_some hc
      have hclt := (List.getElem?_eq_some_iff.mp hget).1
      have hkey := child_key hpos hc
      dsimp only at hok ⊢
      cases hlt : cmpKey key c node with
      | true =>
        rw [hlt, if_pos rfl] at hok
        rw [if_pos rfl]
        have hset : keyAt key (heap.set (pos - 1) c) =
            Function.update (keyAt key heap) pos (keyAt key heap cpos) := by
          rw [keyAt_set hpos hin, hkey]
        apply ih
        · rw [hset]
          refine h.move hpos (sibling_cases hcpos) ?_ ?_ ?_
          · rwa [hkey]
          · rw [hkey]
            exact child_le hpos hc
          · rw [hkey]
            exact below_sibling hpos h hc hok.1
        · omega
        · rw [List.length_set]
          exact hclt
        · rw [List.length_set]
          omega
        · exact hok.2
      | false =>
        rw [hlt, if_neg Bool.false_ne_true] at hok
        rw [if_neg Bool.false_ne_true, keyAt_set hpos hin]
        exact h.stop (below_stop hpos h hc (liveLe_of_not_liveLt hlt) hok)

/-- `Pop` restores the order at the root. -/
theorem heapFrom_pop {h : MinHeap α} (hh : HeapFrom 2 (keyAt key h.heap)) (hok : popOk key h.heap) :
    HeapFrom 1 (keyAt key (h.pop (cmpKey key)).heap) := by
  have hempty : HeapFrom 1 (keyAt key ([] : List α)) := by
    intro i j _ hij
    have hlt := hij.lt
    rw [show keyAt key ([] : List α) j = none from keyAt_beyond (by simp; omega)]
    exact liveLe_none_right _
  cases hl : h.heap with
  | nil =>
    have hpop : (h.pop (cmpKey key)).heap = [] := by simp [pop, erase, hl]
    rw [hpop]
    exact hempty
  | cons x xs =>
    rcases List.eq_nil_or_concat' xs with rfl | ⟨ys, last, rfl⟩
    · rw [heap_pop_single _ hl]
      exact hempty
    · rw [heap_pop _ hl]
      have hlast : h.heap.getLast? = some last := by
        rw [hl, ← List.cons_append, List.getLast?_append]
        rfl
      have hcells : (h.heap.set 0 last).dropLast = last :: ys := by
        rw [hl, List.set_cons_zero, ← List.cons_append, List.dropLast_concat]
      have hsink : sinkOk key last (ys.length + 1) (last :: ys) 1 := by
        have hlen : h.heap.length - 1 = ys.length + 1 := by simp [hl]
        rw [popOk, hlast] at hok
        rw [← hlen, ← hcells]
        exact hok
      have hsame (i : ℕ) (hi : 2 ≤ i) (hlen : i ≤ ys.length + 1) :
          keyAt key (last :: ys) i = keyAt key h.heap i := by
        rw [hl, keyAt, keyAt, if_neg (by omega), if_neg (by omega), show i - 1 = i - 2 + 1 by omega,
          List.getElem?_cons_succ, List.getElem?_cons_succ, List.getElem?_append_left (by omega)]
      refine heapFrom_shiftDownLoop ?_ le_rfl (by simp) (by simp) hsink
      constructor
      · intro i j hi hi1 _ hij
        have hlt := hij.lt
        rcases Nat.lt_or_ge (ys.length + 1) j with hbeyond | hj
        · rw [@keyAt_beyond _ _ key _ j (by simpa using hbeyond)]
          exact liveLe_none_right _
        · rw [hsame i (by omega) (by omega), hsame j (by omega) hj]
          exact hh i j (by omega) hij
      · intro i _ hi
        have := (above_iff.mp hi).1
        omega

end Chaos.MinHeap
