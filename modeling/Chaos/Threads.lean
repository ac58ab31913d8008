import Mathlib.Algebra.BigOperators.Group.List.Basic
import Mathlib.Algebra.GroupWithZero.Nat
import Mathlib.Data.List.Forall2
import Mathlib.Data.List.Perm.Basic
import Mathlib.Data.Option.Basic

/-!
# Threads that share a mutex

Threads of one kind are the list of where each of them is: one of them moves, or a new one comes to the end of
the list. Of a mutex it is known who has it; `Exclusive` says that nobody else is where only the owner can be.
-/
namespace Chaos.Threads

section Lists
variable {α β : Type*} {l : List α} {i c : ℕ} {a b v : α}

/-- A thread after one of them has moved. -/
theorem set_cases (hi : l[i]? = some a) (hc : (l.set i b)[c]? = some v) :
    (c = i ∧ v = b) ∨ (c ≠ i ∧ l[c]? = some v) := by
  obtain ⟨hlt, -⟩ := List.getElem?_eq_some_iff.mp hi
  by_cases hci : c = i
  · subst hci
    rw [List.getElem?_set_self hlt] at hc
    exact Or.inl ⟨rfl, (Option.some.inj hc).symm⟩
  · rw [List.getElem?_set_ne (Ne.symm hci)] at hc
    exact Or.inr ⟨hci, hc⟩

theorem set_self (hi : l[i]? = some a) : (l.set i b)[i]? = some b := by
  obtain ⟨hlt, -⟩ := List.getElem?_eq_some_iff.mp hi
  exact List.getElem?_set_self hlt

theorem set_of_ne (hci : c ≠ i) : (l.set i b)[c]? = l[c]? :=
  List.getElem?_set_ne (Ne.symm hci)

/-- A thread after a new one has come. -/
theorem append_cases (hc : (l ++ [b])[c]? = some v) : (c = l.length ∧ v = b) ∨ l[c]? = some v := by
  rcases Nat.lt_or_ge c l.length with hlt | hge
  · rw [List.getElem?_append_left hlt] at hc
    exact Or.inr hc
  · rw [List.getElem?_append_right hge] at hc
    obtain ⟨hzero, hvb⟩ := List.getElem?_eq_some_iff.mp hc
    rw [List.length_singleton] at hzero
    refine Or.inl ⟨by omega, ?_⟩
    simpa using hvb.symm

theorem append_of_some (hc : l[c]? = some v) : (l ++ [b])[c]? = some v := by
  obtain ⟨hlt, -⟩ := List.getElem?_eq_some_iff.mp hc
  rw [List.getElem?_append_left hlt]
  exact hc

section Pairs
variable {R : α → β → Prop} {xs : List α} {ys : List β} {x : α} {y : β}

/-- Threads that are related one by one. -/
theorem forall₂_get (h : List.Forall₂ R xs ys) (hi : ys[i]? = some y) : ∃ x, xs[i]? = some x ∧ R x y := by
  induction h generalizing i with
  | nil => cases hi
  | cons hxy htail ih =>
    cases i with
    | zero =>
      cases hi
      exact ⟨_, rfl, hxy⟩
    | succ i => exact ih hi

theorem forall₂_get_right (h : List.Forall₂ R xs ys) (hi : xs[i]? = some x) : ∃ y, ys[i]? = some y ∧ R x y :=
  forall₂_get h.flip hi

theorem forall₂_set (h : List.Forall₂ R xs ys) (hxy : R x y) (i : ℕ) :
    List.Forall₂ R (xs.set i x) (ys.set i y) := by
  induction h generalizing i with
  | nil => exact .nil
  | cons hhead htail ih =>
    cases i with
    | zero => exact .cons hxy htail
    | succ i => exact .cons hhead (ih i)

end Pairs

/-- What the threads have in their hands after one of them has moved. -/
theorem filterMap_set_perm (f : α → Option β) (hi : l[i]? = some a) :
    ((l.set i b).filterMap f ++ (f a).toList).Perm (l.filterMap f ++ (f b).toList) := by
  induction l generalizing i with
  | nil => cases hi
  | cons x l ih =>
    have hcons (y : α) (ys : List α) : (y :: ys).filterMap f = (f y).toList ++ ys.filterMap f := by
      rw [List.filterMap_cons]
      cases f y <;> rfl
    cases i with
    | zero =>
      obtain rfl : x = a := Option.some.inj hi
      rw [List.set_cons_zero, hcons, hcons, List.append_assoc, List.append_assoc]
      calc
        List.Perm ((f b).toList ++ (l.filterMap f ++ (f x).toList))
            ((f x).toList ++ ((f b).toList ++ l.filterMap f)) := by
          rw [← List.append_assoc]
          exact List.perm_append_comm
        List.Perm _ ((f x).toList ++ (l.filterMap f ++ (f b).toList)) :=
          List.Perm.append_left _ List.perm_append_comm
    | succ i =>
      rw [List.set_cons_succ, hcons, hcons, List.append_assoc, List.append_assoc]
      exact List.Perm.append_left _ (ih hi)

/-- The sum of what the threads weigh after one of them has moved. -/
theorem sum_set (f : α → ℕ) (hi : l[i]? = some a) : ((l.set i b).map f).sum + f a = (l.map f).sum + f b := by
  induction l generalizing i with
  | nil => cases hi
  | cons x l ih =>
    cases i with
    | zero =>
      obtain rfl : x = a := Option.some.inj hi
      simp only [List.set_cons_zero, List.map_cons, List.sum_cons]
      omega
    | succ i =>
      have htail := ih hi
      simp only [List.set_cons_succ, List.map_cons, List.sum_cons]
      omega

/-- Threads that weigh no more each weigh no more together. -/
theorem sum_map_le (f : α → ℕ) {g : α → α} (h : ∀ a, f (g a) ≤ f a) : ((l.map g).map f).sum ≤ (l.map f).sum := by
  induction l with
  | nil => exact Nat.le_refl _
  | cons a l ih =>
    simp only [List.map_cons, List.sum_cons]
    exact Nat.add_le_add (h a) ih

end Lists

section Mutex
variable {τ : Type*} {owner : Option τ} {inside inside' : τ → Prop} {o p : τ}

/-- Only the owner is inside. -/
def Exclusive (owner : Option τ) (inside : τ → Prop) : Prop := ∀ o, inside o → owner = some o

theorem Exclusive.eq (h : Exclusive owner inside) (ho : inside o) (hp : inside p) : o = p :=
  Option.some.inj ((h o ho).symm.trans (h p hp))

theorem Exclusive.mono (h : Exclusive owner inside) (hin : ∀ o, inside' o → inside o) :
    Exclusive owner inside' := fun o ho => h o (hin o ho)

/-- One thread moves inside or outside, or leaves a place where it was not. -/
theorem Exclusive.keep (h : Exclusive owner inside) (hothers : ∀ q, q ≠ p → inside' q → inside q)
    (hp : inside' p → inside p) : Exclusive owner inside' := by
  intro q hq
  rcases eq_or_ne q p with rfl | hne
  · exact h q (hp hq)
  · exact h q (hothers q hne hq)

theorem Exclusive.acquire (h : Exclusive none inside) (hothers : ∀ q, q ≠ p → inside' q → inside q) :
    Exclusive (some p) inside' := by
  intro q hq
  rcases eq_or_ne q p with rfl | hne
  · rfl
  · cases h q (hothers q hne hq)

theorem Exclusive.release (h : Exclusive owner inside) (hp : inside p)
    (hothers : ∀ q, q ≠ p → inside' q → inside q) (hp' : ¬ inside' p) : Exclusive none inside' := by
  intro q hq
  rcases eq_or_ne q p with rfl | hne
  · exact absurd hq hp'
  · exact absurd (h.eq (hothers q hne hq) hp) hne

end Mutex

end Chaos.Threads
