import Mathlib.Data.Finmap

/-!
# Inserting into a map without overwriting

`std::map::insert` keeps an entry that is already there.
-/
namespace Chaos.StdMap

variable {α β : Type*} [DecidableEq α]

def insertNew (m : Finmap fun _ : α => β) (a : α) (b : β) : Finmap fun _ : α => β :=
  if a ∈ m then m else m.insert a b

theorem lookup_insertNew (m : Finmap fun _ : α => β) (a a' : α) (b : β) :
    (insertNew m a b).lookup a' = (m.lookup a').or (if a' = a then some b else none) := by
  rw [insertNew]
  by_cases ha : a' = a
  · subst ha
    split
    · next h =>
      obtain ⟨c, hc⟩ := Finmap.mem_iff.mp h
      simp [hc]
    · next h => simp [Finmap.lookup_eq_none.mpr h]
  · rw [if_neg ha, Option.or_none]
    split
    · rfl
    · exact Finmap.lookup_insert_of_ne _ ha

/-- After many insertions a key has the first of the values inserted for it. -/
theorem lookup_foldl_insertNew {γ : Type*} (key : γ → α) (value : γ → β) (m : Finmap fun _ : α => β)
    (l : List γ) (a : α) :
    (l.foldl (fun m c => insertNew m (key c) (value c)) m).lookup a =
      (m.lookup a).or ((l.find? fun c => a = key c).map value) := by
  induction l generalizing m with
  | nil => simp
  | cons c l ih =>
    rw [List.foldl_cons, ih, lookup_insertNew, Option.or_assoc, List.find?_cons]
    by_cases ha : a = key c
    · simp [ha]
    · simp [ha]

end Chaos.StdMap
