import Mathlib.Data.List.Perm.Basic
import Mathlib.Data.List.Nodup

/-!
# Association lists with distinct keys

A map kept as a list of keys and values: a key that is not there is put in front, and a key is erased by
a filter. As long as the keys are distinct an erased entry is the one that the lookup finds.
-/
namespace Chaos.KeyLists

variable {κ ν : Type*} [DecidableEq κ] {m : List (κ × ν)} {k : κ} {v : ν}

def KeysNodup (m : List (κ × ν)) : Prop := (m.map Prod.fst).Nodup

/-- Erase a key. -/
def eraseKey (m : List (κ × ν)) (k : κ) : List (κ × ν) := m.filter fun entry => entry.1 != k

theorem mem_of_lookup (h : m.lookup k = some v) : (k, v) ∈ m := by
  obtain ⟨l₁, l₂, rfl, _⟩ := List.lookup_eq_some_iff.mp h
  simp

theorem not_mem_of_lookup (h : m.lookup k = none) (v : ν) : (k, v) ∉ m := by
  intro hmem
  simpa using List.lookup_eq_none_iff.mp h (k, v) hmem

theorem lookup_of_mem (hm : KeysNodup m) (h : (k, v) ∈ m) : m.lookup k = some v := by
  induction m with
  | nil => simp at h
  | cons entry m ih =>
    obtain ⟨hnew, hm⟩ := List.nodup_cons.mp hm
    rw [List.lookup_cons]
    rcases List.mem_cons.mp h with rfl | hmem
    · simp
    · have hne : entry.1 ≠ k := by
        rintro rfl
        exact hnew (List.mem_map.mpr ⟨_, hmem, rfl⟩)
      rw [beq_false_of_ne hne.symm]
      exact ih hm hmem

theorem mem_eraseKey {entry : κ × ν} : entry ∈ eraseKey m k ↔ entry ∈ m ∧ entry.1 ≠ k := by
  simp [eraseKey]

theorem mem_eraseKey_of_ne (hm : KeysNodup m) (h : m.lookup k ≠ some v) (k' : κ) :
    (k', v) ∈ eraseKey m k ↔ (k', v) ∈ m := by
  rw [mem_eraseKey, and_iff_left_iff_imp]
  rintro hmem rfl
  exact h (lookup_of_mem hm hmem)

theorem eraseKey_sublist (m : List (κ × ν)) (k : κ) : (eraseKey m k).Sublist m := List.filter_sublist

omit [DecidableEq κ] in
theorem KeysNodup.sublist {m' : List (κ × ν)} (hm : KeysNodup m) (h : m'.Sublist m) : KeysNodup m' :=
  List.Nodup.sublist (h.map Prod.fst) hm

theorem KeysNodup.eraseKey (hm : KeysNodup m) (k : κ) : KeysNodup (eraseKey m k) := hm.sublist (eraseKey_sublist m k)

theorem KeysNodup.cons (hm : KeysNodup m) (h : m.lookup k = none) (v : ν) : KeysNodup ((k, v) :: m) := by
  refine List.nodup_cons.mpr ⟨?_, hm⟩
  intro hmem
  obtain ⟨⟨_, w⟩, hw, rfl⟩ := List.mem_map.mp hmem
  exact not_mem_of_lookup h w hw

theorem lookup_eraseKey_self (m : List (κ × ν)) (k : κ) : (eraseKey m k).lookup k = none := by
  rw [List.lookup_eq_none_iff]
  intro entry hmem
  have hne : entry.1 ≠ k := (mem_eraseKey.mp hmem).2
  simpa using hne.symm

theorem lookup_eraseKey_of_ne (m : List (κ × ν)) {k' : κ} (hk : k' ≠ k) :
    (eraseKey m k).lookup k' = m.lookup k' := by
  induction m with
  | nil => rfl
  | cons entry m ih =>
    rcases eq_or_ne entry.1 k with heq | hne
    · have hskip : eraseKey (entry :: m) k = eraseKey m k := by simp [eraseKey, heq]
      rw [hskip, ih, List.lookup_cons, heq, beq_false_of_ne hk]
    · have hkeep : eraseKey (entry :: m) k = entry :: eraseKey m k := by simp [eraseKey, hne]
      rw [hkeep, List.lookup_cons, List.lookup_cons, ih]

theorem eraseKey_of_lookup (h : m.lookup k = none) : eraseKey m k = m := by
  apply List.filter_eq_self.mpr
  rintro ⟨k', v⟩ hmem
  have hne : k' ≠ k := by
    rintro rfl
    exact not_mem_of_lookup h v hmem
  simpa using hne

/-- Erasing a key takes away the entry that the lookup finds, and nothing else. -/
theorem perm_eraseKey (hm : KeysNodup m) (h : m.lookup k = some v) : m.Perm ((k, v) :: eraseKey m k) := by
  obtain ⟨l₁, l₂, rfl, _⟩ := List.lookup_eq_some_iff.mp h
  have hperm : (l₁ ++ (k, v) :: l₂).Perm ((k, v) :: (l₁ ++ l₂)) := List.perm_middle
  have hkeys : ((k, v) :: (l₁ ++ l₂)).map Prod.fst |>.Nodup := (hperm.map Prod.fst).nodup_iff.mp hm
  obtain ⟨hk, _⟩ := List.nodup_cons.mp hkeys
  have hrest : KeyLists.eraseKey (l₁ ++ (k, v) :: l₂) k = l₁ ++ l₂ := by
    have hself : (l₁ ++ l₂).filter (fun entry => entry.1 != k) = l₁ ++ l₂ := by
      apply List.filter_eq_self.mpr
      intro entry hmem
      have hne : entry.1 ≠ k := by
        rintro rfl
        exact hk (List.mem_map.mpr ⟨_, hmem, rfl⟩)
      simpa using hne
    simpa [KeyLists.eraseKey] using hself
  rw [hrest]
  exact hperm

end Chaos.KeyLists
