import Mathlib.Data.Option.Basic
import Mathlib.Data.List.Basic

/-!
# Runs of a labelled step function

A system is a partial step function: `step s l` is the state after the label `l`, or `none` where
`l` cannot happen in `s`. `Guarded` says that every step of a run meets a condition on the state it
starts from; a state property kept by the steps that meet the condition holds all along such a run.
-/
namespace Chaos.GuardedRuns

variable {σ ι : Type*} (step : σ → ι → Option σ) (ok : σ → ι → Prop)

/-- The state after a list of labels, `none` once one of them cannot happen. -/
def exec : σ → List ι → Option σ
  | s, [] => some s
  | s, l :: ls => match step s l with
    | none => none
    | some t => exec t ls

/-- Every step of the run meets `ok` in the state it starts from. -/
def Guarded : σ → List ι → Prop
  | _, [] => True
  | s, l :: ls => ok s l ∧ match step s l with
    | none => True
    | some t => Guarded t ls

instance Guarded.decidable [∀ s l, Decidable (ok s l)] :
    ∀ (s : σ) (ls : List ι), Decidable (Guarded step ok s ls)
  | _, [] => isTrue trivial
  | s, l :: ls => by
    unfold Guarded
    cases step s l with
    | none => infer_instance
    | some t => exact @instDecidableAnd _ _ _ (Guarded.decidable t ls)

variable {step ok}

theorem exec_cons_eq_some {s u : σ} {l : ι} {ls : List ι} :
    exec step s (l :: ls) = some u ↔ ∃ t, step s l = some t ∧ exec step t ls = some u := by
  simp only [exec]
  cases step s l <;> simp

/-- A run with a first step makes it, and the rest from there. -/
theorem step_of_exec {s u : σ} {l : ι} {ls : List ι} (hu : exec step s (l :: ls) = some u) :
    ∃ t, step s l = some t ∧ exec step t ls = some u := Iff.mp exec_cons_eq_some hu

theorem exec_of_step {s t u : σ} {l : ι} {ls : List ι} (ht : step s l = some t) (hu : exec step t ls = some u) :
    exec step s (l :: ls) = some u := Iff.mpr exec_cons_eq_some ⟨t, ht, hu⟩

theorem exec_append (s : σ) (ls ls' : List ι) :
    exec step s (ls ++ ls') = (exec step s ls).bind fun t => exec step t ls' := by
  induction ls generalizing s with
  | nil => rfl
  | cons l ls ih =>
    simp only [List.cons_append, exec]
    cases step s l with
    | none => rfl
    | some t => exact ih t

/-- A step function that makes all the steps of another makes all its runs. -/
theorem exec_mono {step' : σ → ι → Option σ} (h : ∀ s l t, step s l = some t → step' s l = some t) {s u : σ}
    {ls : List ι} (hu : exec step s ls = some u) : exec step' s ls = some u := by
  induction ls generalizing s with
  | nil => exact hu
  | cons l ls ih =>
    obtain ⟨t, ht, hu⟩ := step_of_exec hu
    exact exec_of_step (h s l t ht) (ih hu)

theorem guarded_cons {s t : σ} {l : ι} {ls : List ι} (h : Guarded step ok s (l :: ls))
    (ht : step s l = some t) : ok s l ∧ Guarded step ok t ls := by
  simpa [Guarded, ht] using h

/-- The invariant rule for guarded runs. -/
theorem invariant_of_guarded {inv : σ → Prop}
    (hstep : ∀ s l t, inv s → ok s l → step s l = some t → inv t) {s u : σ} {ls : List ι}
    (hs : inv s) (hg : Guarded step ok s ls) (hu : exec step s ls = some u) : inv u := by
  induction ls generalizing s with
  | nil => exact Option.some.inj hu ▸ hs
  | cons l ls ih =>
    obtain ⟨t, ht, hu⟩ := step_of_exec hu
    obtain ⟨hok, hg⟩ := guarded_cons hg ht
    exact ih (hstep s l t hs hok ht) hg hu

/-- Where the guard lets every step happen a guarded run comes to its end. -/
theorem exec_of_guarded {inv : σ → Prop} (hstep : ∀ s l, inv s → ok s l → ∃ t, step s l = some t ∧ inv t)
    {s : σ} {ls : List ι} (hs : inv s) (hg : Guarded step ok s ls) : ∃ u, exec step s ls = some u ∧ inv u := by
  induction ls generalizing s with
  | nil => exact ⟨s, rfl, hs⟩
  | cons l ls ih =>
    obtain ⟨t, ht, hinv⟩ := hstep s l hs hg.1
    obtain ⟨u, hu, hend⟩ := ih hinv (guarded_cons hg ht).2
    exact ⟨u, exec_of_step ht hu, hend⟩

section Rel
variable {τ : Type*} {step' : τ → ι → Option τ} {rel : σ → τ → Prop}

/-- Two steps that ask for the same. -/
theorem rel_ite {p q : Prop} [Decidable p] [Decidable q] {t : σ} {t' : τ} (hasked : p ↔ q) (h : p → rel t t') :
    Option.Rel rel (if p then some t else none) (if q then some t' else none) := by
  by_cases hp : p
  · rw [if_pos hp, if_pos (Iff.mp hasked hp)]
    exact .some (h hp)
  · rw [if_neg hp, if_neg (mt (Iff.mpr hasked) hp)]
    exact .none

/-- Where the guard makes the steps of two systems go together, or both not happen, so do guarded runs. -/
theorem rel_exec (hstep : ∀ s s' l, rel s s' → ok s l → Option.Rel rel (step s l) (step' s' l)) {s : σ} {s' : τ}
    {ls : List ι} (hs : rel s s') (hg : Guarded step ok s ls) : Option.Rel rel (exec step s ls) (exec step' s' ls) := by
  induction ls generalizing s s' with
  | nil => exact .some hs
  | cons l ls ih =>
    have hrel := hstep s s' l hs hg.1
    rw [Guarded] at hg
    rw [exec, exec]
    generalize step s l = t at hrel hg
    generalize step' s' l = t' at hrel
    cases hrel with
    | none => exact .none
    | some ht => exact ih ht hg.2

end Rel

theorem guarded_of_forall (h : ∀ s l, ok s l) (s : σ) (ls : List ι) : Guarded step ok s ls := by
  induction ls generalizing s with
  | nil => trivial
  | cons l ls ih =>
    refine ⟨h s l, ?_⟩
    cases step s l with
    | none => trivial
    | some t => exact ih t

theorem guarded_congr {ok' : σ → ι → Prop} (h : ∀ s l, ok s l ↔ ok' s l) (s : σ) (ls : List ι) :
    Guarded step ok s ls ↔ Guarded step ok' s ls := by
  induction ls generalizing s with
  | nil => rfl
  | cons l ls ih =>
    rw [Guarded, Guarded, h s l]
    cases step s l with
    | none => rfl
    | some t => exact and_congr_right fun _ => ih t

/-- A condition on the labels alone joins the guard. -/
theorem guarded_and {P : ι → Prop} {s : σ} {ls : List ι} (hP : ∀ l ∈ ls, P l)
    (h : Guarded step ok s ls) : Guarded step (fun s l => P l ∧ ok s l) s ls := by
  induction ls generalizing s with
  | nil => trivial
  | cons l ls ih =>
    obtain ⟨hl, hls⟩ := List.forall_mem_cons.mp hP
    refine ⟨⟨hl, h.1⟩, ?_⟩
    cases hstep : step s l with
    | none => trivial
    | some t => exact ih hls (guarded_cons h hstep).2

/-- The invariant rule for all runs. -/
theorem invariant_of_exec {inv : σ → Prop} (hstep : ∀ s l t, inv s → step s l = some t → inv t)
    {s u : σ} {ls : List ι} (hs : inv s) (hu : exec step s ls = some u) : inv u :=
  @invariant_of_guarded _ _ step (fun _ _ => True) inv (fun s l t h _ ht => hstep s l t h ht) s u ls
    hs (guarded_of_forall (fun _ _ => trivial) s ls) hu

/-- Where each step carries a property on just when it meets the condition, the property holds at the end
of a run just when it held at the start and the run is guarded. `P` is what is known of the labels. -/
theorem good_iff_guarded_of_labels {P : ι → Prop} {inv good : σ → Prop}
    (hstep : ∀ s l t, P l → inv s → step s l = some t → inv t ∧ (good t ↔ good s ∧ ok s l)) {s u : σ} {ls : List ι}
    (hP : ∀ l ∈ ls, P l) (hs : inv s) (hu : exec step s ls = some u) : good u ↔ good s ∧ Guarded step ok s ls := by
  induction ls generalizing s with
  | nil =>
    obtain rfl := Option.some.inj hu
    exact (and_iff_left trivial).symm
  | cons l ls ih =>
    obtain ⟨hl, hls⟩ := List.forall_mem_cons.mp hP
    obtain ⟨t, ht, hu⟩ := step_of_exec hu
    obtain ⟨hinv, hgood⟩ := hstep s l t hl hs ht
    rw [ih hls hinv hu, hgood, and_assoc, Guarded, ht]

theorem good_iff_guarded {inv good : σ → Prop}
    (hstep : ∀ s l t, inv s → step s l = some t → inv t ∧ (good t ↔ good s ∧ ok s l)) {s u : σ} {ls : List ι}
    (hs : inv s) (hu : exec step s ls = some u) : good u ↔ good s ∧ Guarded step ok s ls :=
  @good_iff_guarded_of_labels _ _ step ok (fun _ => True) inv good (fun s l t _ => hstep s l t) s u ls
    (fun _ _ => trivial) hs hu

/-- Every state of the run is good, the first and the last included. -/
def Always (step : σ → ι → Option σ) (good : σ → Prop) : σ → List ι → Prop
  | s, [] => good s
  | s, l :: ls => good s ∧ match step s l with
    | none => True
    | some t => Always step good t ls

theorem always_cons {good : σ → Prop} {s t : σ} {l : ι} {ls : List ι} (ht : step s l = some t) :
    Always step good s (l :: ls) ↔ good s ∧ Always step good t ls := by
  rw [Always, ht]

theorem Always.good {good : σ → Prop} {s : σ} {ls : List ι} (h : Always step good s ls) : good s := by
  cases ls with
  | nil => exact h
  | cons l ls => exact h.1

theorem Always.of_exec {good : σ → Prop} {s u : σ} {ls : List ι} (h : Always step good s ls)
    (hu : exec step s ls = some u) : good u := by
  induction ls generalizing s with
  | nil => exact Option.some.inj hu ▸ h
  | cons l ls ih =>
    obtain ⟨t, ht, hu⟩ := step_of_exec hu
    exact ih ((always_cons ht).mp h).2 hu

/-- An invariant kept by the steps that meet the condition holds in every state of a guarded run. -/
theorem always_of_guarded {inv good : σ → Prop} (hgood : ∀ s, inv s → good s)
    (hstep : ∀ s l t, inv s → ok s l → step s l = some t → inv t) {s : σ} {ls : List ι} (hs : inv s)
    (hg : Guarded step ok s ls) : Always step good s ls := by
  induction ls generalizing s with
  | nil => exact hgood s hs
  | cons l ls ih =>
    cases ht : step s l with
    | none =>
      rw [Always, ht]
      exact ⟨hgood s hs, trivial⟩
    | some t =>
      obtain ⟨hok, hg⟩ := guarded_cons hg ht
      exact (always_cons ht).mpr ⟨hgood s hs, ih (hstep s l t hs hok ht) hg⟩

/-- Out of a doomed state a run that has good states only goes through doomed ones. -/
theorem Always.doomed {good doomed : σ → Prop} (hdoomed : ∀ s l t, doomed s → step s l = some t → good t → doomed t)
    {s u : σ} {ls : List ι} (hs : doomed s) (hu : exec step s ls = some u) (h : Always step good s ls) : doomed u := by
  induction ls generalizing s with
  | nil => exact Option.some.inj hu ▸ hs
  | cons l ls ih =>
    obtain ⟨t, ht, hu⟩ := step_of_exec hu
    have hrest := ((always_cons ht).mp h).2
    exact ih (hdoomed s l t hs ht hrest.good) hu hrest

/-- Where a step that misses the condition dooms the run, one that has good states only, and is not doomed at its
end, is guarded. -/
theorem guarded_of_always {inv good doomed : σ → Prop}
    (hstep : ∀ s l t, inv s → ok s l → step s l = some t → inv t)
    (hmiss : ∀ s l t, inv s → ¬ ok s l → step s l = some t → doomed t)
    (hdoomed : ∀ s l t, doomed s → step s l = some t → good t → doomed t) {s u : σ} {ls : List ι} (hs : inv s)
    (hu : exec step s ls = some u) (hend : ¬ doomed u) (h : Always step good s ls) : Guarded step ok s ls := by
  induction ls generalizing s with
  | nil => trivial
  | cons l ls ih =>
    obtain ⟨t, ht, hu⟩ := step_of_exec hu
    have hrest := ((always_cons ht).mp h).2
    have hok : ok s l := by
      by_contra hnot
      exact hend (hrest.doomed hdoomed (hmiss s l t hs hnot ht) hu)
    rw [Guarded, ht]
    exact ⟨hok, ih (hstep s l t hs hok ht) hu hrest⟩

/-- Where a step out of the invariant leads to a good state only when it meets the condition, and then keeps the
invariant, all states of a run are good just when it is guarded. -/
theorem always_iff_guarded_of_inv {inv good : σ → Prop} (hgood : ∀ s, inv s → good s)
    (hstep : ∀ s l t, inv s → step s l = some t → (good t → ok s l) ∧ (ok s l → inv t)) {s u : σ} {ls : List ι}
    (hs : inv s) (hu : exec step s ls = some u) : Always step good s ls ↔ Guarded step ok s ls := by
  induction ls generalizing s with
  | nil => exact iff_of_true (hgood s hs) trivial
  | cons l ls ih =>
    obtain ⟨t, ht, hu⟩ := step_of_exec hu
    obtain ⟨hok, hinv⟩ := hstep s l t hs ht
    rw [always_cons ht, and_iff_right (hgood s hs), Guarded, ht]
    constructor
    · intro h
      have hl := hok h.good
      exact ⟨hl, (ih (hinv hl) hu).mp h⟩
    · intro h
      exact (ih (hinv h.1) hu).mpr h.2

/-- Where a step out of a good state leads to a good one just when it meets the condition, a run that begins well
stays so just when it is guarded. -/
theorem always_iff_guarded {good : σ → Prop} (hstep : ∀ s l t, good s → step s l = some t → (good t ↔ ok s l))
    {s u : σ} {ls : List ι} (hs : good s) (hu : exec step s ls = some u) :
    Always step good s ls ↔ Guarded step ok s ls :=
  always_iff_guarded_of_inv (fun _ h => h) (fun s l t h ht => ⟨(hstep s l t h ht).mp, (hstep s l t h ht).mpr⟩) hs hu

/-- A sequence of labels that each take the measure down comes to one that cannot happen. -/
theorem ends_of_measure {inv : σ → Prop} {P : ι → Prop} {measure : σ → ℕ}
    (hstep : ∀ s l t, inv s → P l → step s l = some t → inv t ∧ measure t < measure s) {s : σ} (hs : inv s)
    {labels : ℕ → ι} (hlabels : ∀ i, P (labels i)) :
    ∃ n t, exec step s ((List.range n).map labels) = some t ∧ step t (labels n) = none ∧ inv t := by
  induction hn : measure s using Nat.strongRecOn generalizing s labels with
  | ind n ih =>
    cases h : step s (labels 0) with
    | none => exact ⟨0, s, rfl, h, hs⟩
    | some t =>
      obtain ⟨ht, hlt⟩ := hstep s (labels 0) t hs (hlabels 0) h
      obtain ⟨m, u, hu, hend, hinv⟩ := ih (measure t) (hn ▸ hlt) ht (fun i => hlabels (i + 1)) rfl
      refine ⟨m + 1, u, ?_, hend, hinv⟩
      rw [List.range_succ_eq_map, List.map_cons, List.map_map]
      exact exec_of_step h hu

/-- A run of such steps is no longer than its measure allows. -/
theorem length_le_of_measure {inv : σ → Prop} {measure : σ → ℕ}
    (hstep : ∀ s l t, inv s → step s l = some t → inv t ∧ measure t < measure s) {s u : σ} {ls : List ι} (hs : inv s)
    (hu : exec step s ls = some u) : inv u ∧ ls.length + measure u ≤ measure s := by
  induction ls generalizing s with
  | nil =>
    obtain rfl := Option.some.inj hu
    exact ⟨hs, Nat.le_of_eq (Nat.zero_add _)⟩
  | cons l ls ih =>
    obtain ⟨t, ht, hu⟩ := step_of_exec hu
    obtain ⟨hinv, hlt⟩ := hstep s l t hs ht
    obtain ⟨hend, hle⟩ := ih hinv hu
    refine ⟨hend, ?_⟩
    rw [List.length_cons]
    omega

/-- A run each step of which takes `major` of a matching state down, or leaves it and takes `minor` down, is no longer
than both allow. -/
theorem length_le_of_matching {τ : Type*} {R : σ → τ → Prop} (major : τ → ℕ) (minor : σ → ℕ) {most : ℕ}
    (hmost : ∀ s a, R s a → minor s ≤ most)
    (hstep : ∀ s l t a, R s a → step s l = some t →
      ∃ b, R t b ∧ (major b < major a ∨ major b = major a ∧ minor t < minor s)) {s u : σ} {a : τ} {ls : List ι}
    (hs : R s a) (hu : exec step s ls = some u) :
    ∃ b, R u b ∧ ls.length + (major b * (most + 1) + minor u) ≤ major a * (most + 1) + minor s := by
  induction ls generalizing s a with
  | nil =>
    obtain rfl := Option.some.inj hu
    exact ⟨a, hs, Nat.le_of_eq (Nat.zero_add _)⟩
  | cons l ls ih =>
    obtain ⟨t, ht, hu⟩ := step_of_exec hu
    obtain ⟨b, hb, hless⟩ := hstep s l t a hs ht
    obtain ⟨c, hc, hle⟩ := ih hb hu
    refine ⟨c, hc, ?_⟩
    have hone : major b * (most + 1) + minor t + 1 ≤ major a * (most + 1) + minor s := by
      cases hless with
      | inl hmajor =>
        calc
          major b * (most + 1) + minor t + 1 ≤ major b * (most + 1) + (most + 1) := by
            have hminor := hmost t b hb
            omega
          _ = (major b + 1) * (most + 1) := (Nat.succ_mul _ _).symm
          _ ≤ major a * (most + 1) := Nat.mul_le_mul_right _ hmajor
          _ ≤ major a * (most + 1) + minor s := Nat.le_add_right _ _
      | inr hminor =>
        rw [hminor.1]
        omega
    rw [List.length_cons]
    omega

/-- The same system stopped where `P` holds. -/
def stoppedAt (P : σ → Prop) [DecidablePred P] (step : σ → ι → Option σ) (s : σ) (l : ι) : Option σ :=
  if P s then none else step s l

/-- A run comes to a state where `P` holds, or is one of the system that is stopped there. -/
theorem exec_stoppedAt {P : σ → Prop} [DecidablePred P] {s u : σ} {ls : List ι} (hu : exec step s ls = some u) :
    exec (stoppedAt P step) s ls = some u ∨ ∃ n t, exec step s (ls.take n) = some t ∧ P t := by
  induction ls generalizing s with
  | nil => exact .inl hu
  | cons l ls ih =>
    by_cases hP : P s
    · exact .inr ⟨0, s, rfl, hP⟩
    · obtain ⟨t, ht, hu⟩ := step_of_exec hu
      have hstopped : stoppedAt P step s l = some t := (if_neg hP).trans ht
      cases ih hu with
      | inl hrest => exact .inl (exec_of_step hstopped hrest)
      | inr hreaches =>
        obtain ⟨n, v, hv, hPv⟩ := hreaches
        exact .inr ⟨n + 1, v, exec_of_step ht hv, hPv⟩

end Chaos.GuardedRuns
