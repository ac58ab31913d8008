import Chaos.CentreRegistry

/-!
# The pointers in the active list

`m_activeEvs` holds raw pointers from the waiting list, the poller and the timers. In a run where only the
registries own the registered events an object goes when `DeleteEvent` or `Launch` takes it out of its
registry, so its pointers stay good as long as no entry is left at that time: the entries of a poller
event are in step with its queue, but a timer has entries without any.
-/
namespace Chaos.ActiveEvents

open GuardedRuns KeyLists Timer

/-- The registries are the only owners of what is registered. -/
def registryOwned : CentreOp → Prop
  | .register _ keep _ => keep = false
  | _ => True

instance : (op : CentreOp) → Decidable (registryOwned op)
  | .register _ keep _ => inferInstanceAs (Decidable (keep = false))
  | .object _ | .control _ | .cancel _ | .makeWaitting | .pushActive _ _ | .launchIter _ | .take
  | .handleEnd => isTrue trivial

/-- A timer is cancelled in its own handler or without an entry. -/
def cancelOk (s : CentreState) (p : ℕ) : Prop :=
  s.cancels 0 p = true → ∀ e ∈ s.objs.store p, onTimer e.ev = true →
    s.centre.pc = .handling p ∨ ∀ b, s.centre.pending ⟨p, b⟩ = 0

/-- `Launch` activates no timer with a marker in front, and deletes none that has an entry. -/
def launchOk (s : CentreState) : Prop :=
  ∀ r ∈ s.dueRoot, (r.2.isSuspend = false → r.2.getCurEv.meets evCancel = false) ∧
    (r.2.isSuspend = true → r.2.isLoop = false → ∀ b, s.centre.pending ⟨r.1, b⟩ = 0)

def activeOk (s : CentreState) : CentreOp → Prop
  | .cancel p => cancelOk s p
  | .launchIter _ => launchOk s
  | _ => True

instance (s : CentreState) (p : ℕ) : Decidable (cancelOk s p) := by
  unfold cancelOk
  infer_instance

instance (s : CentreState) : Decidable (launchOk s) := by
  unfold launchOk
  infer_instance

instance (s : CentreState) : (op : CentreOp) → Decidable (activeOk s op)
  | .cancel p => inferInstanceAs (Decidable (cancelOk s p))
  | .launchIter _ => inferInstanceAs (Decidable (launchOk s))
  | .object _ | .control _ | .register _ _ _ | .makeWaitting | .pushActive _ _ | .take
  | .handleEnd => isTrue trivial

/-- The pointer that `ProcessActiveEvent` takes next denotes an event. -/
def NextAlive (s : CentreState) : Prop :=
  s.centre.pc = .process → ∀ entry ∈ s.centre.activeEvs.head?, (s.objs.store entry.ev).isSome = true

instance (s : CentreState) : Decidable (NextAlive s) := by
  unfold NextAlive
  infer_instance

/-! ## The invariant -/

/-- The entries of `p`. -/
def entries (c : EventCentre) (p : ℕ) : ℕ := c.pending ⟨p, true⟩ + c.pending ⟨p, false⟩

/-- Every entry of a poller event, and a running handler, has its place in the queue; a marker is last. -/
structure PollerQueue (c : EventCentre) (p : ℕ) (e : Event) : Prop where
  room : entries c p + (if c.pc = .handling p then 1 else 0) ≤ e.curEv.length
  last : ∀ v ∈ e.curEv.dropLast, v.meets evCancel = false
  none : e.centre ≠ none → ∀ v ∈ e.curEv, v.meets evCancel = false

/-- The queue of a timer has at most a marker; one that its own handler is not going to pop has one
entry. -/
structure TimerQueue (c : EventCentre) (p : ℕ) (e : Event) : Prop where
  marker : e.curEv = [] ∨ e.curEv = [evCancel]
  none : e.centre ≠ none → e.curEv = []
  entry : e.curEv = [evCancel] → c.pc ≠ .handling p → entries c p ≤ 1

/-- The user has `p`, and the centre does not know it. -/
structure Unregistered (s : CentreState) (p : ℕ) : Prop where
  registry : ¬ s.centre.registered p
  entries : entries s.centre p = 0
  handling : s.centre.pc ≠ .handling p
  heap : p ∉ s.centre.timer.heap.heap
  queue : ∀ e, s.objs.store p = some e → e.curEv = []

structure EventOk (s : CentreState) (p : ℕ) : Prop where
  owned : s.objs.owned p = if s.centre.registered p then 1 else 0
  alive : s.objs.owned p ≠ 0 → (s.objs.store p).isSome = true
  gone : (s.objs.store p).isSome = true → s.objs.held p = true ∨ s.objs.owned p ≠ 0
  held : p ≠ 0 → s.objs.held p = true → Unregistered s p
  used : entries s.centre p ≠ 0 ∨ s.centre.pc = .handling p → s.centre.registered p
  linked : ∀ e, s.objs.store p = some e → e.centre ≠ none → s.centre.registered p
  heap : p ∈ s.centre.timer.heap.heap → p ≠ 0 ∧ ∀ e, s.objs.store p = some e → onTimer e.ev = true
  poller : ∀ e, s.objs.store p = some e → onTimer e.ev = false → PollerQueue s.centre p e
  timer : ∀ e, s.objs.store p = some e → onTimer e.ev = true → TimerQueue s.centre p e

section Step
variable {s t : CentreState} {p : ℕ}

theorem entries_of_unmoved (h : Unmoved s t p) : entries t.centre p = entries s.centre p := by
  simp only [entries]
  rw [h.pending, h.pending]

theorem PollerQueue.congr {c c' : EventCentre} {e e' : Event} (h : PollerQueue c p e)
    (hentries : entries c' p = entries c p) (hpc : c'.pc = .handling p ↔ c.pc = .handling p)
    (hsame : SameUse e e') : PollerQueue c' p e' := by
  obtain ⟨hroom, hlast, hnone⟩ := h
  refine ⟨?_, ?_, ?_⟩
  · simpa only [hentries, hpc, hsame.curEv] using hroom
  · simpa only [hsame.curEv] using hlast
  · simpa only [hsame.centre, hsame.curEv] using hnone

theorem TimerQueue.congr {c c' : EventCentre} {e e' : Event} (h : TimerQueue c p e)
    (hentries : entries c' p = entries c p) (hpc : c'.pc = .handling p ↔ c.pc = .handling p)
    (hsame : SameUse e e') : TimerQueue c' p e' := by
  obtain ⟨hmarker, hnone, hentry⟩ := h
  refine ⟨?_, ?_, ?_⟩
  · simpa only [hsame.curEv] using hmarker
  · simpa only [hsame.centre, hsame.curEv] using hnone
  · simpa only [hentries, hpc, hsame.curEv, ne_eq] using hentry

theorem EventOk.of_unmoved (h : EventOk s p) (hu : Unmoved s t p)
    (howned : t.objs.owned p = s.objs.owned p)
    (halive : t.objs.owned p ≠ 0 → (t.objs.store p).isSome = true)
    (hgone : (t.objs.store p).isSome = true → t.objs.held p = true ∨ t.objs.owned p ≠ 0)
    (hheld : t.objs.held p = true → s.objs.held p = true) : EventOk t p := by
  have hentries := entries_of_unmoved hu
  refine ⟨?_, halive, hgone, fun hp hh => ?_, ?_, fun e' he' hc => ?_, fun hmem => ?_, ?_, ?_⟩
  · simpa only [howned, hu.registered] using h.owned
  · have hfree := h.held hp (hheld hh)
    refine ⟨?_, hentries.trans hfree.entries, ?_, fun hmem => hfree.heap (hu.heap hmem), ?_⟩
    · rw [hu.registered]
      exact hfree.registry
    · rw [Ne, hu.handling]
      exact hfree.handling
    · intro e' he'
      obtain ⟨e, he, hsame⟩ := hu.kept e' he'
      rw [hsame.curEv]
      exact hfree.queue e he
  · simpa only [hentries, hu.handling, hu.registered] using h.used
  · obtain ⟨e, he, hsame⟩ := hu.kept e' he'
    rw [hu.registered]
    exact h.linked e he (by rwa [← hsame.centre])
  · obtain ⟨hp, hmask⟩ := h.heap (hu.heap hmem)
    refine ⟨hp, fun e' he' => ?_⟩
    obtain ⟨e, he, hsame⟩ := hu.kept e' he'
    rw [hsame.onTimer]
    exact hmask e he
  · intro e' he' hmask
    obtain ⟨e, he, hsame⟩ := hu.kept e' he'
    exact (h.poller e he (hsame.onTimer ▸ hmask)).congr hentries hu.handling hsame
  · intro e' he' hmask
    obtain ⟨e, he, hsame⟩ := hu.kept e' he'
    exact (h.timer e he (hsame.onTimer ▸ hmask)).congr hentries hu.handling hsame

theorem EventOk.unmoved (h : EventOk s p) (hu : Unmoved s t p) (hh : SameHold s.objs t.objs p) :
    EventOk t p := by
  refine h.of_unmoved hu hh.owned ?_ ?_ ?_
  · rw [hh.owned, hh.alive]
    exact h.alive
  · rw [hh.owned, hh.held, hh.alive]
    exact h.gone
  · rw [hh.held]
    exact id

theorem EventOk.drop (h : EventOk s p) : EventOk { s with objs := s.objs.drop p } p := by
  have howned : (s.objs.drop p).owned p = s.objs.owned p := by
    rw [Objects.drop, Objects.release_owned]
  have hheld : (s.objs.drop p).held p = false := by
    rw [Objects.drop, Objects.release_held]
    exact Function.update_self ..
  have hfree : s.objs.owned p = 0 → (s.objs.drop p).store p = none := by
    intro hzero
    simp [Objects.drop, Objects.release, hzero]
  have hkeep : s.objs.owned p ≠ 0 → (s.objs.drop p).store p = s.objs.store p := by
    intro hne
    simp [Objects.drop, Objects.release, hne]
  refine h.of_unmoved (.of_objs (.drop s.objs p p)) howned ?_ ?_ ?_
  · rw [howned]
    intro hne
    rw [hkeep hne]
    exact h.alive hne
  · rw [howned]
    intro hsome
    refine Or.inr fun hzero => ?_
    rw [hfree hzero] at hsome
    cases hsome
  · rw [hheld]
    intro hfalse
    cases hfalse

/-- What the user does not hold is in a registry as long as it is there. -/
theorem EventOk.registered_of_heap {e : Event} (h : EventOk s p) (he : s.objs.store p = some e)
    (hmem : p ∈ s.centre.timer.heap.heap) : s.centre.registered p ∧ s.objs.held p = false := by
  have hp := (h.heap hmem).1
  have hheld : s.objs.held p = false := by
    apply Bool.eq_false_iff.mpr
    intro hh
    exact (h.held hp hh).heap hmem
  refine ⟨?_, hheld⟩
  rcases h.gone (by rw [he]; rfl) with hh | howned
  · rw [hheld] at hh
    cases hh
  · by_contra hnot
    exact howned (by rw [h.owned, if_neg hnot])

theorem EventOk.not_held (h : EventOk s p) (hp : p ≠ 0) (hreg : s.centre.registered p) :
    s.objs.held p = false := by
  apply Bool.eq_false_iff.mpr
  intro hh
  exact (h.held hp hh).registry hreg

/-! ## The event that a step aims at -/

theorem EventOk.create (hinv : RegistryInv s) (h : EventOk s s.objs.fresh) (ev : EvMask)
    (evKey timeoutMs clk : ℕ) (isLoop : Bool) :
    EventOk { s with objs := s.objs.create (newEvent ev evKey timeoutMs clk isLoop) } s.objs.fresh := by
  have hnot : ¬ InUse s s.objs.fresh := fun huse => lt_irrefl _ (hinv.below _ huse)
  have hreg : ¬ s.centre.registered s.objs.fresh := by
    rintro (hmem | hmem)
    · obtain ⟨⟨k, _⟩, hk, rfl⟩ := List.mem_map.mp hmem
      exact hnot (.event hk)
    · obtain ⟨⟨k, _⟩, hk, rfl⟩ := List.mem_map.mp hmem
      exact hnot (.timer hk)
  have hpending (b : Bool) : s.centre.pending ⟨s.objs.fresh, b⟩ = 0 := by
    by_contra hne
    exact hnot (.entry hne)
  have hentries : entries s.centre s.objs.fresh = 0 := by simp [entries, hpending]
  have hpc : s.centre.pc ≠ .handling s.objs.fresh := fun hpc => hnot (.handling hpc)
  have hheap : s.objs.fresh ∉ s.centre.timer.heap.heap := fun hmem => hnot (.heap hmem)
  have hnew {e : Event}
      (he : (s.objs.create (newEvent ev evKey timeoutMs clk isLoop)).store s.objs.fresh = some e) :
      e = newEvent ev evKey timeoutMs clk isLoop := by
    simp only [Objects.create, Function.update_self, Option.some.injEq] at he
    exact he.symm
  refine ⟨h.owned, fun _ => ?_, fun _ => Or.inl (Function.update_self ..), fun _ _ => ?_, ?_, ?_, ?_, ?_, ?_⟩
  · simp [Objects.create]
  · refine ⟨hreg, hentries, hpc, hheap, fun e he => ?_⟩
    rw [hnew he]
    rfl
  · rintro (hne | hh)
    · exact absurd hentries hne
    · exact absurd hh hpc
  · intro e he hc
    rw [hnew he] at hc
    exact absurd rfl hc
  · intro hmem
    exact absurd hmem hheap
  · intro e he _
    rw [hnew he]
    refine ⟨?_, List.forall_mem_nil _, fun _ => List.forall_mem_nil _⟩
    show entries s.centre s.objs.fresh + _ ≤ 0
    rw [hentries, if_neg hpc]
  · intro e he _
    rw [hnew he]
    exact ⟨Or.inl rfl, fun _ => rfl, fun h => by cases h⟩

/-- A registration hands the object over to the registry. -/
theorem EventOk.register {e : Event} {curTimers : ℕ} (h : EventOk s p) (hp : p ≠ 0)
    (hheld : s.objs.held p = true) (he : s.objs.store p = some e)
    (hobjs : t.objs = ({ s.objs.addOwner p with curTimers := curTimers }.setCentre p (some 0)).drop p)
    (hreg : t.centre.registered p) (hentries : entries t.centre p = entries s.centre p)
    (hpc : t.centre.pc = s.centre.pc)
    (hheap : p ∈ t.centre.timer.heap.heap → onTimer e.ev = true) : EventOk t p := by
  have hfree := h.held hp hheld
  have howned : t.objs.owned p = 1 := by
    have hzero := h.owned
    rw [if_neg hfree.registry] at hzero
    simp [hobjs, Objects.drop, Objects.setCentre, Objects.modify, Objects.addOwner, hzero]
  have hdropped : t.objs.held p = false := by
    simp [hobjs, Objects.drop, Objects.setCentre, Objects.modify, Objects.addOwner]
  have hstore : t.objs.store p = some { e with centre := some 0 } := by
    simp [hobjs, Objects.drop, Objects.release, Objects.setCentre, Objects.modify, Objects.addOwner, he]
  have hcur := hfree.queue e he
  have hzero := hentries.trans hfree.entries
  refine ⟨by rw [howned, if_pos hreg], fun _ => by rw [hstore]; rfl, fun _ => Or.inr (by omega), ?_,
    fun _ => hreg, fun _ _ _ => hreg, fun hmem => ⟨hp, fun e' he' => ?_⟩, fun e' he' _ => ?_,
    fun e' he' _ => ?_⟩
  · intro _ hh
    rw [hdropped] at hh
    cases hh
  · rw [hstore] at he'
    obtain rfl := Option.some.inj he'
    exact hheap hmem
  · rw [hstore] at he'
    obtain rfl := Option.some.inj he'
    refine ⟨?_, ?_, fun _ => ?_⟩
    · rw [hzero, hpc, if_neg hfree.handling]
      exact Nat.zero_le _
    · simp [hcur]
    · simp [hcur]
  · rw [hstore] at he'
    obtain rfl := Option.some.inj he'
    refine ⟨Or.inl hcur, fun _ => hcur, fun _ _ => ?_⟩
    omega

/-- The step leaves the event in its registry and changes its queue or its entries. -/
theorem EventOk.of_registered (h : EventOk s p) (hreg : s.centre.registered p)
    (hreg' : t.centre.registered p) (hhold : SameHold s.objs t.objs p)
    (hmask : Kept SameMask s.objs t.objs p)
    (hheap : p ∈ t.centre.timer.heap.heap → p ∈ s.centre.timer.heap.heap)
    (hpoller : ∀ e, t.objs.store p = some e → onTimer e.ev = false → PollerQueue t.centre p e)
    (htimer : ∀ e, t.objs.store p = some e → onTimer e.ev = true → TimerQueue t.centre p e) :
    EventOk t p := by
  refine ⟨?_, ?_, ?_, fun hp hh => ?_, fun _ => hreg', fun _ _ _ => hreg', fun hmem => ?_, hpoller,
    htimer⟩
  · rw [hhold.owned, h.owned, if_pos hreg, if_pos hreg']
  · rw [hhold.owned, hhold.alive]
    exact h.alive
  · rw [hhold.owned, hhold.held, hhold.alive]
    exact h.gone
  · rw [hhold.held, h.not_held hp hreg] at hh
    cases hh
  · obtain ⟨hp, hon⟩ := h.heap (hheap hmem)
    refine ⟨hp, fun e' he' => ?_⟩
    obtain ⟨e, he, hsame⟩ := hmask e' he'
    rw [hsame.onTimer]
    exact hon e he

/-- The registry lets go of an event that has no entry left. -/
theorem EventOk.erased {curTimers : ℕ} (h : EventOk s p) (hreg : s.centre.registered p)
    (hobjs : t.objs = { s.objs.dropOwner p with curTimers := curTimers }.release p)
    (hreg' : ¬ t.centre.registered p) (hentries : entries t.centre p = 0)
    (hpc : t.centre.pc ≠ .handling p)
    (hheap : p ∈ t.centre.timer.heap.heap → p ∈ s.centre.timer.heap.heap)
    (hcentre : p = 0 → ∀ e, s.objs.store p = some e → e.centre = none) : EventOk t p := by
  have howned : t.objs.owned p = 0 := by
    have hone := h.owned
    rw [if_pos hreg] at hone
    simp [hobjs, Objects.dropOwner, hone]
  have hheld : t.objs.held p = s.objs.held p := by
    rw [hobjs, Objects.release_held]
    rfl
  have hstore : t.objs.store p = none ∨ s.objs.held p = true ∧ t.objs.store p = s.objs.store p := by
    cases hh : s.objs.held p with
    | false =>
      have hfree : { s.objs.dropOwner p with curTimers := curTimers }.held p = false ∧
          { s.objs.dropOwner p with curTimers := curTimers }.owned p = 0 := by
        have hzero := howned
        rw [hobjs, Objects.release_owned] at hzero
        exact ⟨hh, hzero⟩
      left
      rw [hobjs, Objects.release, if_pos hfree]
      exact Function.update_self ..
    | true =>
      refine Or.inr ⟨rfl, ?_⟩
      rw [hobjs, Objects.release, if_neg]
      · rfl
      · rintro ⟨hfalse, _⟩
        exact absurd (hh.symm.trans hfalse) Bool.noConfusion
  have hobj {e : Event} (he : t.objs.store p = some e) : p = 0 ∧ s.objs.store p = some e := by
    rcases hstore with hnone | ⟨hh, hsame⟩
    · rw [hnone] at he
      cases he
    · refine ⟨?_, hsame ▸ he⟩
      by_contra hp
      exact (h.held hp hh).registry hreg
  refine ⟨by rw [howned, if_neg hreg'], fun hne => absurd howned hne, fun hsome => ?_, fun hp hh => ?_, ?_,
    fun e he hc => ?_, fun hmem => ?_, fun e he hmask => ?_, fun e he hmask => ?_⟩
  · rcases hstore with hnone | ⟨hh, _⟩
    · rw [hnone] at hsome
      cases hsome
    · exact Or.inl (hheld.trans hh)
  · rw [hheld, h.not_held hp hreg] at hh
    cases hh
  · rintro (hne | hh)
    · exact absurd hentries hne
    · exact absurd hh hpc
  · obtain ⟨hp, he⟩ := hobj he
    exact absurd (hcentre hp e he) hc
  · obtain ⟨hp, hon⟩ := h.heap (hheap hmem)
    exact ⟨hp, fun e he => hon e (hobj he).2⟩
  · obtain ⟨_, he⟩ := hobj he
    obtain ⟨_, hlast, hnone⟩ := h.poller e he hmask
    refine ⟨?_, hlast, hnone⟩
    rw [hentries, if_neg hpc]
    exact Nat.zero_le _
  · obtain ⟨_, he⟩ := hobj he
    obtain ⟨hmarker, hnone, _⟩ := h.timer e he hmask
    refine ⟨hmarker, hnone, fun _ _ => ?_⟩
    omega

/-! ## Entries that come and go -/

theorem entries_afterCancel : entries (s.afterCancel p).centre p = entries s.centre p + 1 := by
  simp only [entries]
  rw [afterCancel_pending, afterCancel_pending]
  simp
  omega

theorem entries_afterPush (ev : EvMask) :
    entries (s.afterPush p ev).centre p = entries s.centre p + 1 := by
  simp only [entries]
  rw [afterPush_pending, afterPush_pending]
  simp
  omega

theorem entries_rest {entry : Entry} {rest : List Entry} (hact : s.centre.activeEvs = entry :: rest) :
    entries s.centre entry.ev = entries (s.withActive rest).centre entry.ev + 1 := by
  simp only [entries]
  rw [pending_rest hact ⟨entry.ev, true⟩, pending_rest hact ⟨entry.ev, false⟩]
  rcases entry with ⟨q, _ | _⟩ <;> simp <;> omega

theorem EventOk.cancel {e : Event} (h : EventOk s p) (he : s.objs.store p = some e)
    (hc : e.centre = some 0) (hok : cancelOk s p) : EventOk (s.afterCancel p) p := by
  have hcentre : e.centre ≠ none := by simp [hc]
  have hreg := h.linked e he hcentre
  have hentries := entries_afterCancel (s := s) (p := p)
  have hobj {e' : Event} (he' : (s.afterCancel p).objs.store p = some e') :
      e' = { e with curEv := e.curEv ++ [evCancel], centre := none } := by
    rw [CentreState.afterCancel, Objects.setCentre, Objects.modify_self, Objects.modify_self, he] at he'
    exact (Option.some.inj he').symm
  refine h.of_registered hreg hreg ((SameHold.modify _).trans (.modify _))
    (.comp .trans (.pushCurEv s.objs p p evCancel) (.setCentre _ p p none)) id ?_ ?_
  · intro e' he' hmask
    rw [hobj he'] at hmask ⊢
    obtain ⟨hroom, _, hnone⟩ := h.poller e he hmask
    refine ⟨?_, ?_, fun hnot => absurd rfl hnot⟩
    · rw [hentries, List.length_append, List.length_singleton]
      have hpc : (s.afterCancel p).centre.pc = s.centre.pc := rfl
      rw [hpc]
      omega
    · rw [List.dropLast_concat]
      exact hnone hcentre
  · intro e' he' hmask
    rw [hobj he'] at hmask ⊢
    have hempty := (h.timer e he hmask).none hcentre
    refine ⟨Or.inr (by simp [hempty]), fun hnot => absurd rfl hnot, fun _ hpc => ?_⟩
    rcases hok (CentreState.cancels_eq he hc) e he hmask with hh | hzero
    · exact absurd hh hpc
    · rw [hentries, entries, hzero, hzero]

theorem EventOk.pushActive {e : Event} {ev : EvMask} (h : EventOk s p)
    (he : s.objs.store p = some e) (hc : e.centre = some 0) (hon : onTimer e.ev = false)
    (hio : ev &&& ~~~ioCareEvent = 0#16) : EventOk (s.afterPush p ev) p := by
  have hcentre : e.centre ≠ none := by simp [hc]
  have hreg := h.linked e he hcentre
  have hentries := entries_afterPush (s := s) (p := p) ev
  have hobj {e' : Event} (he' : (s.afterPush p ev).objs.store p = some e') :
      e' = { e with curEv := e.curEv ++ [ev] } := by
    rw [CentreState.afterPush, Objects.modify_self, he] at he'
    exact (Option.some.inj he').symm
  refine h.of_registered hreg hreg (.modify _) (.pushCurEv s.objs p p ev) id ?_ ?_
  · intro e' he' _
    rw [hobj he']
    obtain ⟨hroom, _, hnone⟩ := h.poller e he hon
    refine ⟨?_, ?_, fun _ v hv => ?_⟩
    · rw [hentries, List.length_append, List.length_singleton]
      have hpc : (s.afterPush p ev).centre.pc = s.centre.pc := rfl
      rw [hpc]
      omega
    · rw [List.dropLast_concat]
      exact hnone hcentre
    · rcases List.mem_append.mp hv with hv | hv
      · exact hnone hcentre v hv
      · rw [List.mem_singleton.mp hv]
        exact meets_of_io hio
  · intro e' he' hmask
    rw [hobj he', hon] at hmask
    cases hmask

theorem EventOk.activate {now clk : ℕ} {l : LaunchState} {e : Event} (h : EventOk s p)
    (he : s.objs.store p = some e) (hmem : p ∈ s.centre.timer.heap.heap)
    (hfront : e.getCurEv.meets evCancel = false)
    (hl : LaunchPass now clk ⟨s.objs, s.centre.timer, []⟩ l)
    (hmap : l.timer.timerMap = s.centre.timer.timerMap) (hhold : SameHold s.objs l.objs p) :
    EventOk (s.afterPass l) p := by
  obtain ⟨hreg, _⟩ := h.registered_of_heap he hmem
  have hon := (h.heap hmem).2 e he
  have hreg' : (s.afterPass l).centre.registered p := by
    rcases hreg with hreg | hreg
    · exact Or.inl hreg
    · exact Or.inr (by simpa [CentreState.afterPass, hmap] using hreg)
  have hobj {e' : Event} (he' : l.objs.store p = some e') : SameUse e e' := by
    obtain ⟨e₂, he₂, hsame⟩ := launchPass_kept hl p e' he'
    obtain rfl := Option.some.inj (he.symm.trans he₂)
    exact hsame
  refine h.of_registered hreg hreg' hhold (launchPass_kept hl p).sameMask (launchPass_mem hl) ?_ ?_
  · intro e' he' hmask
    rw [(hobj he').onTimer, hon] at hmask
    cases hmask
  · intro e' he' _
    have hempty : e.curEv = [] := by
      rcases (h.timer e he hon).marker with hempty | hmarker
      · exact hempty
      · rw [Event.getCurEv, hmarker] at hfront
        exact absurd hfront (by decide)
    have hempty' : e'.curEv = [] := (hobj he').curEv.trans hempty
    exact ⟨Or.inl hempty', fun _ => hempty', fun hmarker => by simp [hempty'] at hmarker⟩

/-! ## The round -/

section Round
variable {entry : Entry} {rest : List Entry} {e : Event}

theorem EventOk.registered_of_head (h : EventOk s entry.ev) (hact : s.centre.activeEvs = entry :: rest) :
    s.centre.registered entry.ev := by
  refine h.used (Or.inl ?_)
  rw [entries_rest hact]
  exact Nat.succ_ne_zero _

/-- An entry goes, and at most the handler of its event starts. -/
theorem EventOk.taken {pc : LoopPc} (h : EventOk s entry.ev) (hpc : s.centre.pc = .process)
    (hact : s.centre.activeEvs = entry :: rest) :
    EventOk { s with centre := { s.centre with activeEvs := rest, pc := pc } } entry.ev := by
  have hreg := h.registered_of_head hact
  have hentries := entries_rest hact
  have hrest : entries { s.centre with activeEvs := rest, pc := pc } entry.ev =
      entries (s.withActive rest).centre entry.ev := rfl
  have hnot : s.centre.pc ≠ .handling entry.ev := by simp [hpc]
  refine h.of_registered hreg hreg (.refl _ _) (Kept.refl _ _).sameMask id ?_ ?_
  · intro e he hmask
    obtain ⟨hroom, hlast, hnone⟩ := h.poller e he hmask
    refine ⟨?_, hlast, hnone⟩
    rw [if_neg hnot] at hroom
    rw [hrest]
    split_ifs <;> omega
  · intro e he hmask
    obtain ⟨hmarker, hnone, hentry⟩ := h.timer e he hmask
    refine ⟨hmarker, hnone, fun hcur hpc'' => ?_⟩
    have hone := hentry hcur hnot
    rw [hrest]
    omega

/-- The front of the queue goes with what it stands for. -/
theorem EventOk.popCurEv (h : EventOk s p) (hreg : s.centre.registered p)
    (hreg' : t.centre.registered p) (hobjs : t.objs = s.objs.modify p Event.popCurEv)
    (hheap : p ∈ t.centre.timer.heap.heap → p ∈ s.centre.timer.heap.heap)
    (hroom : entries t.centre p + (if t.centre.pc = .handling p then 1 else 0) + 1 =
      entries s.centre p + if s.centre.pc = .handling p then 1 else 0) : EventOk t p := by
  have hobj {e' : Event} (he' : t.objs.store p = some e') :
      ∃ e, s.objs.store p = some e ∧ e' = e.popCurEv := by
    rw [hobjs, Objects.modify_self, Option.map_eq_some_iff] at he'
    obtain ⟨e, he, rfl⟩ := he'
    exact ⟨e, he, rfl⟩
  have htail (e : Event) (v : EvMask) (hv : v ∈ e.popCurEv.curEv) : v ∈ e.curEv :=
    List.mem_of_mem_tail hv
  refine h.of_registered hreg hreg' (hobjs ▸ .modify _) (hobjs ▸ .popCurEv s.objs p p) hheap ?_ ?_
  · intro e' he' hmask
    obtain ⟨e, he, rfl⟩ := hobj he'
    obtain ⟨hle, hlast, hnone⟩ := h.poller e he hmask
    refine ⟨?_, fun v hv => hlast v ?_, fun hc v hv => hnone hc v (htail e v hv)⟩
    · have hlen : e.popCurEv.curEv.length = e.curEv.length - 1 := List.length_tail
      omega
    · have hdrop : e.popCurEv.curEv.dropLast = e.curEv.dropLast.tail := List.tail_dropLast.symm
      rw [hdrop] at hv
      exact List.mem_of_mem_tail hv
  · intro e' he' hmask
    obtain ⟨e, he, rfl⟩ := hobj he'
    have hempty : e.popCurEv.curEv = [] := by
      rcases (h.timer e he hmask).marker with hcur | hcur <;> simp [Event.popCurEv, hcur]
    exact ⟨Or.inl hempty, fun _ => hempty, fun hmarker => by simp [hempty] at hmarker⟩

/-- At an entry with a marker in front there is no other entry. -/
theorem EventOk.last_entry (h : EventOk s entry.ev) (hpc : s.centre.pc = .process)
    (hact : s.centre.activeEvs = entry :: rest) (he : s.objs.store entry.ev = some e)
    (hfront : e.getCurEv.meets evCancel = true) :
    entries (s.withActive rest).centre entry.ev = 0 ∧ e.centre = none := by
  have hentries := entries_rest hact
  have hnot : s.centre.pc ≠ .handling entry.ev := by simp [hpc]
  cases hcur : e.curEv with
  | nil =>
    rw [Event.getCurEv, hcur] at hfront
    exact absurd hfront (by decide)
  | cons v vs =>
    have hv : v.meets evCancel = true := by
      rw [Event.getCurEv, hcur] at hfront
      exact hfront
    cases hmask : onTimer e.ev with
    | false =>
      obtain ⟨hroom, hlast, hnone⟩ := h.poller e he hmask
      rw [hcur] at hroom hlast hnone
      have hvs : vs = [] := by
        by_contra hne
        have hmem : v ∈ (v :: vs).dropLast := by simp [List.dropLast_cons_of_ne_nil hne]
        rw [hlast v hmem] at hv
        cases hv
      rw [hvs, if_neg hnot] at hroom
      refine ⟨by simp only [List.length_singleton] at hroom; omega, ?_⟩
      by_contra hc
      rw [hnone hc v List.mem_cons_self] at hv
      cases hv
    | true =>
      obtain ⟨hmarker, hnone, hentry⟩ := h.timer e he hmask
      rcases hmarker with hempty | hone
      · rw [hempty] at hcur
        cases hcur
      · have hle := hentry hone hnot
        refine ⟨by omega, ?_⟩
        by_contra hc
        rw [hnone hc] at hone
        cases hone

/-- The lookup of a deletion finds the event itself. -/
theorem underKey_of_registered (hinv : RegistryInv s) (he : s.objs.store p = some e)
    (hreg : s.centre.registered p)
    (hmask : e.ev.meets ioCareEvent = true ∨ e.ev.meets timeoutCartEvent = true) :
    s.underKey e = some p := by
  have hon : onTimer e.ev = !e.ev.meets ioCareEvent := by
    rw [onTimer]
    rcases hmask with hmask | hmask <;> simp [hmask]
  rw [CentreState.underKey]
  rcases hreg with hmem | hmem
  · obtain ⟨⟨k, _⟩, hk, rfl⟩ := List.mem_map.mp hmem
    obtain ⟨hkey, hoff⟩ := hinv.eventKey k _ hk e he
    rw [if_pos (by simpa [hon] using hoff), hkey]
    exact lookup_of_mem hinv.events hk
  · obtain ⟨⟨k, _⟩, hk, rfl⟩ := List.mem_map.mp hmem
    obtain ⟨hkey, htimer⟩ := hinv.timerKey k _ hk e he
    rw [if_neg (by simpa [hon] using htimer), hkey]
    exact lookup_of_mem hinv.timers hk

theorem EventOk.delete (hinv : RegistryInv s) (h : EventOk s entry.ev) (hpc : s.centre.pc = .process)
    (hact : s.centre.activeEvs = entry :: rest) (he : s.objs.store entry.ev = some e)
    (hfront : e.getCurEv.meets evCancel = true) :
    EventOk ((s.withActive rest).deleteEvent e) entry.ev := by
  have hrest : EventOk (s.withActive rest) entry.ev := h.taken hpc hact
  have hreg := h.registered_of_head hact
  obtain ⟨hentries, hcentre⟩ := h.last_entry hpc hact he hfront
  by_cases hmask : e.ev.meets ioCareEvent = true ∨ e.ev.meets timeoutCartEvent = true
  · have hunder := underKey_of_registered hinv he hreg hmask
    obtain ⟨curTimers, hobjs⟩ := deleteEvent_objs (s := s.withActive rest) hunder hmask
    refine hrest.erased hreg hobjs ?_ ?_ ?_ ?_ ?_
    · exact not_registered_deleteEvent (fun k hmem => hinv.eventKey k _ hmem e he)
        (fun k hmem => hinv.timerKey k _ hmem e he) hmask
    · simpa [entries] using hentries
    · simp [CentreState.withActive, hpc]
    · rw [CentreState.deleteEvent_heap]
      exact id
    · intro _ e' he'
      obtain rfl := Option.some.inj (he.symm.trans he')
      exact hcentre
  · obtain ⟨hio, htimeout⟩ := not_or.mp hmask
    rw [CentreState.deleteEvent, if_neg hio, if_neg htimeout]
    exact hrest

theorem EventOk.launchDelete (hinv : RegistryInv s) (h : EventOk s p) (he : s.objs.store p = some e)
    (hmem : p ∈ s.centre.timer.heap.heap) (hpc : s.centre.pc ≠ .handling p)
    (hnone : ∀ b, s.centre.pending ⟨p, b⟩ = 0)
    (hheap : p ∈ (launchDelTimer ⟨s.objs, s.centre.timer, []⟩ p e).timer.heap.heap →
      p ∈ s.centre.timer.heap.heap) :
    s.centre.timer.timerMap.lookup e.evKey = some p ∧
      EventOk (s.afterPass (launchDelTimer ⟨s.objs, s.centre.timer, []⟩ p e)) p := by
  obtain ⟨hreg, _⟩ := h.registered_of_heap he hmem
  obtain ⟨hp, hon⟩ := h.heap hmem
  have hmask : e.ev.meets ioCareEvent = false ∧ e.ev.meets timeoutCartEvent = true := by
    simpa [onTimer] using hon e he
  have hunder := underKey_of_registered hinv he hreg (Or.inr hmask.2)
  rw [CentreState.underKey, if_neg (by simp [hmask.1])] at hunder
  obtain ⟨curTimers, hobjs⟩ := launchDelTimer_objs (l := ⟨s.objs, s.centre.timer, []⟩) hunder
  refine ⟨hunder, h.erased hreg hobjs ?_ ?_ hpc hheap fun hzero => absurd hzero hp⟩
  · rintro (hmem | hmem)
    · obtain ⟨⟨k, _⟩, hk, rfl⟩ := List.mem_map.mp hmem
      have hoff := (hinv.eventKey k _ hk e he).2
      rw [hon e he] at hoff
      cases hoff
    · obtain ⟨⟨k, _⟩, hk, rfl⟩ := List.mem_map.mp hmem
      obtain ⟨hold, hne⟩ := mem_eraseKey.mp hk
      exact hne (hinv.timerKey k _ hold e he).1.symm
  · simp [entries, afterPass_pending, launchDelTimer, hnone]

end Round

end Step

/-! ## Runs -/

structure ActiveInv (s : CentreState) : Prop where
  registry : RegistryInv s
  event : ∀ p, EventOk s p

section Aimed
variable {s t : CentreState} {q : ℕ}

theorem ActiveInv.launch {now clk : ℕ} {l : LaunchState} (h : ActiveInv s) (hok : launchOk s)
    (hpc : s.centre.pc = .launch now) (hl : LaunchPass now clk ⟨s.objs, s.centre.timer, []⟩ l)
    (hq : Aims s q (.launchIter clk)) : EventOk (s.afterPass l) q := by
  obtain ⟨r, hr, hnot, hor⟩ := hq
  have hroot {p : ℕ} {e : Event} (hfront : s.centre.timer.heap.front = some p)
      (he : s.objs.store p = some e) (hdue : e.nextTime ≤ now) :
      r = (p, e) ∧ p ∈ s.centre.timer.heap.heap := by
    obtain ⟨xs, hxs⟩ := front_eq hfront
    have hdueRoot := CentreState.dueRoot_eq hpc hfront he hdue
    exact ⟨Option.some.inj (hr.symm.trans hdueRoot), hxs ▸ List.mem_cons_self⟩
  have hactive (hsuspend : r.2.isSuspend = false) : q = r.1 := by
    rcases hor with hroot | ⟨htrue, _⟩
    · exact hroot
    · rw [hsuspend] at htrue
      cases htrue
  have hlaunch := hl
  cases hl with
  | expired hfront he =>
    obtain ⟨_, hpc', hfront', he', _⟩ := CentreState.mem_dueRoot hr
    obtain rfl := Option.some.inj (hfront.symm.trans hfront')
    rw [show s.objs.store r.1 = none from he] at he'
    cases he'
  | @rearm p e hfront he hdue hloop =>
    obtain ⟨rfl, hmem⟩ := hroot hfront he hdue
    have hsuspend : e.isSuspend = false := by
      apply Bool.eq_false_iff.mpr
      intro htrue
      rw [hnot htrue] at hloop
      cases hloop
    obtain rfl := hactive hsuspend
    exact (h.event q).activate he hmem ((hok _ hr).1 hsuspend) hlaunch rfl (.modify _)
  | @delete p e hfront he hdue hloop hsuspend =>
    obtain ⟨rfl, hmem⟩ := hroot hfront he hdue
    obtain ⟨hlookup, hdelete⟩ := (h.event p).launchDelete h.registry he hmem (by simp [hpc])
      ((hok _ hr).2 hsuspend hloop) (launchPass_mem hlaunch)
    have heq : q = p := by
      rcases hor with hroot | ⟨_, hother⟩
      · exact hroot
      · exact Option.some.inj (hother.symm.trans hlookup)
    subst heq
    exact hdelete
  | @once p e hfront he hdue hloop hsuspend =>
    obtain ⟨rfl, hmem⟩ := hroot hfront he hdue
    obtain rfl := hactive hsuspend
    exact (h.event q).activate he hmem ((hok _ hr).1 hsuspend) hlaunch rfl (.refl _ q)

theorem ActiveInv.delete {entry : Entry} {rest : List Entry} {e : Event} (h : ActiveInv s)
    (hpc : s.centre.pc = .process) (hact : s.centre.activeEvs = entry :: rest)
    (he : s.objs.store entry.ev = some e) (hfront : e.getCurEv.meets evCancel = true) :
    EventOk ((s.withActive rest).deleteEvent e) q := by
  by_cases hq : q = entry.ev
  · subst hq
    exact (h.event entry.ev).delete h.registry hpc hact he hfront
  · have hrest : EventOk (s.withActive rest) q :=
      (h.event q).unmoved (unmoved_withActive hact hq) (.refl _ q)
    by_cases hmask : e.ev.meets ioCareEvent = true ∨ e.ev.meets timeoutCartEvent = true
    · have hreg := (h.event entry.ev).registered_of_head hact
      have hunder := underKey_of_registered h.registry he hreg hmask
      have hother : (s.withActive rest).underKey e ≠ some q := by
        intro hlookup
        exact hq (Option.some.inj (hlookup.symm.trans hunder))
      exact hrest.unmoved (unmoved_deleteEvent h.registry.events h.registry.timers hother)
        (deleteEvent_hold hother)
    · obtain ⟨hio, htimeout⟩ := not_or.mp hmask
      rw [CentreState.deleteEvent, if_neg hio, if_neg htimeout]
      exact hrest

theorem ActiveInv.registerIo {e : Event} (h : ActiveInv s) (hp : 1 ≤ q)
    (hheld : s.objs.held q = true) (he : s.objs.store q = some e) :
    EventOk ((s.registeredIo 0 q e).afterRegister q false) q := by
  refine (h.event q).register (by omega) hheld he rfl (Or.inl List.mem_cons_self) rfl rfl ?_
  intro hmem
  exact ((h.event q).heap hmem).2 e he

theorem ActiveInv.registerTimer {e : Event} (h : ActiveInv s) (hp : 1 ≤ q)
    (hheld : s.objs.held q = true) (he : s.objs.store q = some e) (htimer : onTimer e.ev = true) :
    EventOk ((s.registeredTimer 0 q e).afterRegister q false) q :=
  (h.event q).register (by omega) hheld he rfl (Or.inr List.mem_cons_self) rfl rfl fun _ => htimer

/-- The event that a step aims at, or that the user drops. -/
theorem ActiveInv.aimed {op : CentreOp} (h : ActiveInv s) (hown : registryOwned op)
    (hok : activeOk s op) (ht : CentrePass 1 0 s op t) (hq : Aims s q op ∨ op = .object (.drop q)) :
    EventOk t q := by
  cases ht with
  | object hobj =>
    cases hobj with
    | create =>
      obtain rfl : q = s.objs.fresh := hq.resolve_right fun hop => by cases hop
      exact (h.event _).create h.registry _ _ _ _ _
    | drop hp =>
      obtain ⟨rfl⟩ := hq.resolve_left id
      exact (h.event q).drop
    | modify hp hsame => exact (h.event q).unmoved (.of_objs (.modify hsame q)) (.modify _)
  | control hc => exact (hq.elim id fun hop => by cases hop).elim
  | refused hp =>
    obtain rfl : q = _ := hq.resolve_right fun hop => by cases hop
    obtain rfl := hown
    exact (h.event q).drop
  | registerIo hp hheld he hc hio hkey =>
    obtain rfl : q = _ := hq.resolve_right fun hop => by cases hop
    obtain rfl := hown
    exact h.registerIo hp hheld he
  | registerTimer hp hheld he hc htimer hkey =>
    obtain rfl : q = _ := hq.resolve_right fun hop => by cases hop
    obtain rfl := hown
    exact h.registerTimer hp hheld he htimer
  | ignored hnot => exact h.event q
  | unmarked he hm =>
    rw [h.registry.mask _ _ he] at hm
    cases hm
  | cancel hp hpc he hc =>
    obtain rfl : q = _ := hq.resolve_right fun hop => by cases hop
    exact (h.event q).cancel he hc hok
  | makeWaitting hpc => exact (hq.elim id fun hop => by cases hop).elim
  | notActive => exact h.event q
  | @pushActive fd p ev e hpc hio hfd he hc =>
    have hlookup : s.centre.events.lookup fd = some q := hq.resolve_right fun hop => by cases hop
    obtain rfl := Option.some.inj (hfd.symm.trans hlookup)
    have hon := (h.registry.eventKey fd p (mem_of_lookup hfd) e he).2
    exact (h.event p).pushActive he hc hon hio
  | launch hpc hl => exact h.launch hok hpc hl (hq.resolve_right fun hop => by cases hop)
  | delete hpc hact he hfront => exact h.delete hpc hact he hfront
  | skip hpc hact he hfront hc =>
    obtain rfl := aims_take_of_front hact he hfront (hq.resolve_right fun hop => by cases hop)
    exact (h.event _).taken hpc hact
  | @wakeUp entry rest e hpc hact he hfront hself =>
    obtain rfl := aims_take_of_front hact he hfront (hq.resolve_right fun hop => by cases hop)
    have hreg := (h.event entry.ev).registered_of_head hact
    refine (h.event entry.ev).popCurEv hreg hreg rfl id ?_
    have hentries := entries_rest hact
    simp only [hpc, reduceCtorEq, if_false, Nat.add_zero]
    exact hentries.symm
  | handle hpc hact he hfront hc hself =>
    obtain rfl := aims_take_of_front hact he hfront (hq.resolve_right fun hop => by cases hop)
    exact (h.event _).taken hpc hact
  | handleEnd hpc he =>
    have hpc' : s.centre.pc = .handling q := hq.resolve_right fun hop => by cases hop
    obtain rfl := LoopPc.handling.inj (hpc.symm.trans hpc')
    have hreg := (h.event _).used (Or.inr hpc)
    refine (h.event _).popCurEv hreg hreg rfl id ?_
    simp only [hpc, reduceCtorEq, if_false, if_true, Nat.add_zero]
    rfl

end Aimed

/-- The step lemma. -/
theorem activeInv_step {s t : CentreState} {op : CentreOp} (h : ActiveInv s)
    (hok : registryOwned op ∧ activeOk s op) (ht : centreStep 1 0 s op = some t) : ActiveInv t := by
  have hpass := centrePass_of_centreStep ht
  refine ⟨registryInv_step h.registry hpass, fun q => ?_⟩
  by_cases haim : Aims s q op ∨ op = .object (.drop q)
  · exact h.aimed hok.1 hok.2 hpass haim
  · obtain ⟨hnot, hdrop⟩ := not_or.mp haim
    exact (h.event q).unmoved (unmoved_step h.registry.events h.registry.timers hpass hnot)
      (sameHold_step hpass hnot hdrop)

theorem eventOk_wakeUp (fd : ℕ) : EventOk (.start fd) 0 := by
  have hreg : (CentreState.start fd).centre.registered 0 := Or.inl List.mem_cons_self
  refine ⟨rfl, fun _ => rfl, fun _ => Or.inr Nat.one_ne_zero, fun hne => absurd rfl hne, fun _ => hreg,
    fun _ _ _ => hreg, ?_, ?_, ?_⟩
  · intro hmem
    cases hmem
  · intro e he _
    obtain ⟨_, rfl⟩ := store_start he
    exact ⟨Nat.zero_le _, List.forall_mem_nil _, fun _ => List.forall_mem_nil _⟩
  · intro e he hmask
    obtain ⟨_, rfl⟩ := store_start he
    exact absurd hmask (show ¬ onTimer (evIoread ||| baseCareEvent) = true by decide)

/-- No other event is there at the start. -/
theorem eventOk_start {fd p : ℕ} (hp : p ≠ 0) : EventOk (.start fd) p := by
  have hnone (e : Event) : (CentreState.start fd).objs.store p ≠ some e := fun he => hp (store_start he).1
  have howned : (CentreState.start fd).objs.owned p = 0 :=
    if_neg fun hlt => hp (Nat.lt_one_iff.mp hlt)
  have hreg : ¬ (CentreState.start fd).centre.registered p := by
    rintro (hmem | hmem)
    · exact hp (List.mem_singleton.mp hmem)
    · cases hmem
  have hempty : entries (CentreState.start fd).centre p = 0 := rfl
  refine ⟨?_, fun hne => absurd howned hne, ?_, ?_, ?_, fun e he => absurd he (hnone e), ?_,
    fun e he => absurd he (hnone e), fun e he => absurd he (hnone e)⟩
  · rw [howned, if_neg hreg]
  · intro hsome
    obtain ⟨e, he⟩ := Option.isSome_iff_exists.mp hsome
    exact absurd he (hnone e)
  · intro _ hheld
    exact absurd (Nat.lt_one_iff.mp (of_decide_eq_true hheld)) hp
  · rintro (hne | hpc)
    · exact absurd hempty hne
    · cases hpc
  · intro hmem
    cases hmem

theorem activeInv_start (fd : ℕ) : ActiveInv (.start fd) := by
  refine ⟨registryInv_start fd, fun p => ?_⟩
  by_cases hp : p = 0
  · exact hp ▸ eventOk_wakeUp fd
  · exact eventOk_start hp

theorem ActiveInv.head_alive {s : CentreState} (h : ActiveInv s) : NextAlive s := by
  intro _ entry hentry
  obtain ⟨rest, hact⟩ := List.head?_eq_some_iff.mp hentry
  have hevent := h.event entry.ev
  have howned : s.objs.owned entry.ev = 1 := by
    rw [hevent.owned, if_pos (hevent.registered_of_head hact)]
  exact hevent.alive (by simp [howned])

/-- In a run that meets `activeOk` at every step, and in which only the registries own the registered
events, `ProcessActiveEvent` takes no pointer of a released event. -/
theorem next_alive {fd : ℕ} {ops : List CentreOp} {s : CentreState} (hown : ∀ op ∈ ops, registryOwned op)
    (hg : Guarded (centreStep 1 0) activeOk (.start fd) ops)
    (hs : exec (centreStep 1 0) (.start fd) ops = some s) : NextAlive s := by
  have hboth := guarded_and hown hg
  have hinv : ActiveInv s :=
    invariant_of_guarded (fun _ _ _ h hok => activeInv_step h hok) (activeInv_start fd) hboth hs
  exact hinv.head_alive

/-- A poller event and a timer cancel themselves; the first entry of the next round deletes the poller
event. -/
def activeSample : List CentreOp :=
  [.object (.create evIoread 20 0 0 false), .register 1 false true,
    .object (.create evTimeout 1 5 0 true), .register 2 false true,
    .control .start, .makeWaitting, .control (.calcTimeout 0), .control .pollReturn,
    .pushActive 20 evIoread, .control (.launchBegin 10), .launchIter 10, .control .launchEnd,
    .control .processBegin, .take, .cancel 1, .handleEnd, .take, .cancel 2, .handleEnd,
    .control .processEnd, .makeWaitting, .control (.calcTimeout 11), .control .pollReturn,
    .control (.launchBegin 11), .control .launchEnd, .control .processBegin, .take]

def activeSampleEnd : CentreState := (exec (centreStep 1 0) (.start 3) activeSample).get (by decide +kernel)

theorem next_alive_sample : NextAlive activeSampleEnd ∧ activeSampleEnd.centre.activeEvs = [⟨2, true⟩] := by
  have hown : ∀ op ∈ activeSample, registryOwned op := by decide
  have hg : Guarded (centreStep 1 0) activeOk (.start 3) activeSample := by decide +kernel
  exact ⟨next_alive hown hg (Option.some_get _).symm, by decide +kernel⟩

/-- A timer is due in the round in which the handler of a poller event cancels it: its first entry
deletes it, and the second one is left with the pointer. -/
theorem not_next_alive :
    ¬ ∀ (fd : ℕ) (ops : List CentreOp) (s : CentreState), (∀ op ∈ ops, registryOwned op) →
      exec (centreStep 1 0) (.start fd) ops = some s → NextAlive s := by
  intro h
  have hrun := h 3 [.object (.create evTimeout 1 5 0 true), .register 1 false true,
    .object (.create evIoread 20 0 0 false), .register 2 false true, .control .start,
    .makeWaitting, .control (.calcTimeout 0), .control .pollReturn, .pushActive 20 evIoread,
    .control (.launchBegin 10), .launchIter 10, .control .launchEnd, .control .processBegin,
    .take, .cancel 1, .handleEnd, .take, .control .processEnd,
    .makeWaitting, .control (.calcTimeout 11), .control .pollReturn,
    .control (.launchBegin 11), .launchIter 11, .control .launchEnd, .control .processBegin] _
    (by decide) (Option.some_get (by decide +kernel)).symm
  revert hrun
  decide +kernel

end Chaos.ActiveEvents
