import Chaos.CentreFrames

/-!
# The registries along every run

Without any condition on a run: the keys of `m_events` and of `m_timerMap` are distinct and are the keys
of the events there, an event is in the registry that its mask selects, and no address from `fresh` on is
in use anywhere.
-/
namespace Chaos

open GuardedRuns KeyLists Timer

structure KeysInv (c : EventCentre) : Prop where
  events : KeysNodup c.events
  timers : KeysNodup c.timer.timerMap

/-- Something in the state speaks about `p`. -/
inductive InUse (s : CentreState) (p : ℕ) : Prop
  | alive {e : Event} (he : s.objs.store p = some e)
  | event {k : ℕ} (h : (k, p) ∈ s.centre.events)
  | timer {k : ℕ} (h : (k, p) ∈ s.centre.timer.timerMap)
  | heap (h : p ∈ s.centre.timer.heap.heap)
  | entry {b : Bool} (h : s.centre.pending ⟨p, b⟩ ≠ 0)
  | handling (h : s.centre.pc = .handling p)

structure RegistryInv (s : CentreState) : Prop extends KeysInv s.centre where
  eventKey : ∀ k p, (k, p) ∈ s.centre.events → ∀ e, s.objs.store p = some e →
    e.evKey = k ∧ onTimer e.ev = false
  timerKey : ∀ k p, (k, p) ∈ s.centre.timer.timerMap → ∀ e, s.objs.store p = some e →
    e.evKey = k ∧ onTimer e.ev = true
  mask : ∀ p e, s.objs.store p = some e → e.ev.meets evCancel = true
  below : ∀ p, InUse s p → p < s.objs.fresh

section Step
variable {n self : ℕ} {s t : CentreState} {op : CentreOp}

/-- What a step does to `m_events` and to the timer: an event comes into one of them, or nothing does. -/
inductive RegistryPass (s t : CentreState) : Prop where
  | fewer (hevents : t.centre.events.Sublist s.centre.events)
    (htimers : t.centre.timer.timerMap.Sublist s.centre.timer.timerMap)
    (hheap : ∀ q ∈ t.centre.timer.heap.heap, q ∈ s.centre.timer.heap.heap)
  | addEvent {p : ℕ} {e : Event} (he : s.objs.store p = some e) (hio : e.ev.meets ioCareEvent = true)
    (hkey : s.centre.events.lookup e.evKey = none) (hevents : t.centre.events = (e.evKey, p) :: s.centre.events)
    (htimer : t.centre.timer = s.centre.timer)
  | addTimer {p : ℕ} {e : Event} (he : s.objs.store p = some e) (htimer : onTimer e.ev = true)
    (hkey : s.centre.timer.timerMap.lookup e.evKey = none) (hevents : t.centre.events = s.centre.events)
    (htimers : t.centre.timer.timerMap = (e.evKey, p) :: s.centre.timer.timerMap)
    (hheap : ∀ q ∈ t.centre.timer.heap.heap, q = p ∨ q ∈ s.centre.timer.heap.heap)

theorem RegistryPass.of_eq (hevents : t.centre.events = s.centre.events) (htimer : t.centre.timer = s.centre.timer) :
    RegistryPass s t := by
  refine .fewer (hevents ▸ List.Sublist.refl _) (htimer ▸ List.Sublist.refl _) ?_
  rw [htimer]
  exact fun _ => id

theorem registryPass_deleteEvent (rest : List Entry) (e : Event) :
    RegistryPass s ((s.withActive rest).deleteEvent e) := by
  have hheap : ∀ q ∈ ((s.withActive rest).deleteEvent e).centre.timer.heap.heap, q ∈ s.centre.timer.heap.heap := by
    rw [CentreState.deleteEvent_heap]
    exact fun _ => id
  refine .fewer ?_ ?_ hheap <;> rw [CentreState.deleteEvent] <;> split_ifs
  · exact eraseKey_sublist _ _
  · exact List.Sublist.refl _
  · exact List.Sublist.refl _
  · exact List.Sublist.refl _
  · exact eraseKey_sublist _ _
  · exact List.Sublist.refl _

theorem registryPass_of_step (ht : CentrePass n self s op t) : RegistryPass s t := by
  cases ht with
  | control hc =>
    obtain ⟨running, eventFd, pc, rfl, _⟩ := controlStep_eq hc
    exact .of_eq rfl rfl
  | refused hp =>
    apply RegistryPass.of_eq <;> rw [CentreState.afterRegister_centre]
  | registerIo hp hheld he hc hio hkey =>
    apply RegistryPass.addEvent he hio hkey <;> rw [CentreState.afterRegister_centre] <;> rfl
  | @registerTimer p keep _ e hp hheld he hc htimer hkey =>
    apply RegistryPass.addTimer he htimer hkey <;> rw [CentreState.afterRegister_centre]
    · rfl
    · rfl
    · intro q hq
      exact List.mem_cons.mp ((MinHeap.perm_push _ _ _).mem_iff.mp hq)
  | launch hpc hl =>
    refine .fewer (List.Sublist.refl _) ?_ fun q => launchPass_mem hl
    cases hl with
    | delete hfront hp hdue hloop hsuspend => exact eraseKey_sublist _ _
    | expired hfront hp => exact List.Sublist.refl _
    | rearm hfront hp hdue hloop => exact List.Sublist.refl _
    | once hfront hp hdue hloop hsuspend => exact List.Sublist.refl _
  | @delete entry rest e hpc hact he hfront => exact registryPass_deleteEvent rest e
  | _ => exact .of_eq rfl rfl

theorem keysInv_step (h : KeysInv s.centre) (ht : CentrePass n self s op t) : KeysInv t.centre := by
  cases registryPass_of_step ht with
  | fewer hevents htimers hheap => exact ⟨h.events.sublist hevents, h.timers.sublist htimers⟩
  | addEvent he hio hkey hevents htimer =>
    constructor
    · rw [hevents]
      exact h.events.cons hkey _
    · rw [htimer]
      exact h.timers
  | addTimer he htimer hkey hevents htimers hheap =>
    constructor
    · rw [hevents]
      exact h.events
    · rw [htimers]
      exact h.timers.cons hkey _

/-! ## Addresses in use -/

theorem Unmoved.inUse {q : ℕ} (h : Unmoved s t q) (hq : InUse t q) : InUse s q := by
  cases hq with
  | alive he =>
    obtain ⟨e, he, _⟩ := h.kept _ he
    exact .alive he
  | event hmem => exact .event ((h.events _).mp hmem)
  | timer hmem => exact .timer ((h.timers _).mp hmem)
  | heap hmem => exact .heap (h.heap hmem)
  | @entry b hpending =>
    rw [h.pending b] at hpending
    exact .entry hpending
  | handling hpc => exact .handling (h.handling.mp hpc)

theorem inUse_of_head {entry : Entry} (h : entry ∈ s.centre.activeEvs.head?) : InUse s entry.ev := by
  have hact : entry ∈ s.centre.activeEvs := List.mem_of_mem_head? h
  refine .entry (b := entry.fromCancel) (Nat.pos_iff_ne_zero.mp (List.count_pos_iff.mpr ?_))
  exact List.mem_append_left _ hact

theorem inUse_of_underKey {e : Event} {q : ℕ} (h : s.underKey e = some q) : InUse s q := by
  rw [CentreState.underKey] at h
  split_ifs at h
  · exact .event (mem_of_lookup h)
  · exact .timer (mem_of_lookup h)

theorem inUse_of_take {q : ℕ} (h : Aims s q .take) : InUse s q := by
  obtain ⟨entry, hhead, rfl | ⟨e, _, hunder⟩⟩ := h
  · exact inUse_of_head hhead
  · exact inUse_of_underKey hunder

theorem inUse_step {q : ℕ} (h : KeysInv s.centre) (ht : CentrePass n self s op t) (hq : InUse t q) :
    InUse s q ∨ q = s.objs.fresh ∧ t.objs.fresh = s.objs.fresh + 1 := by
  by_cases haim : Aims s q op
  · cases ht with
    | @object op o hobj =>
      cases hobj with
      | create => exact Or.inr ⟨haim, rfl⟩
      | @drop p hp => exact haim.elim
      | modify _ hsame => exact Or.inl ((Unmoved.of_objs (.modify hsame q)).inUse hq)
    | refused hp => exact Or.inl (unmoved_afterRegister.inUse hq)
    | registerIo hp hheld he => exact Or.inl (.alive (haim ▸ he))
    | registerTimer hp hheld he => exact Or.inl (.alive (haim ▸ he))
    | ignored hnot => exact Or.inl hq
    | unmarked he hm => exact Or.inl (.alive (haim ▸ he))
    | cancel hp hpc he hc => exact Or.inl (.alive (haim ▸ he))
    | notActive => exact Or.inl hq
    | pushActive hpc hio hfd he hc => exact Or.inl (.event (mem_of_lookup haim))
    | launch hpc hl =>
      obtain ⟨r, hr, _, rfl | ⟨_, hl⟩⟩ := haim
      · obtain ⟨_, _, _, he, _⟩ := CentreState.mem_dueRoot hr
        exact Or.inl (.alive he)
      · exact Or.inl (.timer (mem_of_lookup hl))
    | delete => exact Or.inl (inUse_of_take haim)
    | skip => exact Or.inl (inUse_of_take haim)
    | wakeUp => exact Or.inl (inUse_of_take haim)
    | handle => exact Or.inl (inUse_of_take haim)
    | handleEnd hpc he => exact Or.inl (.handling haim)
    | control hc => exact haim.elim
    | makeWaitting hpc => exact haim.elim
  · exact Or.inl ((unmoved_step h.events h.timers ht haim).inUse hq)

theorem deleteEvent_fresh (e : Event) : (s.deleteEvent e).objs.fresh = s.objs.fresh := by
  have herased (o : Objects) (erased : Option ℕ) : (o.releaseErased erased).fresh = o.fresh := by
    cases erased with
    | none => rfl
    | some q => exact o.release_fresh q
  rw [CentreState.deleteEvent]
  split_ifs
  · refine (herased _ _).trans ?_
    cases s.centre.events.lookup e.evKey <;> rfl
  · refine (herased _ _).trans ?_
    rw [delTimer]
    cases s.centre.timer.timerMap.lookup e.evKey <;> rfl
  · rfl

theorem afterRegister_fresh (s : CentreState) (p : ℕ) (keep : Bool) :
    (s.afterRegister p keep).objs.fresh = s.objs.fresh := by
  rw [CentreState.afterRegister]
  split_ifs
  · rfl
  · exact Objects.drop_fresh _ p

theorem fresh_step (ht : CentrePass n self s op t) : s.objs.fresh ≤ t.objs.fresh := by
  cases ht with
  | object hobj =>
    cases hobj with
    | create => exact Nat.le_succ _
    | @drop p _ => exact (Objects.drop_fresh s.objs p).ge
    | modify _ _ => exact le_rfl
  | @refused p keep => exact (afterRegister_fresh s p keep).ge
  | @registerIo p keep _ e => exact (afterRegister_fresh (s.registeredIo self p e) p keep).ge
  | @registerTimer p keep _ e => exact (afterRegister_fresh (s.registeredTimer self p e) p keep).ge
  | launch hpc hl => exact (launchPass_fresh hl).ge
  | @delete entry rest e hpc hact he hfront => exact (deleteEvent_fresh (s := s.withActive rest) e).ge
  | control hc =>
    obtain ⟨running, eventFd, pc, rfl, _⟩ := controlStep_eq hc
    exact le_rfl
  | _ => exact le_rfl

/-! ## Keys and masks -/

/-- No step changes the key or the kind of the mask of an event. -/
theorem keptMask_step (ht : CentrePass n self s op t) (q : ℕ) :
    Kept SameMask s.objs t.objs q ∨ ∃ ev evKey timeoutMs clk isLoop, q = s.objs.fresh ∧
      t.objs.store q = some (newEvent ev evKey timeoutMs clk isLoop) := by
  cases ht with
  | object hobj =>
    cases hobj with
    | create =>
      rcases eq_or_ne q s.objs.fresh with rfl | hne
      · exact Or.inr ⟨_, _, _, _, _, rfl, Function.update_self ..⟩
      · exact Or.inl (Kept.of_store (Or.inl (Function.update_of_ne hne ..))).sameMask
    | @drop p _ => exact Or.inl (Kept.drop _ q p).sameMask
    | modify _ hsame => exact Or.inl (Kept.modify hsame q).sameMask
  | refused hp => exact Or.inl afterRegister_kept.sameMask
  | @registerIo p keep _ e =>
    have hreg : Kept SameMask s.objs (s.registeredIo self p e).objs q :=
      .setCentre (s.objs.addOwner p) q p (some self)
    exact Or.inl (.comp .trans hreg afterRegister_kept.sameMask)
  | @registerTimer p keep _ e =>
    have hreg : Kept SameMask s.objs (s.registeredTimer self p e).objs q :=
      .setCentre { s.objs.addOwner p with curTimers := _ } q p (some self)
    exact Or.inl (.comp .trans hreg afterRegister_kept.sameMask)
  | unmarked he hm => exact Or.inl (.setCentre s.objs q _ none)
  | cancel hp hpc he hc =>
    exact Or.inl (.comp .trans (.pushCurEv s.objs q _ evCancel) (.setCentre _ q _ none))
  | pushActive hpc hio hfd he hc => exact Or.inl (.pushCurEv s.objs q _ _)
  | launch hpc hl => exact Or.inl (launchPass_kept hl q).sameMask
  | @delete entry rest e hpc hact he hfront =>
    exact Or.inl (deleteEvent_kept (s := s.withActive rest) e).sameMask
  | wakeUp hpc hact he hfront hself => exact Or.inl (.popCurEv s.objs q _)
  | handleEnd hpc he => exact Or.inl (.popCurEv s.objs q _)
  | _ => exact Or.inl (Kept.refl _ q).sameMask

/-- An event that a step brings into `m_events` has its key and mask. -/
theorem events_step (ht : CentrePass n self s op t) {k q : ℕ} (hmem : (k, q) ∈ t.centre.events) :
    (k, q) ∈ s.centre.events ∨
      ∃ e, s.objs.store q = some e ∧ e.evKey = k ∧ onTimer e.ev = false := by
  cases registryPass_of_step ht with
  | fewer hevents htimers hheap => exact Or.inl (hevents.mem hmem)
  | addEvent he hio hkey hevents htimer =>
    rw [hevents] at hmem
    rcases List.mem_cons.mp hmem with heq | hmem
    · obtain ⟨rfl, rfl⟩ := Prod.mk.inj heq
      exact Or.inr ⟨_, he, rfl, by simp [onTimer, hio]⟩
    · exact Or.inl hmem
  | addTimer he htimer hkey hevents htimers hheap => exact Or.inl (hevents ▸ hmem)

theorem timers_step (ht : CentrePass n self s op t) {k q : ℕ}
    (hmem : (k, q) ∈ t.centre.timer.timerMap) : (k, q) ∈ s.centre.timer.timerMap ∨
      ∃ e, s.objs.store q = some e ∧ e.evKey = k ∧ onTimer e.ev = true := by
  cases registryPass_of_step ht with
  | fewer hevents htimers hheap => exact Or.inl (htimers.mem hmem)
  | addEvent he hio hkey hevents htimer => exact Or.inl (htimer ▸ hmem)
  | addTimer he htimer hkey hevents htimers hheap =>
    rw [htimers] at hmem
    rcases List.mem_cons.mp hmem with heq | hmem
    · obtain ⟨rfl, rfl⟩ := Prod.mk.inj heq
      exact Or.inr ⟨_, he, rfl, htimer⟩
    · exact Or.inl hmem

/-- `AddTimer` alone brings an event into the heap. -/
theorem heap_step (ht : CentrePass n self s op t) {q : ℕ} (hmem : q ∈ t.centre.timer.heap.heap) :
    q ∈ s.centre.timer.heap.heap ∨ ∃ e, s.objs.store q = some e ∧ onTimer e.ev = true := by
  cases registryPass_of_step ht with
  | fewer hevents htimers hheap => exact Or.inl (hheap q hmem)
  | addEvent he hio hkey hevents htimer => exact Or.inl (htimer ▸ hmem)
  | addTimer he htimer hkey hevents htimers hheap =>
    rcases hheap q hmem with rfl | hold
    · exact Or.inr ⟨_, he, htimer⟩
    · exact Or.inl hold

/-- An event that is in use is the one that was there. -/
theorem keptMask_of_below (ht : CentrePass n self s op t) {q : ℕ} (hq : q < s.objs.fresh) :
    Kept SameMask s.objs t.objs q := by
  refine (keptMask_step ht q).resolve_right ?_
  rintro ⟨_, _, _, _, _, hfresh, _⟩
  exact hq.ne hfresh

theorem meets_newEvent (ev : EvMask) (evKey timeoutMs clk : ℕ) (isLoop : Bool) :
    (newEvent ev evKey timeoutMs clk isLoop).ev.meets evCancel = true := by
  have hand : (ev ||| evCancel) &&& evCancel = evCancel := by
    ext i hi
    simp only [BitVec.getElem_and, BitVec.getElem_or]
    cases ev[i] <;> simp
  rw [EvMask.meets]
  show ((ev ||| evCancel) &&& evCancel != 0#16) = true
  rw [hand]
  decide

theorem registryInv_step (h : RegistryInv s) (ht : CentrePass n self s op t) : RegistryInv t := by
  have hold {q : ℕ} (hq : InUse s q) : Kept SameMask s.objs t.objs q :=
    keptMask_of_below ht (h.below q hq)
  refine ⟨keysInv_step h.toKeysInv ht, ?_, ?_, ?_, ?_⟩
  · intro k q hmem e' he'
    rcases events_step ht hmem with hmem | ⟨e, he, hk, hmask⟩
    · obtain ⟨e, he, hsame⟩ := hold (.event hmem) e' he'
      rw [hsame.evKey, hsame.onTimer]
      exact h.eventKey k q hmem e he
    · obtain ⟨e₂, he₂, hsame⟩ := hold (.alive he) e' he'
      obtain rfl := Option.some.inj (he.symm.trans he₂)
      rw [hsame.evKey, hsame.onTimer]
      exact ⟨hk, hmask⟩
  · intro k q hmem e' he'
    rcases timers_step ht hmem with hmem | ⟨e, he, hk, hmask⟩
    · obtain ⟨e, he, hsame⟩ := hold (.timer hmem) e' he'
      rw [hsame.evKey, hsame.onTimer]
      exact h.timerKey k q hmem e he
    · obtain ⟨e₂, he₂, hsame⟩ := hold (.alive he) e' he'
      obtain rfl := Option.some.inj (he.symm.trans he₂)
      rw [hsame.evKey, hsame.onTimer]
      exact ⟨hk, hmask⟩
  · intro q e' he'
    rcases keptMask_step ht q with hkept | ⟨ev, evKey, timeoutMs, clk, isLoop, _, hnew⟩
    · obtain ⟨e, he, hsame⟩ := hkept e' he'
      rw [hsame.cancel]
      exact h.mask q e he
    · obtain rfl := Option.some.inj (hnew.symm.trans he')
      exact meets_newEvent ev evKey timeoutMs clk isLoop
  · intro q hq
    have hfresh := fresh_step ht
    rcases inUse_step h.toKeysInv ht hq with hold | ⟨rfl, hnext⟩
    · exact (h.below q hold).trans_le hfresh
    · omega

/-- A deletion takes an event out of its registry. -/
theorem not_registered_deleteEvent {p : ℕ} {e : Event}
    (hevent : ∀ k, (k, p) ∈ s.centre.events → e.evKey = k ∧ onTimer e.ev = false)
    (htimer : ∀ k, (k, p) ∈ s.centre.timer.timerMap → e.evKey = k ∧ onTimer e.ev = true)
    (hmask : e.ev.meets ioCareEvent = true ∨ e.ev.meets timeoutCartEvent = true) :
    ¬ (s.deleteEvent e).centre.registered p := by
  simp only [EventCentre.registered, List.mem_map, Prod.exists, exists_eq_right, not_or, not_exists]
  rw [CentreState.deleteEvent]
  split_ifs with hio htimeout
  · refine ⟨fun k hmem => ?_, fun k hmem => ?_⟩
    · obtain ⟨hold, hne⟩ := mem_eraseKey.mp hmem
      exact hne (hevent k hold).1.symm
    · have hon := (htimer k hmem).2
      simp [onTimer, hio] at hon
  · have hon : onTimer e.ev = true := by simp [onTimer, hio, htimeout]
    refine ⟨fun k hmem => ?_, fun k hmem => ?_⟩
    · have hoff := (hevent k hmem).2
      rw [hon] at hoff
      cases hoff
    · obtain ⟨hold, hne⟩ := mem_eraseKey.mp hmem
      exact hne (htimer k hold).1.symm
  · exact absurd hmask (by simp [hio, htimeout])

end Step

/-- The wake-up events are there before any other. -/
theorem store_startObjects {n p : ℕ} {fds : ℕ → ℕ} {e : Event} (he : (startObjects n fds).store p = some e) :
    p < n ∧ e = wakeUpEvent p (fds p) := by
  simp only [startObjects, Option.ite_none_right_eq_some, Option.some.injEq] at he
  exact ⟨he.1, he.2.symm⟩

theorem store_start {fd p : ℕ} {e : Event} (he : (CentreState.start fd).objs.store p = some e) :
    p = 0 ∧ e = wakeUpEvent p fd := by
  obtain ⟨hp, he⟩ := store_startObjects he
  exact ⟨Nat.lt_one_iff.mp hp, he⟩

/-- The registries of the centre `self` of `n` centres at the start. -/
theorem registryInv_new {n self : ℕ} (fds : ℕ → ℕ) (hself : self < n) :
    RegistryInv ⟨startObjects n fds, .new self (fds self)⟩ := by
  refine ⟨⟨List.nodup_singleton _, List.nodup_nil⟩, ?_, ?_, ?_, ?_⟩
  · intro k p hmem e he
    obtain ⟨rfl, rfl⟩ := Prod.mk.inj (List.mem_singleton.mp hmem)
    obtain ⟨_, rfl⟩ := store_startObjects he
    exact ⟨rfl, show onTimer (evIoread ||| baseCareEvent) = false by decide⟩
  · intro k p hmem
    cases hmem
  · intro p e he
    obtain ⟨_, rfl⟩ := store_startObjects he
    exact show (evIoread ||| baseCareEvent).meets evCancel = true by decide
  · intro p hp
    cases hp with
    | alive he => exact (store_startObjects he).1
    | event hmem =>
      obtain ⟨_, rfl⟩ := Prod.mk.inj (List.mem_singleton.mp hmem)
      exact hself
    | timer hmem => cases hmem
    | heap hmem => cases hmem
    | entry hpending => exact absurd rfl hpending
    | handling hpc => cases hpc

theorem registryInv_start (fd : ℕ) : RegistryInv (.start fd) := registryInv_new (fun _ => fd) Nat.one_pos

end Chaos
