import Chaos.CentreSteps
import Chaos.TimerLaunch

/-!
# What a step of a centre leaves alone

A step aims at few events. What the registries, the queues and the objects say about any other event is
the same after it, up to an object that is no longer there. What holds along every run of a centre
follows: the keys of a registry are distinct and are the keys of its events.
-/
namespace Chaos

open KeyLists Timer

/-- The event `q` that a step aims at. -/
def Aims (s : CentreState) (q : ℕ) : CentreOp → Prop
  | .object (.create _ _ _ _ _) => q = s.objs.fresh
  | .register p _ _ => q = p
  | .cancel p => q = p
  | .pushActive fd _ => s.centre.events.lookup fd = some q
  | .launchIter _ => ∃ r ∈ s.dueRoot, (r.2.isSuspend = true → r.2.isLoop = false) ∧
    (q = r.1 ∨ r.2.isSuspend = true ∧ s.centre.timer.timerMap.lookup r.2.evKey = some q)
  | .take => ∃ entry ∈ s.centre.activeEvs.head?,
    q = entry.ev ∨ ∃ e ∈ s.takenCancel, s.underKey e = some q
  | .handleEnd => s.centre.pc = .handling q
  | _ => False

/-- Nothing is said otherwise about `q`. -/
structure Unmoved (s t : CentreState) (q : ℕ) : Prop where
  kept : Kept SameUse s.objs t.objs q
  pending : ∀ b, t.centre.pending ⟨q, b⟩ = s.centre.pending ⟨q, b⟩
  handling : t.centre.pc = .handling q ↔ s.centre.pc = .handling q
  events : ∀ k, (k, q) ∈ t.centre.events ↔ (k, q) ∈ s.centre.events
  timers : ∀ k, (k, q) ∈ t.centre.timer.timerMap ↔ (k, q) ∈ s.centre.timer.timerMap
  heap : q ∈ t.centre.timer.heap.heap → q ∈ s.centre.timer.heap.heap

/-- Nobody lets go of `q` or takes hold of it. -/
structure SameHold (o o' : Objects) (q : ℕ) : Prop where
  held : o'.held q = o.held q
  owned : o'.owned q = o.owned q
  alive : (o'.store q).isSome = (o.store q).isSome

/-- The queues, the registries and the heap are the same. -/
theorem Unmoved.of_objs {s : CentreState} {o : Objects} {q : ℕ} (h : Kept SameUse s.objs o q) :
    Unmoved s { s with objs := o } q :=
  ⟨h, fun _ => rfl, Iff.rfl, fun _ => Iff.rfl, fun _ => Iff.rfl, id⟩

theorem Unmoved.refl (s : CentreState) (q : ℕ) : Unmoved s s q := .of_objs (.refl s.objs q)

theorem Unmoved.trans {s t u : CentreState} {q : ℕ} (h : Unmoved s t q) (h' : Unmoved t u q) :
    Unmoved s u q where
  kept := h.kept.trans h'.kept
  pending b := (h'.pending b).trans (h.pending b)
  handling := h'.handling.trans h.handling
  events k := (h'.events k).trans (h.events k)
  timers k := (h'.timers k).trans (h.timers k)
  heap := h.heap ∘ h'.heap

theorem Unmoved.registered {s t : CentreState} {q : ℕ} (h : Unmoved s t q) :
    t.centre.registered q ↔ s.centre.registered q := by
  simp only [EventCentre.registered, List.mem_map, Prod.exists, exists_eq_right, h.events, h.timers]

theorem SameHold.refl (o : Objects) (q : ℕ) : SameHold o o q := ⟨rfl, rfl, rfl⟩

theorem SameHold.trans {o o' o'' : Objects} {q : ℕ} (h : SameHold o o' q) (h' : SameHold o' o'' q) :
    SameHold o o'' q :=
  ⟨h'.held.trans h.held, h'.owned.trans h.owned, h'.alive.trans h.alive⟩

/-! ## Objects -/

section Objects
variable {o : Objects} {p q : ℕ}

theorem SameHold.modify (f : Event → Event) : SameHold o (o.modify p f) q := by
  refine ⟨rfl, rfl, ?_⟩
  rcases eq_or_ne q p with rfl | hne
  · rw [Objects.modify_self, Option.isSome_map]
  · rw [Objects.modify_of_ne o p q f hne]

theorem SameHold.release (h : q ≠ p) : SameHold o (o.release p) q :=
  ⟨by rw [Objects.release_held], by rw [Objects.release_owned],
    by rw [Objects.release_store_of_ne o p q h]⟩

theorem SameHold.drop (h : q ≠ p) : SameHold o (o.drop p) q := by
  have hheld : SameHold o { o with held := Function.update o.held p false } q :=
    ⟨Function.update_of_ne h .., rfl, rfl⟩
  exact hheld.trans (.release h)

theorem SameHold.counter (curTimers : ℕ) : SameHold o { o with curTimers := curTimers } q := ⟨rfl, rfl, rfl⟩

theorem SameHold.dropOwner (h : q ≠ p) : SameHold o (o.dropOwner p) q :=
  ⟨rfl, Function.update_of_ne h .., rfl⟩

theorem SameHold.addOwner (h : q ≠ p) : SameHold o (o.addOwner p) q :=
  ⟨rfl, Function.update_of_ne h .., rfl⟩

theorem afterRegister_kept {s : CentreState} {keep : Bool} :
    Kept SameUse s.objs (s.afterRegister p keep).objs q := by
  rw [CentreState.afterRegister]
  split_ifs
  · exact .refl _ q
  · exact .drop _ q p

theorem afterRegister_hold {s : CentreState} {keep : Bool} (h : q ≠ p) :
    SameHold s.objs (s.afterRegister p keep).objs q := by
  rw [CentreState.afterRegister]
  split_ifs
  · exact .refl _ q
  · exact .drop h

theorem unmoved_afterRegister {s : CentreState} {keep : Bool} : Unmoved s (s.afterRegister p keep) q := by
  have hobjs : s.afterRegister p keep = { s with objs := (s.afterRegister p keep).objs } := by
    rw [CentreState.afterRegister]
    split_ifs <;> rfl
  rw [hobjs]
  exact .of_objs afterRegister_kept

end Objects

/-! ## Launch -/

theorem launchPass_kept {now clk : ℕ} {l l' : LaunchState} (h : LaunchPass now clk l l') (q : ℕ) :
    Kept SameUse l.objs l'.objs q := by
  cases h with
  | expired hfront hp => exact .refl _ q
  | @rearm p e hfront hp hdue hloop =>
    have hsame (e : Event) : SameUse e { e with nextTime := clk + e.timeoutMs } :=
      ⟨⟨rfl, rfl, rfl⟩, rfl, rfl, fun _ => rfl⟩
    exact Kept.modify (fun e _ => hsame e) q
  | @delete p e hfront hp hdue hloop hsuspend => exact .of_store (launchDelTimer_store l p q e)
  | once hfront hp hdue hloop hsuspend => exact .refl _ q

theorem launchDelTimer_hold {l : LaunchState} {p q : ℕ} {e : Event} (hp : q ≠ p)
    (h : l.timer.timerMap.lookup e.evKey ≠ some q) : SameHold l.objs (launchDelTimer l p e).objs q := by
  have herase : SameHold l.objs (afterErase l.objs l.timer p e) q := by
    rw [afterErase, delTimer]
    cases hl : l.timer.timerMap.lookup e.evKey with
    | none => exact ⟨rfl, rfl, rfl⟩
    | some r =>
      have hr : q ≠ r := by
        rintro rfl
        exact h hl
      dsimp only
      split_ifs
      · exact (SameHold.dropOwner hr).trans (.counter _)
      · exact ((SameHold.dropOwner hr).trans (.counter _)).trans (.release hr)
  exact herase.trans (.release hp)

section Step
variable {n self : ℕ} {s t : CentreState} {q : ℕ}

theorem pending_append (c : EventCentre) (new : List Entry) (entry : Entry) :
    { c with activeEvs := c.activeEvs ++ new }.pending entry = c.pending entry + new.count entry := by
  simp only [EventCentre.pending, List.count_append]
  omega

theorem pending_waitting (c : EventCentre) (new : List Entry) (entry : Entry) :
    { c with waittingEvs := c.waittingEvs ++ new }.pending entry = c.pending entry + new.count entry := by
  simp only [EventCentre.pending, List.count_append]
  omega

theorem afterCancel_pending (p : ℕ) (entry : Entry) : (s.afterCancel p).centre.pending entry =
    s.centre.pending entry + [(⟨p, true⟩ : Entry)].count entry :=
  pending_waitting s.centre [⟨p, true⟩] entry

theorem afterPush_pending (p : ℕ) (ev : EvMask) (entry : Entry) :
    (s.afterPush p ev).centre.pending entry =
      s.centre.pending entry + [(⟨p, false⟩ : Entry)].count entry :=
  pending_append s.centre [⟨p, false⟩] entry

theorem afterPass_pending (l : LaunchState) (entry : Entry) : (s.afterPass l).centre.pending entry =
    s.centre.pending entry + (l.active.map fun p => (⟨p, false⟩ : Entry)).count entry :=
  pending_append s.centre _ entry

theorem pending_rest {entry : Entry} {rest : List Entry} (hact : s.centre.activeEvs = entry :: rest)
    (other : Entry) : s.centre.pending other =
      (s.withActive rest).centre.pending other + if entry = other then 1 else 0 := by
  simp only [EventCentre.pending, CentreState.withActive, hact, List.cons_append, List.count_cons,
    beq_iff_eq]

theorem count_map_entry {active : List ℕ} (h : q ∉ active) (b : Bool) :
    (active.map fun p => (⟨p, false⟩ : Entry)).count ⟨q, b⟩ = 0 := by
  apply List.count_eq_zero_of_not_mem
  intro hmem
  obtain ⟨p, hp, heq⟩ := List.mem_map.mp hmem
  obtain rfl : p = q := congrArg Entry.ev heq
  exact h hp

theorem unmoved_launch {clk now : ℕ} {l : LaunchState} (hkeys : KeysNodup s.centre.timer.timerMap)
    (hpc : s.centre.pc = .launch now) (h : LaunchPass now clk ⟨s.objs, s.centre.timer, []⟩ l)
    (hq : ¬ Aims s q (.launchIter clk)) : Unmoved s (s.afterPass l) q := by
  have hkept := launchPass_kept h q
  have hheap : q ∈ l.timer.heap.heap → q ∈ s.centre.timer.heap.heap := launchPass_mem h
  have hactive : q ∉ l.active := by
    cases h with
    | expired hfront hp => exact List.not_mem_nil
    | @rearm p e hfront hp hdue hloop =>
      simp only [launchLoopTimer]
      split_ifs with hsuspend
      · exact List.not_mem_nil
      · rintro hmem
        obtain rfl := List.mem_singleton.mp hmem
        exact hq ⟨_, CentreState.dueRoot_eq hpc hfront hp hdue, fun h => absurd h hsuspend, Or.inl rfl⟩
    | delete hfront hp hdue hloop hsuspend => exact List.not_mem_nil
    | @once p e hfront hp hdue hloop hsuspend =>
      rintro hmem
      obtain rfl := List.mem_singleton.mp hmem
      exact hq ⟨_, CentreState.dueRoot_eq hpc hfront hp hdue, fun _ => hloop, Or.inl rfl⟩
  have htimers (k : ℕ) : (k, q) ∈ l.timer.timerMap ↔ (k, q) ∈ s.centre.timer.timerMap := by
    cases h with
    | expired hfront hp => exact Iff.rfl
    | rearm hfront hp hdue hloop => exact Iff.rfl
    | @delete p e hfront hp hdue hloop hsuspend =>
      apply mem_eraseKey_of_ne hkeys
      intro hl
      exact hq ⟨_, CentreState.dueRoot_eq hpc hfront hp hdue, fun _ => hloop, Or.inr ⟨hsuspend, hl⟩⟩
    | once hfront hp hdue hloop hsuspend => exact Iff.rfl
  refine ⟨hkept, fun b => ?_, Iff.rfl, fun _ => Iff.rfl, htimers, hheap⟩
  rw [afterPass_pending, count_map_entry hactive, Nat.add_zero]

/-- A deletion takes objects away at most. -/
theorem deleteEvent_store (e : Event) :
    (s.deleteEvent e).objs.store q = s.objs.store q ∨ (s.deleteEvent e).objs.store q = none := by
  rw [CentreState.deleteEvent]
  split_ifs
  · rw [CentreState.delEvent]
    cases s.centre.events.lookup e.evKey with
    | none => exact Or.inl rfl
    | some r => exact ((s.objs.dropOwner r).release_store r q).imp_right And.right
  · rw [CentreState.delTimer, delTimer]
    cases s.centre.timer.timerMap.lookup e.evKey with
    | none => exact Or.inl rfl
    | some r =>
      exact (Objects.release_store { s.objs.dropOwner r with curTimers := _ } r q).imp_right And.right
  · exact Or.inl rfl

theorem deleteEvent_kept (e : Event) : Kept SameUse s.objs (s.deleteEvent e).objs q :=
  .of_store (deleteEvent_store e)

theorem deleteEvent_hold {e : Event} (h : s.underKey e ≠ some q) :
    SameHold s.objs (s.deleteEvent e).objs q := by
  rw [CentreState.underKey] at h
  rw [CentreState.deleteEvent]
  split_ifs with hio
  · rw [if_pos hio] at h
    rw [CentreState.delEvent]
    cases hl : s.centre.events.lookup e.evKey with
    | none => exact .refl _ q
    | some r =>
      have hr : q ≠ r := by
        rintro rfl
        exact h hl
      exact (SameHold.dropOwner hr).trans (.release hr)
  · rw [if_neg hio] at h
    rw [CentreState.delTimer, delTimer]
    cases hl : s.centre.timer.timerMap.lookup e.evKey with
    | none => exact ⟨rfl, rfl, rfl⟩
    | some r =>
      have hr : q ≠ r := by
        rintro rfl
        exact h hl
      exact ((SameHold.dropOwner hr).trans (.counter _)).trans (.release hr)
  · exact .refl _ q

/-- A deletion takes one owner from the event under the key and releases it. -/
theorem deleteEvent_objs {p : ℕ} {e : Event} (hunder : s.underKey e = some p)
    (hmask : e.ev.meets ioCareEvent = true ∨ e.ev.meets timeoutCartEvent = true) :
    ∃ curTimers, (s.deleteEvent e).objs =
      { s.objs.dropOwner p with curTimers := curTimers }.release p := by
  rw [CentreState.underKey] at hunder
  rw [CentreState.deleteEvent]
  split_ifs with hio htimeout
  · rw [if_pos hio] at hunder
    refine ⟨s.objs.curTimers, ?_⟩
    simp only [CentreState.countDeleted, CentreState.delEvent, hunder]
    rfl
  · rw [if_neg hio] at hunder
    refine ⟨Word32.sub32 s.objs.curTimers 1, ?_⟩
    simp only [CentreState.countDeleted, CentreState.delTimer, delTimer, hunder]
    rfl
  · exact absurd hmask (by simp [hio, htimeout])

theorem launchDelTimer_objs {p : ℕ} {e : Event} {l : LaunchState} (hl : l.timer.timerMap.lookup e.evKey = some p) :
    ∃ curTimers, (launchDelTimer l p e).objs =
      { l.objs.dropOwner p with curTimers := curTimers }.release p := by
  refine ⟨Word32.sub32 l.objs.curTimers 1, ?_⟩
  simp only [launchDelTimer, afterErase, delTimer, hl, if_true]
  rfl

/-- A deletion takes the event under the key out of its registry, and no other. -/
theorem unmoved_deleteEvent {e : Event} (hevents : KeysNodup s.centre.events)
    (htimers : KeysNodup s.centre.timer.timerMap) (h : s.underKey e ≠ some q) :
    Unmoved s (s.deleteEvent e) q := by
  have hkept := deleteEvent_kept (s := s) (q := q) e
  have hpending (b : Bool) := CentreState.deleteEvent_pending (s := s) e ⟨q, b⟩
  have hpc := CentreState.deleteEvent_pc (s := s) e
  rw [CentreState.underKey] at h
  refine ⟨hkept, hpending, by rw [hpc], ?_, ?_, ?_⟩
  · intro k
    rw [CentreState.deleteEvent]
    split_ifs with hio
    · rw [if_pos hio] at h
      exact mem_eraseKey_of_ne hevents h k
    · exact Iff.rfl
    · exact Iff.rfl
  · intro k
    rw [CentreState.deleteEvent]
    split_ifs with hio
    · exact Iff.rfl
    · rw [if_neg hio] at h
      exact mem_eraseKey_of_ne htimers h k
    · exact Iff.rfl
  · rw [CentreState.deleteEvent]
    split_ifs <;> exact id

/-! ## Steps -/

theorem unmoved_registered {p : ℕ} {e : Event} (hq : q ≠ p) :
    Unmoved s (s.registeredIo self p e) q ∧ Unmoved s (s.registeredTimer self p e) q := by
  have hne (k k' : ℕ) : (k, q) ≠ (k', p) := by
    intro h
    exact hq (congrArg Prod.snd h)
  have hkept (o : Objects) (ho : o.store = s.objs.store) :
      Kept SameUse s.objs (o.setCentre p (some self)) q := by
    refine .of_store (Or.inl ?_)
    rw [Objects.setCentre, Objects.modify_of_ne o p q _ hq, ho]
  refine ⟨⟨hkept _ rfl, fun _ => rfl, Iff.rfl, fun k => ?_, fun _ => Iff.rfl, id⟩,
    ⟨hkept _ rfl, fun _ => rfl, Iff.rfl, fun _ => Iff.rfl, fun k => ?_, fun hmem => ?_⟩⟩
  · rw [CentreState.registeredIo, List.mem_cons, or_iff_right (hne k e.evKey)]
  · rw [CentreState.registeredTimer, List.mem_cons, or_iff_right (hne k e.evKey)]
  · exact (List.mem_cons.mp ((MinHeap.perm_push _ _ p).mem_iff.mp hmem)).resolve_left hq

theorem registeredIo_store {p : ℕ} {e : Event} (he : s.objs.store p = some e) :
    (s.registeredIo self p e).objs.store p = some { e with centre := some self } := by
  simp [CentreState.registeredIo, Objects.setCentre, he]

theorem registeredTimer_store {p : ℕ} {e : Event} (he : s.objs.store p = some e) :
    (s.registeredTimer self p e).objs.store p = some { e with centre := some self } := by
  rw [CentreState.registeredTimer, Objects.setCentre, Objects.modify_self]
  exact congrArg _ he

theorem unmoved_withActive {entry : Entry} {rest : List Entry} (hact : s.centre.activeEvs = entry :: rest)
    (hq : q ≠ entry.ev) : Unmoved s (s.withActive rest) q := by
  refine ⟨.refl _ q, fun b => ?_, Iff.rfl, fun _ => Iff.rfl, fun _ => Iff.rfl, id⟩
  have hne : entry ≠ ⟨q, b⟩ := fun h => hq (congrArg Entry.ev h).symm
  have hpending := pending_rest hact ⟨q, b⟩
  rw [if_neg hne, Nat.add_zero] at hpending
  exact hpending.symm

theorem not_aims_take {entry : Entry} {rest : List Entry} (hact : s.centre.activeEvs = entry :: rest)
    (hq : ¬ Aims s q .take) : q ≠ entry.ev ∧ ∀ e ∈ s.takenCancel, s.underKey e ≠ some q := by
  have hhead : entry ∈ s.centre.activeEvs.head? := by
    rw [hact]
    rfl
  exact ⟨fun h => hq ⟨entry, hhead, Or.inl h⟩, fun e he h => hq ⟨entry, hhead, Or.inr ⟨e, he, h⟩⟩⟩

/-- Where no marker is in front a round aims at the event it takes. -/
theorem aims_take_of_front {entry : Entry} {rest : List Entry} {e : Event}
    (hact : s.centre.activeEvs = entry :: rest) (he : s.objs.store entry.ev = some e)
    (hfront : e.getCurEv.meets evCancel = false) (hq : Aims s q .take) : q = entry.ev := by
  have hhead : s.centre.activeEvs.head? = some entry := by simp [hact]
  obtain ⟨entry', hhead', rfl | ⟨e', he', _⟩⟩ := hq
  · rw [Option.some.inj (hhead.symm.trans hhead')]
  · rw [CentreState.takenCancel_eq_none hact he hfront] at he'
    cases he'

theorem unmoved_step (hevents : KeysNodup s.centre.events) (htimers : KeysNodup s.centre.timer.timerMap)
    {op : CentreOp} (ht : CentrePass n self s op t) (hq : ¬ Aims s q op) : Unmoved s t q := by
  cases ht with
  | @object op o hobj =>
    refine .of_objs ?_
    cases hobj with
    | create => exact .of_store (Or.inl (Function.update_of_ne hq ..))
    | @drop p _ => exact .drop _ q p
    | modify _ hsame => exact .modify hsame q
  | control hc =>
    obtain ⟨running, eventFd, pc, rfl, hhandling⟩ := controlStep_eq hc
    exact ⟨.refl _ q, fun _ => rfl, hhandling q, fun _ => Iff.rfl, fun _ => Iff.rfl, id⟩
  | refused hp => exact unmoved_afterRegister
  | registerIo hp hheld he hc hio hkey => exact (unmoved_registered hq).1.trans unmoved_afterRegister
  | registerTimer hp hheld he hc htimer hkey =>
    exact (unmoved_registered hq).2.trans unmoved_afterRegister
  | ignored hnot => exact .refl s q
  | unmarked he hm => exact .of_objs (.modify_of_ne _ hq)
  | cancel hp hpc he hc =>
    refine ⟨(Kept.modify_of_ne _ hq).trans (.modify_of_ne _ hq), fun b => ?_, Iff.rfl, fun _ => Iff.rfl,
      fun _ => Iff.rfl, id⟩
    have hne (b : Bool) : (⟨_, true⟩ : Entry) ≠ ⟨q, b⟩ := fun h => hq (congrArg Entry.ev h).symm
    refine (afterCancel_pending _ ⟨q, b⟩).trans ?_
    simp [hne b]
  | makeWaitting hpc =>
    refine ⟨.refl _ q, fun b => ?_, ?_, fun _ => Iff.rfl, fun _ => Iff.rfl, id⟩
    · simp [EventCentre.pending, List.count_append, Nat.add_comm]
    · simp [hpc]
  | notActive => exact .refl s q
  | @pushActive fd p ev e hpc hio hfd he hc =>
    have hp : q ≠ p := by
      rintro rfl
      exact hq hfd
    refine ⟨.modify_of_ne _ hp, fun b => ?_, Iff.rfl, fun _ => Iff.rfl, fun _ => Iff.rfl, id⟩
    refine (afterPush_pending p ev ⟨q, b⟩).trans ?_
    have hne : (⟨p, false⟩ : Entry) ≠ ⟨q, b⟩ := fun h => hp (congrArg Entry.ev h).symm
    simp [hne]
  | launch hpc hl => exact unmoved_launch htimers hpc hl hq
  | @delete entry rest e hpc hact he hfront =>
    obtain ⟨hne, hunder⟩ := not_aims_take hact hq
    have hrest := unmoved_withActive hact hne
    have hother := hunder e (CentreState.takenCancel_eq hact he hfront)
    exact hrest.trans (unmoved_deleteEvent (s := s.withActive rest) hevents htimers hother)
  | skip hpc hact he hfront hc => exact unmoved_withActive hact (not_aims_take hact hq).1
  | @wakeUp entry rest e hpc hact he hfront hself =>
    have hrest := unmoved_withActive hact (not_aims_take hact hq).1
    have hpop : Kept SameUse s.objs (s.objs.modify entry.ev Event.popCurEv) q :=
      .modify_of_ne _ (not_aims_take hact hq).1
    exact ⟨hpop, hrest.pending, Iff.rfl, fun _ => Iff.rfl, fun _ => Iff.rfl, id⟩
  | @handle entry rest e hpc hact he hfront hc hself =>
    have hne := (not_aims_take hact hq).1
    have hrest := unmoved_withActive hact hne
    refine ⟨.refl _ q, hrest.pending, ?_, fun _ => Iff.rfl, fun _ => Iff.rfl, id⟩
    simp [hpc, hne.symm]
  | @handleEnd p e hpc he =>
    have hne : q ≠ p := by
      rintro rfl
      exact hq hpc
    refine ⟨.modify_of_ne _ hne, fun _ => rfl, ?_, fun _ => Iff.rfl, fun _ => Iff.rfl, id⟩
    simp [hpc, hne.symm]

/-- Only a drop lets go of an event that the step does not aim at. -/
theorem sameHold_step {op : CentreOp} (ht : CentrePass n self s op t) (hq : ¬ Aims s q op)
    (hdrop : op ≠ .object (.drop q)) : SameHold s.objs t.objs q := by
  cases ht with
  | @object op o hobj =>
    cases hobj with
    | create =>
      exact ⟨Function.update_of_ne hq .., rfl, congrArg Option.isSome (Function.update_of_ne hq ..)⟩
    | @drop p _ =>
      refine .drop ?_
      rintro rfl
      exact hdrop rfl
    | modify _ hsame => exact .modify _
  | control hc => exact .refl _ q
  | refused hp => exact afterRegister_hold hq
  | @registerIo p keep registFd e hp hheld he hc hio hkey =>
    have hreg : SameHold s.objs (s.registeredIo self p e).objs q :=
      (SameHold.addOwner hq).trans (.modify _)
    exact hreg.trans (afterRegister_hold hq)
  | @registerTimer p keep registFd e hp hheld he hc htimer hkey =>
    have hreg : SameHold s.objs (s.registeredTimer self p e).objs q :=
      ((SameHold.addOwner hq).trans (.counter _)).trans (.modify _)
    exact hreg.trans (afterRegister_hold hq)
  | ignored hnot => exact .refl _ q
  | unmarked he hm => exact .modify _
  | cancel hp hpc he hc => exact (SameHold.modify _).trans (.modify _)
  | makeWaitting hpc => exact .refl _ q
  | notActive => exact .refl _ q
  | pushActive hpc hio hfd he hc => exact .modify _
  | launch hpc hl =>
    cases hl with
    | expired hfront hp => exact .refl _ q
    | rearm hfront hp hdue hloop => exact .modify _
    | @delete p e hfront hp hdue hloop hsuspend =>
      have hroot := CentreState.dueRoot_eq hpc hfront hp hdue
      have hp : q ≠ p := by
        rintro rfl
        exact hq ⟨_, hroot, fun _ => hloop, Or.inl rfl⟩
      have hother : s.centre.timer.timerMap.lookup e.evKey ≠ some q := by
        intro hl
        exact hq ⟨_, hroot, fun _ => hloop, Or.inr ⟨hsuspend, hl⟩⟩
      exact launchDelTimer_hold (l := ⟨s.objs, s.centre.timer, []⟩) hp hother
    | once hfront hp hdue hloop hsuspend => exact .refl _ q
  | @delete entry rest e hpc hact he hfront =>
    have hother := (not_aims_take hact hq).2 e (CentreState.takenCancel_eq hact he hfront)
    exact deleteEvent_hold (s := s.withActive rest) hother
  | skip hpc hact he hfront hc => exact .refl _ q
  | wakeUp hpc hact he hfront hself => exact .modify _
  | handle hpc hact he hfront hc hself => exact .refl _ q
  | handleEnd hpc he => exact .modify _

end Step

end Chaos
