import Chaos.CentreRegistry

/-!
# The timer map and the heap

What `m_timerMap` and the heap of a `Timer` say about each other. `DelTimer` erases from the map alone and
leaves the heap entry to expire with the timer, `Launch` pops and pushes in the heap alone. The owners of an
event are its registry entries, so that an erased timer expires unless the user has it too.
-/
namespace Chaos.TimerRegistry

open GuardedRuns KeyLists Timer

/-! ## The map and the heap in agreement -/

/-- A timer in the map has one heap entry, a live heap entry is that of a timer in the map, and no entry is
there twice. -/
structure MapAndHeapAgree (s : CentreState) : Prop where
  map : ∀ entry ∈ s.centre.timer.timerMap, s.centre.timer.heap.heap.count entry.2 = 1
  heap : ∀ p ∈ s.centre.timer.heap.heap, (s.objs.store p).isSome → p ∈ s.centre.timer.timerMap.map Prod.snd
  once : s.centre.timer.heap.heap.Nodup

/-- `Launch` finds no one-shot timer due that it would activate, and `DeleteEvent` erases no timer from the
map that the user still has. -/
def agreeOk (s : CentreState) : CentreOp → Prop
  | .launchIter _ => ∀ r ∈ s.dueRoot, r.2.isSuspend = true ∨ r.2.isLoop = true
  | .take => ∀ e ∈ s.takenCancel, onTimer e.ev = true →
      ∀ q ∈ s.centre.timer.timerMap.lookup e.evKey, s.objs.held q = false
  | .object _ | .control _ | .register _ _ _ | .cancel _ | .makeWaitting | .pushActive _ _ | .handleEnd => True

instance (s : CentreState) : (op : CentreOp) → Decidable (agreeOk s op)
  | .launchIter _ => inferInstanceAs (Decidable (∀ r ∈ s.dueRoot, _))
  | .take => inferInstanceAs (Decidable (∀ e ∈ s.takenCancel, _))
  | .object _ | .control _ | .register _ _ _ | .cancel _ | .makeWaitting | .pushActive _ _ | .handleEnd =>
    isTrue trivial

/-! ## Owners -/

/-- The owners of the events are the entries of a list, and what has an owner is there. -/
structure Owned (o : Objects) (entries : List ℕ) : Prop where
  owned : ∀ p, o.owned p = entries.count p
  alive : ∀ p ∈ entries, (o.store p).isSome

section Owners
variable {o o' : Objects} {entries entries' : List ℕ} {p q : ℕ}

theorem Owned.of_hold (h : Owned o entries) (hhold : ∀ q, SameHold o o' q) : Owned o' entries := by
  constructor
  · intro q
    rw [(hhold q).owned]
    exact h.owned q
  · intro q hq
    rw [(hhold q).alive]
    exact h.alive q hq

theorem Owned.add (h : Owned o entries) (hp : (o.store p).isSome) (hentries : entries'.Perm (p :: entries)) :
    Owned (o.addOwner p) entries' := by
  constructor
  · intro q
    rw [hentries.count_eq, List.count_cons, ← h.owned q]
    rcases eq_or_ne q p with rfl | hne
    · simp [Objects.addOwner]
    · simp [Objects.addOwner, hne, hne.symm]
  · intro q hq
    rcases List.mem_cons.mp (hentries.mem_iff.mp hq) with rfl | hq
    · exact hp
    · exact h.alive q hq

theorem Owned.drop (h : Owned o entries) (hentries : entries.Perm (p :: entries')) :
    Owned (o.dropOwner p) entries' := by
  constructor
  · intro q
    have hcount := h.owned q
    rw [hentries.count_eq, List.count_cons] at hcount
    rcases eq_or_ne q p with rfl | hne
    · simp [Objects.dropOwner, hcount]
    · simpa [Objects.dropOwner, hne, hne.symm] using hcount
  · intro q hq
    exact h.alive q (hentries.mem_iff.mpr (List.mem_cons_of_mem _ hq))

/-- What is released has no owner. -/
theorem Owned.release (h : Owned o entries) (p : ℕ) : Owned (o.release p) entries := by
  constructor
  · intro q
    rw [Objects.release_owned]
    exact h.owned q
  · intro q hq
    rw [Objects.release]
    split_ifs with hfree
    · rcases eq_or_ne q p with rfl | hne
      · rw [h.owned q] at hfree
        exact absurd hfree.2 (List.count_pos_iff.mpr hq).ne'
      · simpa [hne] using h.alive q hq
    · exact h.alive q hq

/-- An erased entry lets go of its event. -/
theorem Owned.erase (h : Owned o entries) (hentries : entries.Perm (p :: entries')) (curTimers : ℕ) :
    Owned ({ o.dropOwner p with curTimers := curTimers }.release p) entries' := by
  have hdrop := h.drop hentries
  have hcounter : Owned { o.dropOwner p with curTimers := curTimers } entries' := ⟨hdrop.owned, hdrop.alive⟩
  exact hcounter.release p

end Owners

/-! ## The map and the heap of one timer -/

/-- The entries of the heap are distinct, and the live ones are those of the map. -/
structure Matched (o : Objects) (t : Timer) : Prop where
  once : t.heap.heap.Nodup
  live : ∀ p, (o.store p).isSome → (p ∈ t.heap.heap ↔ p ∈ t.timerMap.map Prod.snd)

section Timer
variable {o o' : Objects} {t : Timer} {k p : ℕ}

theorem Matched.of_store (h : Matched o t) (hstore : ∀ q, (o'.store q).isSome → (o.store q).isSome) :
    Matched o' t := by
  constructor
  · exact h.once
  · intro q hq
    exact h.live q (hstore q hq)

theorem Matched.push (h : Matched o t) (hp : (o.store p).isSome) (hnew : p ∉ t.timerMap.map Prod.snd) :
    Matched o { t.push o' p with timerMap := (k, p) :: t.timerMap } := by
  have hperm : (t.push o' p).heap.heap.Perm (p :: t.heap.heap) := MinHeap.perm_push _ t.heap p
  constructor
  · rw [hperm.nodup_iff, List.nodup_cons, h.live p hp]
    exact ⟨hnew, h.once⟩
  · intro q hq
    rw [hperm.mem_iff, List.mem_cons, List.map_cons, List.mem_cons, h.live q hq]

theorem Matched.pop_expired (h : Matched o t) (hfront : t.heap.front = some p) (hp : o.store p = none) :
    Matched o (t.pop o) := by
  constructor
  · exact nodup_pop hfront h.once
  · intro q hq
    have hne : q ≠ p := by
      rintro rfl
      rw [hp] at hq
      cases hq
    rw [mem_pop_iff hfront h.once, and_iff_left hne]
    exact h.live q hq

theorem Matched.loop {l : LaunchState} {clk : ℕ} (h : Matched l.objs l.timer)
    (hfront : l.timer.heap.front = some p) :
    Matched (launchLoopTimer clk l p).objs (launchLoopTimer clk l p).timer := by
  have hperm := @perm_launchLoopTimer p l clk hfront
  constructor
  · exact hperm.nodup_iff.mpr h.once
  · intro q hq
    have hold : (l.objs.store q).isSome := by
      rw [← (SameHold.modify (o := l.objs) (p := p) _).alive]
      exact hq
    rw [hperm.mem_iff]
    exact h.live q hold

/-- The entries of the map that an erased key leaves. -/
theorem perm_values (hkeys : KeysNodup t.timerMap) (hl : t.timerMap.lookup k = some p) :
    (t.timerMap.map Prod.snd).Perm (p :: (eraseKey t.timerMap k).map Prod.snd) :=
  (perm_eraseKey hkeys hl).map Prod.snd

end Timer

/-! ## Steps -/

/-- The owners of events in the registries of a centre. -/
def owners (c : EventCentre) : List ℕ := c.events.map Prod.snd ++ c.timer.timerMap.map Prod.snd

structure Agree (s : CentreState) : Prop where
  owned : Owned s.objs (owners s.centre)
  matched : Matched s.objs s.centre.timer

section Step
variable {s t : CentreState} {p : ℕ}

theorem Agree.of_hold {o : Objects} (h : Agree s) (hhold : ∀ q, SameHold s.objs o q) :
    Agree { s with objs := o } := by
  constructor
  · exact h.owned.of_hold hhold
  · apply h.matched.of_store
    intro q hq
    exact (hhold q).alive ▸ hq

theorem Agree.drop (h : Agree s) (p : ℕ) : Agree { s with objs := s.objs.drop p } := by
  constructor
  · have hheld : Owned { s.objs with held := Function.update s.objs.held p false } (owners s.centre) :=
      ⟨h.owned.owned, h.owned.alive⟩
    exact hheld.release p
  · apply h.matched.of_store
    intro q hq
    rcases s.objs.drop_store p q with hstore | ⟨_, hstore⟩
    · exact hstore ▸ hq
    · rw [hstore] at hq
      cases hq

theorem Agree.afterRegister (h : Agree s) (p : ℕ) (keep : Bool) : Agree (s.afterRegister p keep) := by
  rw [CentreState.afterRegister]
  split_ifs
  · exact h
  · exact h.drop p

theorem Agree.create (hinv : RegistryInv s) (h : Agree s) (e : Event) :
    Agree { s with objs := s.objs.create e } := by
  have hstore : ∀ q, q ≠ s.objs.fresh → (s.objs.create e).store q = s.objs.store q := fun q hq =>
    Function.update_of_ne hq ..
  constructor
  · constructor
    · exact h.owned.owned
    · intro q hq
      rcases eq_or_ne q s.objs.fresh with rfl | hne
      · simp [Objects.create]
      · rw [hstore q hne]
        exact h.owned.alive q hq
  · constructor
    · exact h.matched.once
    · intro q hq
      rcases eq_or_ne q s.objs.fresh with rfl | hne
      · have hunused : ¬ InUse s s.objs.fresh := fun huse => lt_irrefl _ (hinv.below _ huse)
        have hmap : s.objs.fresh ∉ s.centre.timer.timerMap.map Prod.snd := by
          intro hmem
          obtain ⟨⟨k, q⟩, hentry, rfl⟩ := List.mem_map.mp hmem
          exact hunused (.timer hentry)
        exact iff_of_false (fun hheap => hunused (.heap hheap)) hmap
      · rw [hstore q hne] at hq
        exact h.matched.live q hq

theorem Agree.registerIo {e : Event} (h : Agree s) (he : s.objs.store p = some e) (self : ℕ) :
    Agree (s.registeredIo self p e) := by
  have hadd : Agree { s with
      objs := s.objs.addOwner p
      centre := { s.centre with
        events := (e.evKey, p) :: s.centre.events
        eventsNum := intAdd s.centre.eventsNum 1 } } := by
    constructor
    · exact h.owned.add (by simp [he]) (List.Perm.refl _)
    · exact ⟨h.matched.once, h.matched.live⟩
  exact hadd.of_hold fun q => .modify _

/-- The key of a timer is not in the map under another key. -/
theorem not_mem_of_key {e : Event} (hinv : RegistryInv s) (he : s.objs.store p = some e)
    {m : List (ℕ × ℕ)} (hm : ∀ entry ∈ m, entry ∈ s.centre.timer.timerMap ∧ entry.1 ≠ e.evKey) :
    p ∉ m.map Prod.snd := by
  intro hmem
  obtain ⟨⟨k, q⟩, hentry, rfl⟩ := List.mem_map.mp hmem
  obtain ⟨hold, hne⟩ := hm _ hentry
  exact hne (hinv.timerKey k q hold e he).1.symm

theorem Agree.registerTimer {e : Event} (hinv : RegistryInv s) (h : Agree s) (he : s.objs.store p = some e)
    (hkey : s.centre.timer.timerMap.lookup e.evKey = none) (self : ℕ) : Agree (s.registeredTimer self p e) := by
  have hnew : p ∉ s.centre.timer.timerMap.map Prod.snd := by
    apply not_mem_of_key hinv he
    rintro ⟨k, q⟩ hentry
    refine ⟨hentry, ?_⟩
    rintro rfl
    exact not_mem_of_lookup hkey q hentry
  have hadd : Agree { s with
      objs := { s.objs.addOwner p with curTimers := Word32.add32 s.objs.curTimers 1 }
      centre := { s.centre with
        timer := { s.centre.timer.push s.objs p with timerMap := (e.evKey, p) :: s.centre.timer.timerMap }
        eventFd := s.centre.eventFd + 1
        eventsNum := intAdd s.centre.eventsNum 1 } } := by
    constructor
    · have howned : Owned (s.objs.addOwner p)
          (s.centre.events.map Prod.snd ++ p :: s.centre.timer.timerMap.map Prod.snd) :=
        h.owned.add (by simp [he]) List.perm_middle
      exact ⟨howned.owned, howned.alive⟩
    · exact (h.matched.push (by simp [he]) hnew).of_store fun q hq => hq
  exact hadd.of_hold fun q => .modify _

/-- A timer in the map has no other owner. -/
theorem owned_timer {k : ℕ} (hinv : RegistryInv s) (h : Agree s) (hmem : (k, p) ∈ s.centre.timer.timerMap) :
    s.objs.owned p = 1 := by
  have hmap : p ∈ s.centre.timer.timerMap.map Prod.snd := List.mem_map_of_mem hmem
  obtain ⟨e, he⟩ := Option.isSome_iff_exists.mp (h.owned.alive p (List.mem_append_right _ hmap))
  obtain ⟨hkey, htimer⟩ := hinv.timerKey k p hmem e he
  have hevents : p ∉ s.centre.events.map Prod.snd := by
    intro hevent
    obtain ⟨⟨k', q⟩, hentry, rfl⟩ := List.mem_map.mp hevent
    have hoff := (hinv.eventKey k' q hentry e he).2
    rw [htimer] at hoff
    cases hoff
  have hrest : p ∉ (eraseKey s.centre.timer.timerMap e.evKey).map Prod.snd :=
    not_mem_of_key hinv he fun entry hentry => mem_eraseKey.mp hentry
  have hperm := perm_values hinv.timers (lookup_of_mem hinv.timers (hkey ▸ hmem))
  rw [h.owned.owned, owners, List.count_append, List.count_eq_zero_of_not_mem hevents, hperm.count_eq,
    List.count_cons_self, List.count_eq_zero_of_not_mem hrest]

/-- A timer that is erased from the map goes when the user does not have it. -/
theorem Agree.eraseTimer {k : ℕ} {curTimers : ℕ} (hinv : RegistryInv s) (h : Agree s)
    (hl : s.centre.timer.timerMap.lookup k = some p) (hheld : s.objs.held p = false) (eventsNum : ℤ) :
    Agree { s with
      objs := { s.objs.dropOwner p with curTimers := curTimers }.release p
      centre := { s.centre with
        timer := { s.centre.timer with timerMap := eraseKey s.centre.timer.timerMap k }
        eventsNum := eventsNum } } := by
  have hperm := perm_values hinv.timers hl
  have hgone : ({ s.objs.dropOwner p with curTimers := curTimers }.release p).store p = none := by
    have hlast : ({ s.objs.dropOwner p with curTimers := curTimers } : Objects).owned p = 0 := by
      simp [Objects.dropOwner, owned_timer hinv h (mem_of_lookup hl)]
    rw [Objects.release, if_pos ⟨hheld, hlast⟩]
    exact Function.update_self ..
  constructor
  · exact h.owned.erase ((hperm.append_left _).trans List.perm_middle) curTimers
  · constructor
    · exact h.matched.once
    · intro q hq
      have hne : q ≠ p := by
        rintro rfl
        rw [hgone] at hq
        cases hq
      rw [Objects.release_store_of_ne _ p q hne] at hq
      rw [h.matched.live q hq, hperm.mem_iff, List.mem_cons, or_iff_right hne]

theorem Agree.eraseEvent {k : ℕ} {curTimers : ℕ} (hinv : RegistryInv s) (h : Agree s)
    (hl : s.centre.events.lookup k = some p) (eventsNum : ℤ) :
    Agree { s with
      objs := { s.objs.dropOwner p with curTimers := curTimers }.release p
      centre := { s.centre with events := eraseKey s.centre.events k, eventsNum := eventsNum } } := by
  have hperm : (s.centre.events.map Prod.snd).Perm (p :: (eraseKey s.centre.events k).map Prod.snd) :=
    (perm_eraseKey hinv.events hl).map Prod.snd
  constructor
  · exact h.owned.erase (hperm.append_right _) curTimers
  · apply h.matched.of_store
    intro q hq
    rcases Objects.release_store { s.objs.dropOwner p with curTimers := curTimers } p q with hstore | ⟨_, hstore⟩
    · exact hstore ▸ hq
    · rw [hstore] at hq
      cases hq

theorem Agree.deleteEvent (hinv : RegistryInv s) (h : Agree s) {e : Event} (hheld : onTimer e.ev = true →
    ∀ q ∈ s.centre.timer.timerMap.lookup e.evKey, s.objs.held q = false) : Agree (s.deleteEvent e) := by
  rw [CentreState.deleteEvent]
  split_ifs with hio htimeout
  · cases hl : s.centre.events.lookup e.evKey with
    | none =>
      simp only [CentreState.delEvent, CentreState.countDeleted, hl, Objects.releaseErased, eraseKey_of_lookup hl]
      exact ⟨h.owned, h.matched⟩
    | some q =>
      simp only [CentreState.delEvent, CentreState.countDeleted, hl, Objects.releaseErased]
      exact h.eraseEvent hinv hl _
  · have htimer : onTimer e.ev = true := by simp [onTimer, hio, htimeout]
    cases hl : s.centre.timer.timerMap.lookup e.evKey with
    | none =>
      have hmap : s.centre.timer.timerMap.filter (fun entry => entry.1 != e.evKey) = s.centre.timer.timerMap :=
        eraseKey_of_lookup hl
      simp only [CentreState.delTimer, CentreState.countDeleted, delTimer, hl, Objects.releaseErased, hmap]
      exact ⟨⟨h.owned.owned, h.owned.alive⟩, ⟨h.matched.once, h.matched.live⟩⟩
    | some q =>
      simp only [CentreState.delTimer, CentreState.countDeleted, delTimer, hl, Objects.releaseErased]
      exact h.eraseTimer hinv hl (hheld htimer q hl) _
  · exact h

/-- A pass that deletes a timer takes it out of the map and out of the heap, whether or not it goes. -/
theorem Agree.launchDelete (hinv : RegistryInv s) (h : Agree s) {e : Event}
    (hfront : s.centre.timer.heap.front = some p) (he : s.objs.store p = some e) :
    Agree (s.afterPass (launchDelTimer ⟨s.objs, s.centre.timer, []⟩ p e)) := by
  obtain ⟨xs, hxs⟩ := front_eq hfront
  have hheap : p ∈ s.centre.timer.heap.heap := by simp [hxs]
  have hmap := (h.matched.live p (by simp [he])).mp hheap
  obtain ⟨⟨k, q⟩, hentry, rfl⟩ := List.mem_map.mp hmap
  have hkey : e.evKey = k := (hinv.timerKey k q hentry e he).1
  have hl : s.centre.timer.timerMap.lookup e.evKey = some q := lookup_of_mem hinv.timers (hkey ▸ hentry)
  have hperm := perm_values hinv.timers hl
  have hrest : q ∉ (eraseKey s.centre.timer.timerMap e.evKey).map Prod.snd :=
    not_mem_of_key hinv he fun entry hmem => mem_eraseKey.mp hmem
  obtain ⟨curTimers, hobjs⟩ := launchDelTimer_objs (l := ⟨s.objs, s.centre.timer, []⟩) hl
  constructor
  · rw [CentreState.afterPass, hobjs]
    exact h.owned.erase ((hperm.append_left _).trans List.perm_middle) curTimers
  · constructor
    · exact nodup_pop (t := (delTimer s.objs s.centre.timer e).2.1) hfront h.matched.once
    · intro r hr
      have hold : (s.objs.store r).isSome := by
        rcases launchDelTimer_store ⟨s.objs, s.centre.timer, []⟩ q r e with hstore | hstore
        · exact hstore ▸ hr
        · rw [CentreState.afterPass, hstore] at hr
          cases hr
      have hpop := mem_pop_iff (t := (delTimer s.objs s.centre.timer e).2.1)
        (o := afterErase s.objs s.centre.timer q e) hfront h.matched.once r
      refine hpop.trans ?_
      rcases eq_or_ne r q with rfl | hne
      · exact iff_of_false (fun hmem => hmem.2 rfl) hrest
      · rw [and_iff_left hne]
        refine (h.matched.live r hold).trans ?_
        rw [hperm.mem_iff, List.mem_cons, or_iff_right hne]
        rfl

theorem RegistryInv.withActive (h : RegistryInv s) {entry : Entry} {rest : List Entry}
    (hact : s.centre.activeEvs = entry :: rest) : RegistryInv (s.withActive rest) where
  toKeysInv := ⟨h.events, h.timers⟩
  eventKey := h.eventKey
  timerKey := h.timerKey
  mask := h.mask
  below p hp := by
    apply h.below
    cases hp with
    | alive he => exact .alive he
    | event hmem => exact .event hmem
    | timer hmem => exact .timer hmem
    | heap hmem => exact .heap hmem
    | @entry b hpending =>
      have hmore := pending_rest hact ⟨p, b⟩
      exact @InUse.entry s p b (by omega)
    | handling hpc => exact .handling hpc

theorem Agree.launch {now clk : ℕ} {l : LaunchState} (hinv : RegistryInv s) (h : Agree s)
    (hok : agreeOk s (.launchIter clk)) (hpc : s.centre.pc = .launch now)
    (hl : LaunchPass now clk ⟨s.objs, s.centre.timer, []⟩ l) : Agree (s.afterPass l) := by
  cases hl with
  | expired hfront hp => exact ⟨h.owned, h.matched.pop_expired hfront hp⟩
  | @rearm p e hfront hp hdue hloop =>
    constructor
    · exact h.owned.of_hold fun q => .modify _
    · exact h.matched.loop (l := ⟨s.objs, s.centre.timer, _⟩) hfront
  | @delete p e hfront hp hdue hloop hsuspend => exact h.launchDelete hinv hfront hp
  | @once p e hfront hp hdue hloop hsuspend =>
    rcases hok (p, e) (CentreState.dueRoot_eq hpc hfront hp hdue) with hsuspended | hlooped
    · rw [hsuspend] at hsuspended
      cases hsuspended
    · rw [hloop] at hlooped
      cases hlooped

end Step

theorem agree_step {n self : ℕ} {s t : CentreState} {op : CentreOp} (hinv : RegistryInv s) (h : Agree s)
    (hok : agreeOk s op) (ht : CentrePass n self s op t) : Agree t := by
  cases ht with
  | object hobj =>
    cases hobj with
    | create => exact h.create hinv _
    | drop hp => exact h.drop _
    | modify hp hsame => exact h.of_hold fun q => .modify _
  | control hc =>
    obtain ⟨running, eventFd, pc, rfl, _⟩ := controlStep_eq hc
    exact ⟨h.owned, h.matched⟩
  | refused hp => exact h.afterRegister _ _
  | registerIo hp hheld he hc hio hkey => exact (h.registerIo he self).afterRegister _ _
  | registerTimer hp hheld he hc htimer hkey => exact (h.registerTimer hinv he hkey self).afterRegister _ _
  | ignored hnot => exact h
  | unmarked he hm => exact h.of_hold fun q => .modify _
  | @cancel p e hp hpc he hc =>
    have hobjs : Agree { s with objs := (s.afterCancel p).objs } :=
      h.of_hold fun q => (SameHold.modify _).trans (.modify _)
    exact ⟨hobjs.owned, hobjs.matched⟩
  | makeWaitting hpc => exact ⟨h.owned, h.matched⟩
  | notActive => exact h
  | @pushActive fd p ev e hpc hio hfd he hc =>
    have hobjs : Agree { s with objs := (s.afterPush p ev).objs } := h.of_hold fun q => .modify _
    exact ⟨hobjs.owned, hobjs.matched⟩
  | launch hpc hl => exact h.launch hinv hok hpc hl
  | @delete entry rest e hpc hact he hfront =>
    have hrest : Agree (s.withActive rest) := ⟨h.owned, h.matched⟩
    have htaken := CentreState.takenCancel_eq hact he hfront
    exact hrest.deleteEvent (RegistryInv.withActive hinv hact) fun htimer => hok e htaken htimer
  | skip hpc hact he hfront hc => exact ⟨h.owned, h.matched⟩
  | @wakeUp entry rest e hpc hact he hfront hself =>
    have hobjs : Agree { s with objs := s.objs.modify entry.ev Event.popCurEv } := h.of_hold fun q => .modify _
    exact ⟨hobjs.owned, hobjs.matched⟩
  | handle hpc hact he hfront hc hself => exact ⟨h.owned, h.matched⟩
  | @handleEnd p e hpc he =>
    have hobjs : Agree { s with objs := s.objs.modify p Event.popCurEv } := h.of_hold fun q => .modify _
    exact ⟨hobjs.owned, hobjs.matched⟩

theorem agree_start (fd : ℕ) : Agree (.start fd) := by
  constructor
  · constructor
    · intro p
      rcases Nat.eq_zero_or_pos p with rfl | hp
      · rfl
      · simp [owners, CentreState.start, startObjects, EventCentre.new, Timer.new, hp.ne', hp.ne]
    · intro p hp
      obtain rfl : p = 0 := by simpa [owners, CentreState.start, EventCentre.new, Timer.new] using hp
      rfl
  · constructor
    · exact List.nodup_nil
    · intro p _
      exact Iff.rfl

/-! ## Runs -/

theorem Agree.mapAndHeapAgree {s : CentreState} (h : Agree s) : MapAndHeapAgree s := by
  constructor
  · rintro ⟨k, p⟩ hentry
    have hmap : p ∈ s.centre.timer.timerMap.map Prod.snd := List.mem_map_of_mem hentry
    have halive := h.owned.alive p (List.mem_append_right _ hmap)
    exact List.count_eq_one_of_mem h.matched.once ((h.matched.live p halive).mpr hmap)
  · intro p hheap halive
    exact (h.matched.live p halive).mp hheap
  · exact h.matched.once

/-- Map and heap agree in every state of a run in which no one-shot timer is activated and no timer that
the user still has is erased from the map. -/
theorem map_and_heap_agree {fd : ℕ} {ops : List CentreOp} {s : CentreState}
    (hrun : exec (centreStep 1 0) (.start fd) ops = some s)
    (hok : Guarded (centreStep 1 0) agreeOk (.start fd) ops) : MapAndHeapAgree s := by
  have hkept : ∀ s op t, RegistryInv s ∧ Agree s → agreeOk s op → centreStep 1 0 s op = some t →
      RegistryInv t ∧ Agree t := by
    intro s op t h hok hstep
    have ht := centrePass_of_centreStep hstep
    exact ⟨registryInv_step h.1 ht, agree_step h.1 h.2 hok ht⟩
  have hboth : RegistryInv s ∧ Agree s :=
    invariant_of_guarded hkept ⟨registryInv_start fd, agree_start fd⟩ hok hrun
  exact hboth.2.mapAndHeapAgree

/-- A periodic timer fires twice, a suspended one-shot timer is deleted by `Launch`, and the handler of the
periodic timer cancels it in the end. -/
def agreeSample : List CentreOp :=
  [.object (.create evTimeout 1 5 0 true), .register 1 false true, .object (.create evTimeout 2 5 0 false),
    .register 2 true true, .object (.suspend 2 true), .control .start, .makeWaitting, .control (.calcTimeout 0),
    .control .pollReturn, .control (.launchBegin 10), .launchIter 10, .launchIter 10, .control .launchEnd,
    .control .processBegin, .take, .handleEnd, .control .processEnd, .makeWaitting,
    .control (.calcTimeout 11), .control .pollReturn, .control (.launchBegin 16), .launchIter 16,
    .control .launchEnd, .control .processBegin, .take, .cancel 1, .handleEnd, .control .processEnd, .makeWaitting,
    .control (.calcTimeout 16), .control .pollReturn, .control (.launchBegin 16), .control .launchEnd,
    .control .processBegin, .take]

def agreeSampleEnd : CentreState := (exec (centreStep 1 0) (.start 3) agreeSample).get (by decide +kernel)

theorem map_and_heap_agree_sample : MapAndHeapAgree agreeSampleEnd :=
  map_and_heap_agree (Option.some_get _).symm
    (by decide +kernel : Guarded (centreStep 1 0) agreeOk (.start 3) agreeSample)

/-- A one-shot timer fires and is handled: it is left in the map without a heap entry. -/
def firedSample : List CentreOp :=
  [.object (.create evTimeout 1 5 0 false), .register 1 false true, .control .start, .makeWaitting,
    .control (.calcTimeout 0), .control .pollReturn, .control (.launchBegin 10), .launchIter 10,
    .control .launchEnd, .control .processBegin, .take, .handleEnd, .control .processEnd]

theorem not_map_and_heap_agree :
    ¬ ∀ (fd : ℕ) (ops : List CentreOp) (s : CentreState), exec (centreStep 1 0) (.start fd) ops = some s →
      s.centre.pc = .top → MapAndHeapAgree s := by
  intro h
  have hagree := h 3 firedSample _ (Option.some_get (by decide +kernel)).symm (by decide +kernel)
  have hcount := hagree.map (1, 1) (by decide +kernel)
  revert hcount
  decide +kernel

end Chaos.TimerRegistry
