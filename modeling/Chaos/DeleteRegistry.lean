import Chaos.WorldRegistry

/-!
# The registry that `DeleteEvent` looks in

`RegisterEvent` and `DeleteEvent` of `net/Event.cpp` choose between `m_events` and `m_timerMap` by the mask
of the event, and `EnableEvent` and `DisableEvent` change the mask in between. A run is followed from the
registration of an event: its mask is what the calls made of the mask it had then, and `DeleteEvent` finds
the registry again as long as the calls leave one bit of `IO_CARE_EVENT`.
-/
namespace Chaos.DeleteRegistry

open EventCounters GuardedRuns KeyLists

inductive Registry where
  | events
  | timers
  deriving DecidableEq, Repr

/-- `m_events` or `m_timerMap`. -/
def entries (c : EventCentre) : Registry → List (ℕ × ℕ)
  | .events => c.events
  | .timers => c.timer.timerMap

/-- The test of both functions. -/
def registryOf (ev : EvMask) : Option Registry :=
  if ev.meets ioCareEvent then some .events
  else if ev.meets timeoutCartEvent then some .timers
  else none

/-- `EventCentre::DeleteEvent` with what it returns. -/
def deleteEventRet (s : CentreState) (e : Event) : ℤ × CentreState :=
  if e.ev.meets ioCareEvent then (0, (s.delEvent e).countDeleted)
  else if e.ev.meets timeoutCartEvent then (0, (s.delTimer e).countDeleted)
  else (-1, s)

theorem deleteEventRet_state (s : CentreState) (e : Event) :
    (deleteEventRet s e).2 = s.deleteEvent e := by
  rw [deleteEventRet, CentreState.deleteEvent]
  split_ifs <;> rfl

theorem deleteEventRet_ret (s : CentreState) (e : Event) :
    (deleteEventRet s e).1 = if (registryOf e.ev).isSome then 0 else -1 := by
  rw [deleteEventRet, registryOf]
  split_ifs <;> simp_all

/-! ## Calls of `EnableEvent` and `DisableEvent` -/

abbrev Call := EventUpdateOp × EvMask

/-- The mask after the calls. -/
def maskAfter (ev : EvMask) (calls : List Call) : EvMask :=
  calls.foldl (fun ev c => c.1.apply ev (ioValid c.2)) ev

/-- The last call that names the bit is an `EnableEvent`; the bit was as `was` says before the calls. -/
def lastEnabled (bit : EvMask) (was : Bool) (calls : List Call) : Bool :=
  calls.foldl (fun b c => if c.2.meets bit then decide (c.1 = .add) else b) was

/-- The calls leave a bit of `IO_CARE_EVENT`. -/
def careLeft (ev : EvMask) (calls : List Call) : Bool :=
  [evIoread, evIowrite, evIoexcept].any fun bit => lastEnabled bit (ev.meets bit) calls

theorem meets_maskAfter {bit : EvMask} (hbit : bit ∈ [evIoread, evIowrite, evIoexcept]) (ev : EvMask)
    (calls : List Call) : (maskAfter ev calls).meets bit = lastEnabled bit (ev.meets bit) calls := by
  induction calls generalizing ev with
  | nil => rfl
  | cons c calls ih =>
    rw [maskAfter, List.foldl_cons, lastEnabled, List.foldl_cons, ← meets_apply_ioValid hbit c.1 ev c.2]
    exact ih _

theorem meets_io_maskAfter (ev : EvMask) (calls : List Call) :
    (maskAfter ev calls).meets ioCareEvent = careLeft ev calls := by
  rw [ioCareEvent, meets_or_mask, meets_or_mask, meets_maskAfter (by simp), meets_maskAfter (by simp),
    meets_maskAfter (by simp)]
  simp [careLeft, Bool.or_assoc]

theorem maskAfter_append (ev : EvMask) (calls calls' : List Call) :
    maskAfter ev (calls ++ calls') = maskAfter (maskAfter ev calls) calls' := List.foldl_append

/-! ## The mask along a run -/

section
variable {n : ℕ}

/-- The call that a step makes on the event at `p`; without a centre `UpdateEvent` returns at once. -/
def callsOn (p : ℕ) (w : World n) : WorldOp n → List Call
  | .centre _ (.object (.update q op ev)) =>
    if q = p ∧ (w.objs.store q).any (fun e => e.centre.isSome) then [(op, ev)] else []
  | _ => []

/-- The calls on the event at `p` in a run. -/
def callsIn (p : ℕ) : World n → List (WorldOp n) → List Call
  | _, [] => []
  | w, op :: ops => callsOn p w op ++ match worldStep w op with
    | none => []
    | some v => callsIn p v ops

end

/-- The key and the kind of the mask are kept, and the mask is what the calls made of it. -/
structure Called (calls : List Call) (e e' : Event) : Prop extends SameMask e e' where
  ev : e'.ev = maskAfter e.ev calls

theorem Called.trans {calls calls' : List Call} {e e' e'' : Event} (h : Called calls e e')
    (h' : Called calls' e' e'') : Called (calls ++ calls') e e'' where
  toSameMask := h.toSameMask.trans h'.toSameMask
  ev := by rw [h'.ev, h.ev, maskAfter_append]

/-- The mask is the same. -/
def SameEv (e e' : Event) : Prop := e'.ev = e.ev

section Objects
variable {o o' : Objects} {p q : ℕ}

theorem keptEv_modify {f : Event → Event} (h : ∀ e, (f e).ev = e.ev) (p q : ℕ) :
    Kept SameEv o (o.modify q f) p := by
  rcases eq_or_ne p q with rfl | hne
  · exact .modify_self fun e _ => h e
  · exact .of_store_refl (fun _ => rfl) (Or.inl (o.modify_of_ne q p f hne))

theorem keptEv_of_store (h : o'.store p = o.store p ∨ o'.store p = none) : Kept SameEv o o' p :=
  .of_store_refl (fun _ => rfl) h

theorem SameEv.trans {e e' e'' : Event} (h : SameEv e e') (h' : SameEv e' e'') : SameEv e e'' := Eq.trans h' h

theorem keptEv_drop (o : Objects) (p q : ℕ) : Kept SameEv o (o.drop q) p :=
  keptEv_of_store ((o.drop_store q p).imp_right And.right)

/-- Only `EnableEvent` and `DisableEvent` change a mask. -/
theorem keptEv_objectStep {n : ℕ} {op : ObjectOp} (h : objectStep n o op = some o')
    (hp : p < o.fresh) : Kept (fun e e' => e'.ev = match op with
      | .update q c ev => if q = p ∧ e.centre.isSome then c.apply e.ev (ioValid ev) else e.ev
      | _ => e.ev) o o' p := by
  cases op with
  | create ev evKey timeoutMs clk isLoop =>
    obtain rfl := Option.some.inj h
    exact keptEv_of_store (Or.inl (Function.update_of_ne hp.ne ..))
  | drop q =>
    simp only [objectStep, Option.ite_none_right_eq_some, Option.some.injEq] at h
    obtain ⟨_, rfl⟩ := h
    exact keptEv_drop o p q
  | suspend q b =>
    simp only [objectStep, Option.ite_none_right_eq_some, Option.some.injEq] at h
    obtain ⟨_, rfl⟩ := h
    exact keptEv_modify (f := fun e => { e with isSuspend := b }) (fun _ => rfl) p q
  | setLoop q b =>
    simp only [objectStep, Option.ite_none_right_eq_some, Option.some.injEq] at h
    obtain ⟨_, rfl⟩ := h
    exact keptEv_modify (f := fun e => { e with isLoop := b }) (fun _ => rfl) p q
  | update q op ev =>
    simp only [objectStep, Option.ite_none_right_eq_some, Option.some.injEq] at h
    obtain ⟨_, rfl⟩ := h
    rcases eq_or_ne p q with rfl | hne
    · refine .modify_self fun e _ => ?_
      rw [Event.updateEvent]
      split_ifs <;> simp_all
    · have hother : ¬ q = p := fun h => hne h.symm
      simp only [hother, false_and, if_false]
      exact keptEv_of_store (Or.inl (o.modify_of_ne q p _ hne))

end Objects

section Step
variable {n self : ℕ} {s t : CentreState} {op : CentreOp}

theorem keptEv_launch {now clk : ℕ} {l l' : Timer.LaunchState} (h : Timer.LaunchPass now clk l l') (p : ℕ) :
    Kept SameEv l.objs l'.objs p := by
  cases h with
  | expired hfront hp => exact keptEv_of_store (Or.inl rfl)
  | @rearm q e hfront hp hdue hloop =>
    exact keptEv_modify (f := fun e => { e with nextTime := clk + e.timeoutMs }) (fun _ => rfl) p q
  | @delete q e hfront hp hdue hloop hsuspend =>
    exact keptEv_of_store (Timer.launchDelTimer_store l q p e)
  | once hfront hp hdue hloop hsuspend => exact keptEv_of_store (Or.inl rfl)

theorem keptEv_afterRegister (s : CentreState) (p q : ℕ) (keep : Bool) :
    Kept SameEv s.objs (s.afterRegister q keep).objs p := by
  rw [CentreState.afterRegister]
  split_ifs
  · exact keptEv_of_store (Or.inl rfl)
  · exact keptEv_drop s.objs p q

theorem keptEv_setCentre (o : Objects) (p q : ℕ) (centre : Option ℕ) :
    Kept SameEv o (o.setCentre q centre) p :=
  keptEv_modify (f := fun e => { e with centre := centre }) (fun _ => rfl) p q

theorem keptEv_pushCurEv (o : Objects) (p q : ℕ) (ev : EvMask) :
    Kept SameEv o (o.modify q fun e => e.pushCurEv ev) p :=
  keptEv_modify (f := fun e => e.pushCurEv ev) (fun _ => rfl) p q

theorem keptEv_popCurEv (o : Objects) (p q : ℕ) : Kept SameEv o (o.modify q Event.popCurEv) p :=
  keptEv_modify (f := Event.popCurEv) (fun _ => rfl) p q

/-- A step that is not the user's own keeps every mask. -/
theorem keptEv_step (ht : CentrePass n self s op t) (hop : ∀ o, op ≠ .object o) (p : ℕ) :
    Kept SameEv s.objs t.objs p := by
  cases ht with
  | object _ => exact absurd rfl (hop _)
  | @refused q keep => exact keptEv_afterRegister s p q keep
  | @registerIo q keep registFd e =>
    have hreg : Kept SameEv s.objs (s.registeredIo self q e).objs p :=
      keptEv_setCentre (s.objs.addOwner q) p q (some self)
    exact .comp .trans hreg (keptEv_afterRegister _ p q keep)
  | @registerTimer q keep registFd e =>
    have hreg : Kept SameEv s.objs (s.registeredTimer self q e).objs p :=
      keptEv_setCentre { s.objs.addOwner q with curTimers := _ } p q (some self)
    exact .comp .trans hreg (keptEv_afterRegister _ p q keep)
  | unmarked he hm => exact keptEv_setCentre s.objs p _ none
  | @cancel q e hp hpc he hc =>
    exact .comp .trans (keptEv_pushCurEv s.objs p q evCancel) (keptEv_setCentre _ p q none)
  | pushActive hpc hio hfd he hc => exact keptEv_pushCurEv s.objs p _ _
  | launch hpc hl => exact keptEv_launch hl p
  | @delete entry rest e hpc hact he hfront =>
    exact keptEv_of_store (deleteEvent_store (s := s.withActive rest) e)
  | wakeUp hpc hact he hfront hself => exact keptEv_popCurEv s.objs p _
  | handleEnd hpc he => exact keptEv_popCurEv s.objs p _
  | _ => exact keptEv_of_store (Or.inl rfl)

end Step

section Runs
variable {n : ℕ} {w u v : World n} {p : ℕ}

/-- The step lemma for the mask of an object that exists. -/
theorem called_step {op : WorldOp n} (hp : p < w.objs.fresh)
    (hv : worldStep w op = some v) : Kept (Called (callsOn p w op)) w.objs v.objs p := by
  rw [worldStep_eq] at hv
  obtain ⟨⟨i, cop⟩, hact, hstep⟩ := Option.bind_eq_some_iff.mp hv
  obtain ⟨t, ht, rfl⟩ := Option.map_eq_some_iff.mp hstep
  have hpass := centrePass_of_centreStep ht
  have hsame : Kept SameMask w.objs t.objs p := keptMask_of_below hpass hp
  intro e' he'
  obtain ⟨e, he, hmask⟩ := hsame e' he'
  refine ⟨e, he, hmask, ?_⟩
  by_cases hobj : ∃ o, cop = .object o
  · obtain ⟨o, rfl⟩ := hobj
    have hop : op = .centre i (.object o) := by
      cases op with
      | centre j c =>
        obtain ⟨rfl, rfl⟩ := Prod.mk.inj (Option.some.inj hact)
        rfl
      | poolRegister q keep registFd =>
        obtain ⟨j, _, hj⟩ := Option.map_eq_some_iff.mp hact
        cases (Prod.mk.inj hj).2
    subst hop
    simp only [centreStep, Option.map_eq_some_iff] at ht
    obtain ⟨o', ho', rfl⟩ := ht
    obtain ⟨e₂, he₂, hev⟩ := keptEv_objectStep ho' hp e' he'
    obtain rfl := Option.some.inj (he.symm.trans he₂)
    cases o with
    | update q c ev =>
      simp only [callsOn]
      rcases eq_or_ne q p with rfl | hne
      · simp only [he, true_and, Option.any_some] at hev ⊢
        rw [hev]
        split_ifs <;> rfl
      · simpa [hne, maskAfter] using hev
    | _ => exact hev
  · have hcalls : callsOn p w op = [] := by
      cases op with
      | centre j c =>
        obtain ⟨rfl, rfl⟩ := Prod.mk.inj (Option.some.inj hact)
        cases c with
        | object o => exact absurd ⟨o, rfl⟩ hobj
        | _ => rfl
      | poolRegister q keep registFd => rfl
    obtain ⟨e₂, he₂, hev⟩ := keptEv_step hpass (fun o ho => hobj ⟨o, ho⟩) p e' he'
    obtain rfl := Option.some.inj (he.symm.trans he₂)
    rw [hcalls]
    exact hev

theorem fresh_worldStep {op : WorldOp n} (hv : worldStep w op = some v) : w.objs.fresh ≤ v.objs.fresh := by
  rw [worldStep_eq] at hv
  obtain ⟨r, _, hstep⟩ := Option.bind_eq_some_iff.mp hv
  obtain ⟨t, ht, rfl⟩ := Option.map_eq_some_iff.mp hstep
  exact fresh_step (centrePass_of_centreStep ht)

/-- The run lemma: the mask is what the calls of the run made of it. -/
theorem called_of_exec {ops : List (WorldOp n)} (h : WorldRegistry w) (hp : p < w.objs.fresh)
    (hv : exec worldStep w ops = some v) : Kept (Called (callsIn p w ops)) w.objs v.objs p := by
  induction ops generalizing w with
  | nil =>
    obtain rfl := Option.some.inj hv
    exact .of_store_refl (fun e => ⟨.refl e, rfl⟩) (Or.inl rfl)
  | cons op ops ih =>
    obtain ⟨u, hu, hv⟩ := exec_cons_eq_some.mp hv
    have hrest := ih (worldRegistry_step h hu) (hp.trans_le (fresh_worldStep hu)) hv
    intro e' he'
    obtain ⟨eu, heu, hlater⟩ := hrest e' he'
    obtain ⟨e, he, hfirst⟩ := called_step hp hu eu heu
    refine ⟨e, he, ?_⟩
    simp only [callsIn, hu]
    exact hfirst.trans hlater

end Runs

/-! ## The deletion -/

section Delete
variable {s : CentreState} {p : ℕ} {e : Event} {r : Registry}

/-- The registry that an event is in goes by the kind of its mask. -/
theorem kind_of_mem (h : RegistryInv s) (he : s.objs.store p = some e)
    (hmem : p ∈ (entries s.centre r).map Prod.snd) : onTimer e.ev = decide (r = .timers) := by
  obtain ⟨⟨k, q⟩, hkey, rfl⟩ := List.mem_map.mp hmem
  cases r with
  | events => exact (h.eventKey k q hkey e he).2
  | timers => exact (h.timerKey k q hkey e he).2

theorem onTimer_of_registryOf {ev : EvMask} (h : registryOf ev = some r) : onTimer ev = decide (r = .timers) := by
  rw [registryOf] at h
  split_ifs at h with hio htimeout
  · obtain rfl := Option.some.inj h
    simp [onTimer, hio]
  · obtain rfl := Option.some.inj h
    simp [onTimer, hio, htimeout]

theorem registered_iff {c : EventCentre} : c.registered p ↔ ∃ r, p ∈ (entries c r).map Prod.snd := by
  constructor
  · intro h
    exact h.elim (fun h => ⟨.events, h⟩) fun h => ⟨.timers, h⟩
  · rintro ⟨r, h⟩
    cases r with
    | events => exact Or.inl h
    | timers => exact Or.inr h

theorem not_registered_deleteEventRet (h : RegistryInv s) (he : s.objs.store p = some e)
    (hr : registryOf e.ev = some r) : ¬ (deleteEventRet s e).2.centre.registered p := by
  have hmask : e.ev.meets ioCareEvent = true ∨ e.ev.meets timeoutCartEvent = true := by
    rw [registryOf] at hr
    split_ifs at hr with hio htimeout
    · exact Or.inl hio
    · exact Or.inr htimeout
  rw [deleteEventRet_state]
  exact not_registered_deleteEvent (fun k hk => h.eventKey k p hk e he) (fun k hk => h.timerKey k p hk e he)
    hmask

/-- `DeleteEvent` does its work on the registry of the event. -/
def FindsRegistry (s : CentreState) (p : ℕ) (e : Event) (r : Registry) : Prop :=
  registryOf e.ev = some r ∧ (deleteEventRet s e).1 = 0 ∧ ¬ (deleteEventRet s e).2.centre.registered p

theorem findsRegistry_of_registryOf (h : RegistryInv s) (he : s.objs.store p = some e)
    (hr : registryOf e.ev = some r) : FindsRegistry s p e r := by
  refine ⟨hr, ?_, not_registered_deleteEventRet h he hr⟩
  rw [deleteEventRet_ret, hr]
  rfl

/-- An event in `m_events` is found while its mask has a bit of `IO_CARE_EVENT`, a timer in any case. -/
theorem findsRegistry_iff (h : RegistryInv s) (he : s.objs.store p = some e)
    (hmem : p ∈ (entries s.centre r).map Prod.snd) :
    FindsRegistry s p e r ↔ (r = .events → e.ev.meets ioCareEvent = true) := by
  have hkind := kind_of_mem h he hmem
  cases r with
  | events =>
    cases hio : e.ev.meets ioCareEvent with
    | true => exact iff_of_true (findsRegistry_of_registryOf h he (by simp [registryOf, hio])) fun _ => rfl
    | false =>
      apply iff_of_false
      · intro hfinds
        have hnone : registryOf e.ev = none := by simpa [onTimer, registryOf, hio] using hkind
        rw [FindsRegistry, hnone] at hfinds
        cases hfinds.1
      · intro hcare
        cases hcare rfl
  | timers =>
    have htimer : registryOf e.ev = some .timers := by
      simp only [onTimer, decide_true, Bool.and_eq_true, Bool.not_eq_true'] at hkind
      simp [registryOf, hkind.1, hkind.2]
    exact iff_of_true (findsRegistry_of_registryOf h he htimer) fun hr => by cases hr

end Delete

section Accepted
variable {n : ℕ} {w u v : World n} {op : WorldOp n} {i : Fin n} {p : ℕ} {keep registFd : Bool}

theorem callsOn_register (hact : acting w op = some (i, .register p keep registFd)) (q : ℕ) :
    callsOn q w op = [] := by
  cases op with
  | centre j c =>
    obtain ⟨rfl, rfl⟩ := Prod.mk.inj (Option.some.inj hact)
    rfl
  | poolRegister q' keep' registFd' => rfl

/-- A registration that is accepted puts the event into the registry of its mask. -/
theorem mem_entries_of_accepted {e : Event} (he : w.objs.store p = some e)
    (hact : acting w op = some (i, .register p keep registFd))
    (haccept : ((w.at i).registerEvent i p registFd).isSome = true) (hu : worldStep w op = some u) :
    p ∈ (entries (u.centres i) (if onTimer e.ev then .timers else .events)).map Prod.snd := by
  obtain ⟨s, hs⟩ := Option.isSome_iff_exists.mp haccept
  rw [worldStep_eq, hact, Option.bind_some, Option.map_eq_some_iff] at hu
  obtain ⟨t, ht, rfl⟩ := hu
  simp only [centreStep, hs, Option.getD_some, Option.ite_none_right_eq_some, Option.some.injEq] at ht
  obtain ⟨_, rfl⟩ := ht
  have hcentre : (w.set i (s.afterRegister p keep)).centres i = s.centre := by
    simp [World.set, CentreState.afterRegister_centre]
  rw [hcentre]
  obtain ⟨e₂, he₂, _, ⟨hio, _, rfl⟩ | ⟨htimer, _, rfl⟩⟩ := registerEvent_cases hs
  · obtain rfl : e = e₂ := Option.some.inj (he.symm.trans he₂)
    have hoff : onTimer e.ev = false := by simp [onTimer, hio]
    rw [hoff]
    exact List.mem_map.mpr ⟨(e.evKey, p), List.mem_cons_self, rfl⟩
  · obtain rfl : e = e₂ := Option.some.inj (he.symm.trans he₂)
    rw [htimer]
    exact List.mem_map.mpr ⟨(e.evKey, p), List.mem_cons_self, rfl⟩

end Accepted

/-- In every run of the centres: an accepted registration puts the event at `p` into one registry of its
centre, and where it is there still `DeleteEvent` finds it exactly when it is `m_timerMap` or when the
calls of `EnableEvent` and `DisableEvent` in between leave a bit of `IO_CARE_EVENT`. -/
theorem delete_finds_registry_iff {n : ℕ} {fds : ℕ → ℕ} {pool : List (Fin n)} {before after : List (WorldOp n)}
    {w u v : World n} {op : WorldOp n} {i : Fin n} {p : ℕ} {keep registFd : Bool} {e e' : Event}
    (hw : exec worldStep (.start fds pool) before = some w) (he : w.objs.store p = some e)
    (hact : acting w op = some (i, .register p keep registFd))
    (haccept : ((w.at i).registerEvent i p registFd).isSome = true) (hu : worldStep w op = some u)
    (hv : exec worldStep u after = some v) (he' : v.objs.store p = some e')
    (hthere : (v.centres i).registered p) :
    ∃ r, (∀ r', p ∈ (entries (u.centres i) r').map Prod.snd ↔ r' = r) ∧
      (FindsRegistry (v.at i) p e' r ↔ (r = .events → careLeft e.ev (callsIn p u after) = true)) := by
  have hregw := worldRegistry_of_exec hw
  have hregu := worldRegistry_step hregw hu
  have hregv := invariant_of_exec (fun _ _ _ => worldRegistry_step) hregu hv
  have hp : p < w.objs.fresh := (hregw.registry i).below p (.alive he)
  obtain ⟨eu, heu, hlater⟩ := called_of_exec hregu (hp.trans_le (fresh_worldStep hu)) hv e' he'
  obtain ⟨e₂, he₂, hfirst⟩ := called_step hp hu eu heu
  obtain rfl : e = e₂ := Option.some.inj (he.symm.trans he₂)
  rw [callsOn_register hact] at hfirst
  have hcalled : Called (callsIn p u after) e e' := hfirst.trans hlater
  refine ⟨if onTimer e.ev then .timers else .events, fun r' => ⟨fun hmem => ?_, ?_⟩, ?_⟩
  · have hkind := kind_of_mem (hregu.registry i) heu hmem
    rw [hfirst.onTimer] at hkind
    rw [hkind]
    cases r' <;> rfl
  · rintro rfl
    exact mem_entries_of_accepted he hact haccept hu
  · obtain ⟨r, hmem⟩ := registered_iff.mp hthere
    have hkind := kind_of_mem (hregv.registry i) he' hmem
    rw [hcalled.onTimer] at hkind
    have hr : (if onTimer e.ev then Registry.timers else .events) = r := by
      rw [hkind]
      cases r <;> rfl
    rw [hr, ← meets_io_maskAfter, ← hcalled.ev]
    exact findsRegistry_iff (hregv.registry i) he' hmem

def only : Fin 1 := ⟨0, Nat.one_pos⟩

/-- A connecter that asks for reading and writing is registered. -/
def connecterEvent : Event := newEvent (evIoread ||| evIowrite) 20 0 0 false

def deleteBefore : List (WorldOp 1) :=
  [.centre only (.object (.create (evIoread ||| evIowrite) 20 0 0 false))]

def deleteRegister : WorldOp 1 := .centre only (.register 1 true true)

/-- Both bits are disabled, one is enabled again, and the connecter is cancelled. -/
def deleteAfter : List (WorldOp 1) :=
  [.centre only (.object (.update 1 .del (evIoread ||| evIowrite))),
    .centre only (.object (.update 1 .add evIowrite)), .centre only (.cancel 1)]

def deleteReady : World 1 := (exec worldStep (.start (fun _ => 10) []) deleteBefore).get (by decide +kernel)

def deleteIn : World 1 := (worldStep deleteReady deleteRegister).get (by decide +kernel)

def deleteLater : World 1 := (exec worldStep deleteIn deleteAfter).get (by decide +kernel)

theorem delete_finds_registry_iff_sample :
    FindsRegistry (deleteLater.at only) 1 ((deleteLater.objs.store 1).get (by decide +kernel)) .events := by
  obtain ⟨r, hr, hfinds⟩ := delete_finds_registry_iff (w := deleteReady) (u := deleteIn) (v := deleteLater)
    (i := only) (p := 1) (e := connecterEvent) (Option.some_get _).symm
    (by decide +kernel) rfl (by decide +kernel) (Option.some_get _).symm (Option.some_get _).symm
    (Option.some_get (by decide +kernel)).symm (by decide +kernel)
  obtain rfl := (hr .events).mp (by decide +kernel)
  exact hfinds.mpr fun _ => by decide +kernel

/-- With both bits disabled `DeleteEvent` answers -1 and leaves the connecter in `m_events`. -/
theorem not_delete_finds_registry : ¬ ∀ (n : ℕ) (fds : ℕ → ℕ) (pool : List (Fin n))
    (before after : List (WorldOp n)) (w u v : World n) (op : WorldOp n) (i : Fin n) (p : ℕ)
    (keep registFd : Bool) (e' : Event), exec worldStep (.start fds pool) before = some w →
    acting w op = some (i, .register p keep registFd) →
    ((w.at i).registerEvent i p registFd).isSome = true → worldStep w op = some u →
    exec worldStep u after = some v → v.objs.store p = some e' → (v.centres i).registered p →
    (deleteEventRet (v.at i) e').1 = 0 := by
  intro h
  have hret := h 1 (fun _ => 10) [] deleteBefore
    [.centre only (.object (.update 1 .del (evIoread ||| evIowrite))), .centre only (.cancel 1)]
    deleteReady deleteIn _ deleteRegister only 1 true true _ (Option.some_get _).symm rfl
    (by decide +kernel) (Option.some_get _).symm (Option.some_get (by decide +kernel)).symm
    (Option.some_get (by decide +kernel)).symm (by decide +kernel)
  revert hret
  decide +kernel

end Chaos.DeleteRegistry
