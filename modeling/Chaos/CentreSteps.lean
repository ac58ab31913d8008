import Chaos.EventCentre

/-!
# What a step of a centre does

`CentrePass` says for each operation what it does, with everything that the code has checked before it.
An event that a step does not aim at keeps what the other modules speak about, as long as it exists.
-/
namespace Chaos

open KeyLists Timer

/-- Whether a registration puts the event into `m_timerMap`. -/
def onTimer (ev : EvMask) : Bool := !ev.meets ioCareEvent && ev.meets timeoutCartEvent

def EventCentre.registered (c : EventCentre) (p : ℕ) : Prop :=
  p ∈ c.events.map Prod.snd ∨ p ∈ c.timer.timerMap.map Prod.snd

instance (c : EventCentre) (p : ℕ) : Decidable (c.registered p) := by
  unfold EventCentre.registered
  infer_instance

/-- How many entries of that kind wait for `ProcessActiveEvent`. -/
def EventCentre.pending (c : EventCentre) (entry : Entry) : ℕ :=
  (c.activeEvs ++ c.waittingEvs).count entry

/-! ## Events that stay as they are -/

/-- The event has the key and the kind of mask it had. -/
structure SameMask (e e' : Event) : Prop where
  evKey : e'.evKey = e.evKey
  onTimer : onTimer e'.ev = onTimer e.ev
  cancel : e'.ev.meets evCancel = e.ev.meets evCancel

/-- The event is used as before too; without a centre its mask does not change at all. -/
structure SameUse (e e' : Event) : Prop extends SameMask e e' where
  centre : e'.centre = e.centre
  curEv : e'.curEv = e.curEv
  mask : e.centre = none → e'.ev = e.ev

theorem SameMask.refl (e : Event) : SameMask e e := ⟨rfl, rfl, rfl⟩

theorem SameMask.trans {e e' e'' : Event} (h : SameMask e e') (h' : SameMask e' e'') : SameMask e e'' where
  evKey := h'.evKey.trans h.evKey
  onTimer := h'.onTimer.trans h.onTimer
  cancel := h'.cancel.trans h.cancel

theorem SameUse.refl (e : Event) : SameUse e e := ⟨.refl e, rfl, rfl, fun _ => rfl⟩

theorem SameUse.trans {e e' e'' : Event} (h : SameUse e e') (h' : SameUse e' e'') : SameUse e e'' where
  toSameMask := h.toSameMask.trans h'.toSameMask
  centre := h'.centre.trans h.centre
  curEv := h'.curEv.trans h.curEv
  mask hc := (h'.mask (h.centre.trans hc)).trans (h.mask hc)

/-- What is at `p` afterwards comes from what was there before. -/
def Kept (R : Event → Event → Prop) (o o' : Objects) (p : ℕ) : Prop :=
  ∀ e', o'.store p = some e' → ∃ e, o.store p = some e ∧ R e e'

namespace Kept

variable {R R' : Event → Event → Prop} {o o' o'' : Objects} {p q : ℕ}

theorem mono (h : Kept R o o' p) (hR : ∀ e e', R e e' → R' e e') : Kept R' o o' p := by
  intro e' he'
  obtain ⟨e, he, hsame⟩ := h e' he'
  exact ⟨e, he, hR e e' hsame⟩

theorem sameMask (h : Kept SameUse o o' p) : Kept SameMask o o' p := h.mono fun _ _ hsame => hsame.toSameMask

theorem of_store_refl (hR : ∀ e, R e e) (h : o'.store p = o.store p ∨ o'.store p = none) :
    Kept R o o' p := by
  intro e' he'
  rcases h with h | h
  · exact ⟨e', h ▸ he', hR e'⟩
  · rw [h] at he'
    cases he'

theorem of_store (h : o'.store p = o.store p ∨ o'.store p = none) : Kept SameUse o o' p :=
  of_store_refl .refl h

theorem refl (o : Objects) (p : ℕ) : Kept SameUse o o p := of_store (Or.inl rfl)

theorem comp (hR : ∀ {e e' e''}, R e e' → R e' e'' → R e e'') (h : Kept R o o' p)
    (h' : Kept R o' o'' p) : Kept R o o'' p := by
  intro e'' he''
  obtain ⟨e', he', hsame'⟩ := h' e'' he''
  obtain ⟨e, he, hsame⟩ := h e' he'
  exact ⟨e, he, hR hsame hsame'⟩

theorem trans (h : Kept SameUse o o' p) (h' : Kept SameUse o' o'' p) : Kept SameUse o o'' p :=
  comp .trans h h'

theorem release (o : Objects) (p q : ℕ) : Kept SameUse o (o.release q) p := by
  apply of_store
  rcases o.release_store q p with h | ⟨_, h⟩
  · exact Or.inl h
  · exact Or.inr h

theorem drop (o : Objects) (p q : ℕ) : Kept SameUse o (o.drop q) p := by
  apply of_store
  rcases o.drop_store q p with h | ⟨_, h⟩
  · exact Or.inl h
  · exact Or.inr h

theorem releaseErased (o : Objects) (p : ℕ) (erased : Option ℕ) :
    Kept SameUse o (o.releaseErased erased) p := by
  cases erased with
  | none => exact refl o p
  | some q => exact release o p q

theorem modify_self {f : Event → Event} (h : ∀ e, o.store p = some e → R e (f e)) :
    Kept R o (o.modify p f) p := by
  intro e' he'
  rw [Objects.modify_self, Option.map_eq_some_iff] at he'
  obtain ⟨e, he, rfl⟩ := he'
  exact ⟨e, he, h e he⟩

theorem modify_of_ne (f : Event → Event) (h : p ≠ q) : Kept SameUse o (o.modify q f) p :=
  of_store (Or.inl (o.modify_of_ne q p f h))

theorem modifyMask {f : Event → Event} (h : ∀ e, SameMask e (f e)) (p : ℕ) :
    Kept SameMask o (o.modify q f) p := by
  rcases eq_or_ne p q with rfl | hne
  · exact modify_self fun e _ => h e
  · exact (modify_of_ne f hne).sameMask

theorem setCentre (o : Objects) (p q : ℕ) (centre : Option ℕ) :
    Kept SameMask o (o.setCentre q centre) p :=
  modifyMask (f := fun e => { e with centre := centre }) (fun _ => ⟨rfl, rfl, rfl⟩) p

theorem pushCurEv (o : Objects) (p q : ℕ) (ev : EvMask) :
    Kept SameMask o (o.modify q fun e => e.pushCurEv ev) p :=
  modifyMask (f := fun e => e.pushCurEv ev) (fun _ => ⟨rfl, rfl, rfl⟩) p

theorem popCurEv (o : Objects) (p q : ℕ) : Kept SameMask o (o.modify q Event.popCurEv) p :=
  modifyMask (f := Event.popCurEv) (fun _ => ⟨rfl, rfl, rfl⟩) p

theorem modify {f : Event → Event} (h : ∀ e, o.store q = some e → SameUse e (f e)) (p : ℕ) :
    Kept SameUse o (o.modify q f) p := by
  rcases eq_or_ne p q with rfl | hne
  · exact modify_self h
  · exact modify_of_ne f hne

end Kept

/-! ## Masks and updates -/

theorem ioValid_and (ev : EvMask) :
    ioValid ev &&& evTimeout = 0#16 ∧ ioValid ev &&& evCancel = 0#16 := by
  rw [ioValid]
  split_ifs <;> decide

theorem meets_apply {m v mask : EvMask} (h : v &&& mask = 0#16) (op : EventUpdateOp) :
    (op.apply m v).meets mask = m.meets mask := by
  have happly : op.apply m v &&& mask = m &&& mask := by
    ext i hi
    have hbit : v[i] = false ∨ mask[i] = false := by
      have hand := congrArg (fun b => b[i]) h
      simpa [-Bool.and_eq_false_imp, Bool.and_eq_false_iff] using hand
    cases op <;> rcases hbit with hbit | hbit <;> simp [EventUpdateOp.apply, hbit]
  rw [EvMask.meets, EvMask.meets, happly]

/-- A poller activates with bits of `IO_CARE_EVENT` only. -/
theorem meets_of_io {ev : EvMask} (h : ev &&& ~~~ioCareEvent = 0#16) : ev.meets evCancel = false := by
  have hand : ev &&& evCancel = 0#16 := by
    have hmask : evCancel = ~~~ioCareEvent &&& evCancel := by decide
    rw [hmask, ← BitVec.and_assoc, h, BitVec.zero_and]
  simp [EvMask.meets, hand]

theorem SameUse.updateEvent {e : Event} (h : e.ev.meets timeoutCartEvent = false) (op : EventUpdateOp)
    (ev : EvMask) : SameUse e (e.updateEvent op (ioValid ev)) := by
  rw [Event.updateEvent]
  cases hc : e.centre with
  | none => exact .refl e
  | some i =>
    have htimeout := meets_apply (m := e.ev) (ioValid_and ev).1 op
    refine ⟨⟨rfl, ?_, meets_apply (ioValid_and ev).2 op⟩, hc.symm ▸ rfl, rfl, ?_⟩
    · have h' : (op.apply e.ev (ioValid ev)).meets timeoutCartEvent = false := htimeout.trans h
      simp [Chaos.onTimer, h, h']
    · simp [hc]

inductive ObjectPass (n : ℕ) (o : Objects) : ObjectOp → Objects → Prop
  | create {ev : EvMask} {evKey timeoutMs clk : ℕ} {isLoop : Bool} :
    ObjectPass n o (.create ev evKey timeoutMs clk isLoop)
      (o.create (newEvent ev evKey timeoutMs clk isLoop))
  | drop {p : ℕ} (hp : n ≤ p) : ObjectPass n o (.drop p) (o.drop p)
  | modify {op : ObjectOp} {p : ℕ} {f : Event → Event} (hp : n ≤ p)
    (hsame : ∀ e, o.store p = some e → SameUse e (f e)) : ObjectPass n o op (o.modify p f)

theorem objectPass_of_objectStep {n : ℕ} {o o' : Objects} {op : ObjectOp}
    (h : objectStep n o op = some o') : ObjectPass n o op o' := by
  cases op with
  | create ev evKey timeoutMs clk isLoop =>
    obtain rfl := Option.some.inj h
    exact .create
  | drop p =>
    simp only [objectStep, Option.ite_none_right_eq_some, Option.some.injEq] at h
    obtain ⟨hp, rfl⟩ := h
    exact .drop hp
  | suspend p b =>
    simp only [objectStep, Option.ite_none_right_eq_some, Option.some.injEq] at h
    obtain ⟨hp, rfl⟩ := h
    exact .modify hp fun e _ => ⟨⟨rfl, rfl, rfl⟩, rfl, rfl, fun _ => rfl⟩
  | setLoop p b =>
    simp only [objectStep, Option.ite_none_right_eq_some, Option.some.injEq] at h
    obtain ⟨hp, rfl⟩ := h
    exact .modify hp fun e _ => ⟨⟨rfl, rfl, rfl⟩, rfl, rfl, fun _ => rfl⟩
  | update p op ev =>
    simp only [objectStep, Option.ite_none_right_eq_some, Option.some.injEq] at h
    obtain ⟨⟨hp, hupdatable⟩, rfl⟩ := h
    refine .modify hp fun e he => .updateEvent ?_ op ev
    simpa [updatable, he] using hupdatable

/-! ## Steps of the loop -/

/-- A control step leaves the registries and the queues alone, and does not come to or from a handler. -/
theorem controlStep_eq {s : CentreState} {op : ControlOp} {c : EventCentre}
    (h : controlStep s op = some c) :
    ∃ running eventFd pc,
      c = { s.centre with running := running, eventFd := eventFd, pc := pc } ∧
      ∀ p, pc = .handling p ↔ s.centre.pc = .handling p := by
  cases op with
  | start | calcTimeout | launchBegin | processBegin =>
    simp only [controlStep, Option.ite_none_right_eq_some, Option.some.injEq] at h
    obtain ⟨hpc, rfl⟩ := h
    exact ⟨_, _, _, rfl, by simp [hpc]⟩
  | stop | processEnd =>
    simp only [controlStep, Option.ite_none_right_eq_some, Option.some.injEq] at h
    obtain ⟨⟨hpc, _⟩, rfl⟩ := h
    exact ⟨_, _, _, rfl, by simp [hpc]⟩
  | exit =>
    simp only [controlStep, Option.some.injEq] at h
    subst h
    cases hrun : s.centre.running with
    | false => exact ⟨false, s.centre.eventFd, s.centre.pc, by simp [← hrun], fun _ => Iff.rfl⟩
    | true => exact ⟨_, _, s.centre.pc, rfl, fun _ => Iff.rfl⟩
  | pollReturn | pollFail =>
    simp only [controlStep] at h
    split at h
    · next hpc =>
      obtain rfl := Option.some.inj h
      exact ⟨_, _, _, rfl, by simp [hpc]⟩
    · cases h
  | launchEnd =>
    simp only [controlStep] at h
    split at h
    · next hpc =>
      simp only [Option.ite_none_right_eq_some, Option.some.injEq] at h
      obtain ⟨_, rfl⟩ := h
      exact ⟨_, _, _, rfl, by simp [hpc]⟩
    · cases h

/-- The registration of `p` with `m_events`. -/
def CentreState.registeredIo (s : CentreState) (self p : ℕ) (e : Event) : CentreState where
  objs := (s.objs.addOwner p).setCentre p (some self)
  centre := { s.centre with
    events := (e.evKey, p) :: s.centre.events
    eventsNum := intAdd s.centre.eventsNum 1 }

/-- The registration of `p` with the timer. -/
def CentreState.registeredTimer (s : CentreState) (self p : ℕ) (e : Event) : CentreState where
  objs := { s.objs.addOwner p with curTimers := Word32.add32 s.objs.curTimers 1 }.setCentre p (some self)
  centre := { s.centre with
    timer := { s.centre.timer.push s.objs p with timerMap := (e.evKey, p) :: s.centre.timer.timerMap }
    eventFd := s.centre.eventFd + 1
    eventsNum := intAdd s.centre.eventsNum 1 }

def CentreState.withActive (s : CentreState) (activeEvs : List Entry) : CentreState :=
  { s with centre := { s.centre with activeEvs := activeEvs } }

/-- The state after a cancel of `p` that takes effect. -/
def CentreState.afterCancel (s : CentreState) (p : ℕ) : CentreState where
  objs := (s.objs.modify p fun e => e.pushCurEv evCancel).setCentre p none
  centre := { s.centre with waittingEvs := s.centre.waittingEvs ++ [⟨p, true⟩] }

/-- The state after a poller has activated `p`. -/
def CentreState.afterPush (s : CentreState) (p : ℕ) (ev : EvMask) : CentreState where
  objs := s.objs.modify p fun e => e.pushCurEv ev
  centre := { s.centre with activeEvs := s.centre.activeEvs ++ [⟨p, false⟩] }

/-- The state after a pass of `Launch`. -/
def CentreState.afterPass (s : CentreState) (l : LaunchState) : CentreState where
  objs := l.objs
  centre := { s.centre with
    timer := l.timer
    activeEvs := s.centre.activeEvs ++ l.active.map fun p => ⟨p, false⟩ }

/-- A `CancelEvent` of `p` takes effect. -/
def CentreState.cancels (s : CentreState) (self p : ℕ) : Bool :=
  match s.objs.store p with
  | none => false
  | some e => decide (e.centre = some self)

/-- What a step of the centre `self` does. -/
inductive CentrePass (n self : ℕ) (s : CentreState) : CentreOp → CentreState → Prop
  | object {op : ObjectOp} {o : Objects} (h : ObjectPass n s.objs op o) :
    CentrePass n self s (.object op) { s with objs := o }
  | control {op : ControlOp} {c : EventCentre} (h : controlStep s op = some c) :
    CentrePass n self s (.control op) { s with centre := c }
  | refused {p : ℕ} {keep registFd : Bool} (hp : n ≤ p) :
    CentrePass n self s (.register p keep registFd) (s.afterRegister p keep)
  | registerIo {p : ℕ} {keep registFd : Bool} {e : Event} (hp : n ≤ p) (hheld : s.objs.held p = true)
    (he : s.objs.store p = some e) (hc : e.centre = none) (hio : e.ev.meets ioCareEvent = true)
    (hkey : s.centre.events.lookup e.evKey = none) :
    CentrePass n self s (.register p keep registFd) ((s.registeredIo self p e).afterRegister p keep)
  | registerTimer {p : ℕ} {keep registFd : Bool} {e : Event} (hp : n ≤ p)
    (hheld : s.objs.held p = true) (he : s.objs.store p = some e) (hc : e.centre = none)
    (htimer : onTimer e.ev = true) (hkey : s.centre.timer.timerMap.lookup e.evKey = none) :
    CentrePass n self s (.register p keep registFd) ((s.registeredTimer self p e).afterRegister p keep)
  | ignored {p : ℕ} (h : s.cancels self p = false) : CentrePass n self s (.cancel p) s
  | unmarked {p : ℕ} {e : Event} (he : s.objs.store p = some e) (hm : e.ev.meets evCancel = false) :
    CentrePass n self s (.cancel p) { s with objs := s.objs.setCentre p none }
  | cancel {p : ℕ} {e : Event} (hp : n ≤ p) (hpc : s.centre.pc ≠ .process)
    (he : s.objs.store p = some e) (hc : e.centre = some self) :
    CentrePass n self s (.cancel p) (s.afterCancel p)
  | makeWaitting (hpc : s.centre.pc = .top) :
    CentrePass n self s .makeWaitting { s with centre := { s.centre with
      activeEvs := s.centre.waittingEvs ++ s.centre.activeEvs, waittingEvs := [], pc := .calc } }
  | notActive {fd : ℕ} {ev : EvMask} : CentrePass n self s (.pushActive fd ev) s
  | pushActive {fd p : ℕ} {ev : EvMask} {e : Event} (hpc : s.centre.pc = .collect)
    (hio : ev &&& ~~~ioCareEvent = 0#16) (hfd : s.centre.events.lookup fd = some p)
    (he : s.objs.store p = some e) (hc : e.centre = some self) :
    CentrePass n self s (.pushActive fd ev) (s.afterPush p ev)
  | launch {clk now : ℕ} {l : LaunchState} (hpc : s.centre.pc = .launch now)
    (h : LaunchPass now clk ⟨s.objs, s.centre.timer, []⟩ l) :
    CentrePass n self s (.launchIter clk) (s.afterPass l)
  | delete {entry : Entry} {rest : List Entry} {e : Event} (hpc : s.centre.pc = .process)
    (hact : s.centre.activeEvs = entry :: rest) (he : s.objs.store entry.ev = some e)
    (hfront : e.getCurEv.meets evCancel = true) :
    CentrePass n self s .take ((s.withActive rest).deleteEvent e)
  | skip {entry : Entry} {rest : List Entry} {e : Event} (hpc : s.centre.pc = .process)
    (hact : s.centre.activeEvs = entry :: rest) (he : s.objs.store entry.ev = some e)
    (hfront : e.getCurEv.meets evCancel = false) (hc : e.centre = none) :
    CentrePass n self s .take (s.withActive rest)
  | wakeUp {entry : Entry} {rest : List Entry} {e : Event} (hpc : s.centre.pc = .process)
    (hact : s.centre.activeEvs = entry :: rest) (he : s.objs.store entry.ev = some e)
    (hfront : e.getCurEv.meets evCancel = false) (hself : entry.ev = self) :
    CentrePass n self s .take { objs := s.objs.modify entry.ev Event.popCurEv
                                centre := { s.centre with activeEvs := rest, eventFd := 0 } }
  | handle {entry : Entry} {rest : List Entry} {e : Event} (hpc : s.centre.pc = .process)
    (hact : s.centre.activeEvs = entry :: rest) (he : s.objs.store entry.ev = some e)
    (hfront : e.getCurEv.meets evCancel = false) (hc : e.centre.isSome = true) (hself : entry.ev ≠ self) :
    CentrePass n self s .take
      { s with centre := { s.centre with activeEvs := rest, pc := .handling entry.ev } }
  | handleEnd {p : ℕ} {e : Event} (hpc : s.centre.pc = .handling p) (he : s.objs.store p = some e) :
    CentrePass n self s .handleEnd
      { objs := s.objs.modify p Event.popCurEv, centre := { s.centre with pc := .process } }

section Inversion
variable {n self : ℕ} {s t : CentreState}

/-- `RegisterEvent` takes in an event without a centre whose key is free in the registry of its mask. -/
theorem registerEvent_cases {p : ℕ} {registFd : Bool} {u : CentreState}
    (h : s.registerEvent self p registFd = some u) :
    ∃ e, s.objs.store p = some e ∧ e.centre = none ∧
      (e.ev.meets ioCareEvent = true ∧ s.centre.events.lookup e.evKey = none ∧ u = s.registeredIo self p e ∨
        onTimer e.ev = true ∧ s.centre.timer.timerMap.lookup e.evKey = none ∧
          u = s.registeredTimer self p e) := by
  rw [CentreState.registerEvent] at h
  cases he : s.objs.store p with
  | none => simp [he] at h
  | some e =>
    simp only [he, Option.ite_none_left_eq_some] at h
    obtain ⟨hc, h⟩ := h
    have hc : e.centre = none := by simpa using hc
    refine ⟨e, rfl, hc, ?_⟩
    split_ifs at h with hio htimeout
    · simp only [CentreState.addEvent, Option.map_eq_some_iff, Option.ite_none_left_eq_some,
        Option.some.injEq] at h
      obtain ⟨_, ⟨hadd, rfl⟩, rfl⟩ := h
      have hkey : s.centre.events.lookup e.evKey = none := by
        cases hl : s.centre.events.lookup e.evKey with
        | none => rfl
        | some q => simp [hl] at hadd
      exact Or.inl ⟨hio, hkey, rfl⟩
    · simp only [CentreState.addTimer, Timer.addTimer, he, Option.map_eq_some_iff,
        Option.ite_none_left_eq_some, Option.some.injEq] at h
      obtain ⟨_, ⟨_, ⟨hadd, rfl⟩, rfl⟩, rfl⟩ := h
      have hkey : s.centre.timer.timerMap.lookup e.evKey = none := by
        cases hl : s.centre.timer.timerMap.lookup e.evKey with
        | none => rfl
        | some q => simp [hl] at hadd
      have htimer : onTimer e.ev = true := by simp [onTimer, hio, htimeout]
      exact Or.inr ⟨htimer, hkey, rfl⟩

theorem centrePass_register {p : ℕ} {keep registFd : Bool} (hp : n ≤ p) (hheld : s.objs.held p = true) :
    CentrePass n self s (.register p keep registFd)
      (((s.registerEvent self p registFd).getD s).afterRegister p keep) := by
  cases hreg : s.registerEvent self p registFd with
  | none => exact .refused hp
  | some u =>
    obtain ⟨e, he, hc, ⟨hio, hkey, rfl⟩ | ⟨htimer, hkey, rfl⟩⟩ := registerEvent_cases hreg
    · exact .registerIo hp hheld he hc hio hkey
    · exact .registerTimer hp hheld he hc htimer hkey

theorem centrePass_cancel {p : ℕ} (hp : n ≤ p) (hpc : s.centre.pc ≠ .process) :
    CentrePass n self s (.cancel p) (s.cancelEvent self p) := by
  rw [CentreState.cancelEvent]
  cases he : s.objs.store p with
  | none => exact .ignored (by simp [CentreState.cancels, he])
  | some e =>
    dsimp only
    split_ifs with hc
    · cases hm : e.ev.meets evCancel with
      | false =>
        rw [CentreState.pushEvent, if_neg (by simp [hm])]
        exact .unmarked he hm
      | true =>
        rw [CentreState.pushEvent, if_pos ⟨hc, hm⟩]
        exact .cancel hp hpc he hc
    · exact .ignored (by simp [CentreState.cancels, he, hc])

theorem centrePass_pushActive {fd : ℕ} {ev : EvMask} (hpc : s.centre.pc = .collect)
    (hio : ev &&& ~~~ioCareEvent = 0#16) :
    CentrePass n self s (.pushActive fd ev) (s.pushActiveEvent self fd ev) := by
  rw [CentreState.pushActiveEvent]
  cases hfd : s.centre.events.lookup fd with
  | none => exact .notActive
  | some p =>
    cases he : s.objs.store p with
    | none => simpa [he] using .notActive
    | some e =>
      simp only [he]
      split_ifs with h
      · exact .pushActive hpc hio hfd he h.1
      · exact .notActive

theorem centrePass_take {entry : Entry} {rest : List Entry} (hpc : s.centre.pc = .process)
    (hact : s.centre.activeEvs = entry :: rest) (h : s.takeEvent self entry.ev rest = some t) :
    CentrePass n self s .take t := by
  rw [CentreState.takeEvent] at h
  cases he : s.objs.store entry.ev with
  | none => simp [he] at h
  | some e =>
    simp only [he] at h
    split_ifs at h with hfront hc hself
    · obtain rfl := Option.some.inj h
      exact .delete hpc hact he hfront
    · obtain rfl := Option.some.inj h
      exact .skip hpc hact he (Bool.eq_false_iff.mpr hfront) (by simpa using hc)
    · obtain rfl := Option.some.inj h
      exact .wakeUp hpc hact he (Bool.eq_false_iff.mpr hfront) hself
    · obtain rfl := Option.some.inj h
      have hsome : e.centre.isSome = true := by simpa [Option.ne_none_iff_isSome] using hc
      exact .handle hpc hact he (Bool.eq_false_iff.mpr hfront) hsome hself

theorem centrePass_of_centreStep {op : CentreOp} (h : centreStep n self s op = some t) :
    CentrePass n self s op t := by
  cases op with
  | object op =>
    simp only [centreStep, Option.map_eq_some_iff] at h
    obtain ⟨o, ho, rfl⟩ := h
    exact .object (objectPass_of_objectStep ho)
  | control op =>
    simp only [centreStep, Option.map_eq_some_iff] at h
    obtain ⟨c, hc, rfl⟩ := h
    exact .control hc
  | register p keep registFd =>
    simp only [centreStep, Option.ite_none_right_eq_some, Option.some.injEq] at h
    obtain ⟨⟨hp, hheld, _⟩, rfl⟩ := h
    exact centrePass_register hp hheld
  | cancel p =>
    simp only [centreStep, Option.ite_none_right_eq_some, Option.some.injEq] at h
    obtain ⟨⟨hp, _, hpc⟩, rfl⟩ := h
    exact centrePass_cancel hp hpc
  | makeWaitting =>
    simp only [centreStep, Option.ite_none_right_eq_some, Option.some.injEq] at h
    obtain ⟨⟨hpc, _⟩, rfl⟩ := h
    exact .makeWaitting hpc
  | pushActive fd ev =>
    simp only [centreStep, Option.ite_none_right_eq_some, Option.some.injEq] at h
    obtain ⟨⟨hpc, hio⟩, rfl⟩ := h
    exact centrePass_pushActive hpc hio
  | launchIter clk =>
    simp only [centreStep] at h
    split at h
    · next now hpc =>
      simp only [CentreState.launchIter, Option.map_eq_some_iff] at h
      obtain ⟨l, hl, rfl⟩ := h
      exact .launch hpc (launchPass_of_launchIter hl)
    · cases h
  | take =>
    simp only [centreStep] at h
    cases hact : s.centre.activeEvs with
    | nil => simp [hact] at h
    | cons entry rest =>
      simp only [hact, Option.ite_none_right_eq_some] at h
      exact centrePass_take h.1 hact h.2
  | handleEnd =>
    simp only [centreStep] at h
    split at h
    · next p hpc =>
      simp only [Option.ite_none_right_eq_some, Option.some.injEq] at h
      obtain ⟨hsome, rfl⟩ := h
      obtain ⟨e, he⟩ := Option.isSome_iff_exists.mp hsome
      exact .handleEnd hpc he
    · cases h

end Inversion

/-! ## What the steps look at -/

theorem getCurEv_meets {e : Event} (h : e.getCurEv.meets evCancel = true) :
    ∃ v ∈ e.curEv, v.meets evCancel = true := by
  rw [Event.getCurEv] at h
  cases hcur : e.curEv with
  | nil =>
    rw [hcur] at h
    exact absurd h (by decide)
  | cons v vs =>
    rw [hcur] at h
    exact ⟨v, List.mem_cons_self, h⟩

namespace CentreState

variable (s : CentreState)

/-- The live root that a pass of `Launch` finds due. -/
def dueRoot : Option (ℕ × Event) :=
  match s.centre.pc, s.centre.timer.heap.front with
  | .launch now, some p => (s.objs.store p).bind fun e => if e.nextTime ≤ now then some (p, e) else none
  | _, _ => none

/-- The event in the registry of `e` with its key. -/
def underKey (e : Event) : Option ℕ :=
  if e.ev.meets ioCareEvent then s.centre.events.lookup e.evKey
  else s.centre.timer.timerMap.lookup e.evKey

/-- The object that `ProcessActiveEvent` is about to delete. -/
def takenCancel : Option Event :=
  s.centre.activeEvs.head?.bind fun entry => (s.objs.store entry.ev).bind fun e =>
    if e.getCurEv.meets evCancel then some e else none

variable {s}

theorem dueRoot_eq {now p : ℕ} {e : Event} (hpc : s.centre.pc = .launch now)
    (hfront : s.centre.timer.heap.front = some p) (he : s.objs.store p = some e)
    (hdue : e.nextTime ≤ now) : s.dueRoot = some (p, e) := by
  simp [dueRoot, hpc, hfront, he, hdue]

theorem takenCancel_eq {entry : Entry} {rest : List Entry} {e : Event}
    (hact : s.centre.activeEvs = entry :: rest) (he : s.objs.store entry.ev = some e)
    (hfront : e.getCurEv.meets evCancel = true) : s.takenCancel = some e := by
  simp [takenCancel, hact, he, hfront]

theorem cancels_eq {self p : ℕ} {e : Event} (he : s.objs.store p = some e) (hc : e.centre = some self) :
    s.cancels self p = true := by
  simp [cancels, he, hc]

theorem takenCancel_eq_none {entry : Entry} {rest : List Entry} {e : Event}
    (hact : s.centre.activeEvs = entry :: rest) (he : s.objs.store entry.ev = some e)
    (hfront : e.getCurEv.meets evCancel = false) : s.takenCancel = none := by
  simp [takenCancel, hact, he, hfront]

theorem mem_dueRoot {r : ℕ × Event} (h : r ∈ s.dueRoot) : ∃ now, s.centre.pc = .launch now ∧
    s.centre.timer.heap.front = some r.1 ∧ s.objs.store r.1 = some r.2 ∧ r.2.nextTime ≤ now := by
  rw [dueRoot] at h
  split at h
  · next now p hpc hfront =>
    obtain ⟨e, he, hif⟩ := Option.bind_eq_some_iff.mp h
    simp only [Option.ite_none_right_eq_some, Option.some.injEq] at hif
    obtain ⟨hdue, rfl⟩ := hif
    exact ⟨now, hpc, hfront, he, hdue⟩
  · cases h

@[simp] theorem deleteEvent_pc (e : Event) : (s.deleteEvent e).centre.pc = s.centre.pc := by
  rw [deleteEvent]
  split_ifs <;> rfl

@[simp] theorem deleteEvent_heap (e : Event) :
    (s.deleteEvent e).centre.timer.heap = s.centre.timer.heap := by
  rw [deleteEvent]
  split_ifs <;> rfl

@[simp] theorem deleteEvent_pending (e : Event) (entry : Entry) :
    (s.deleteEvent e).centre.pending entry = s.centre.pending entry := by
  rw [deleteEvent]
  split_ifs <;> rfl

@[simp] theorem afterRegister_centre (p : ℕ) (keep : Bool) :
    (s.afterRegister p keep).centre = s.centre := by
  rw [afterRegister]
  split_ifs <;> rfl

end CentreState

end Chaos
