import Chaos.DeleteRegistry
import Chaos.Epoll

/-!
# `RegisterEvent` with everything that it calls

`EventCentre::RegisterEvent` of `net/Event.cpp` with `Poller::AddEvent`, `RegistFd` of an arbitrary backend
and `Timer::AddTimer`, the returned values and the register callback included. `AddEvent` puts the event into
`m_events` before it asks the backend and takes it out again when the backend fails.
-/
namespace Chaos.RegisterAtomic

open DeleteRegistry EventCounters GuardedRuns KeyLists

/-- A centre and the objects with the backend of its poller. -/
structure PolledCentre (β : Type*) where
  objs : Objects
  centre : EventCentre
  backend : β

/-- The conversion of a `uint32` to `int`. -/
def toInt (x : ℕ) : ℤ := (x : ℤ).bmod 4294967296

namespace PolledCentre

variable {β : Type*} (B : Backend β) (s : PolledCentre β)

def state : CentreState := ⟨s.objs, s.centre⟩

/-- `Poller::AddEvent` of the event `e` at `p`. -/
def addEvent (p : ℕ) (e : Event) : ℤ × PolledCentre β :=
  if (s.centre.events.lookup e.evKey).isSome then (-1, s)
  else
    let t := { s with
      objs := s.objs.addOwner p
      centre := { s.centre with events := (e.evKey, p) :: s.centre.events } }
    let r := B.registFd t.backend (some e.ev) e.evKey e.ev
    if r.2 then (0, { t with backend := r.1 })
    else (-1, { t with
      objs := t.objs.dropOwner p
      centre := { t.centre with events := eraseKey t.centre.events e.evKey }
      backend := r.1 })

/-- `Timer::AddTimer`, which returns a `uint32`. -/
def addTimer (p : ℕ) (e : Event) : ℕ × PolledCentre β :=
  if (s.centre.timer.timerMap.lookup e.evKey).isSome then (4294967295, s)
  else
    (0, { s with
      objs := { s.objs.addOwner p with curTimers := Word32.add32 s.objs.curTimers 1 }
      centre := { s.centre with
        timer := { s.centre.timer.push s.objs p with timerMap := (e.evKey, p) :: s.centre.timer.timerMap }
        eventFd := s.centre.eventFd + 1 } })

/-- The choice of the registry, with -1 where there is none. -/
def addToRegistry (p : ℕ) (e : Event) : ℤ × PolledCentre β :=
  if e.ev.meets ioCareEvent then s.addEvent B p e
  else if e.ev.meets timeoutCartEvent then
    let r := s.addTimer p e
    (toInt r.1, r.2)
  else (-1, s)

/-- `EventCentre::RegisterEvent` of the centre `self`; `registercb` is the register callback of the event. -/
def registerEvent (registercb : PolledCentre β → PolledCentre β) (self p : ℕ) : ℤ × PolledCentre β :=
  match s.objs.store p with
  | none => (-1, s)
  | some e =>
    if e.centre.isSome then (-1, s)
    else
      let r := s.addToRegistry B p e
      if r.1 ≠ 0 then r
      else
        let t := registercb { r.2 with objs := r.2.objs.setCentre p (some self) }
        (r.1, { t with centre := { t.centre with eventsNum := intAdd t.centre.eventsNum 1 } })

/-- `Listener::RegisterCallback`, where `Listen` answers `listen`: without an error callback `CallErr` cancels
the listener. The register callback of a `Connecter` does nothing. -/
def listenerCallback (listen : ℤ) (errcb : Option (PolledCentre β → PolledCentre β)) (self p : ℕ)
    (s : PolledCentre β) : PolledCentre β :=
  if listen = 0 then s
  else match errcb with
    | some errcb => errcb s
    | none =>
      let t := s.state.cancelEvent self p
      { s with objs := t.objs, centre := t.centre }

end PolledCentre

section
variable {β : Type*} {B : Backend β} {s t : PolledCentre β} {p self : ℕ} {e : Event} {ret : ℤ} {n : ℕ}

/-- Only the backend may have changed. -/
def Unchanged (s t : PolledCentre β) : Prop := t.objs = s.objs ∧ t.centre = s.centre

/-- Nothing is registered or deleted. -/
structure SameRegistries (s t : PolledCentre β) : Prop where
  events : t.centre.events = s.centre.events
  timer : t.centre.timer = s.centre.timer
  eventsNum : t.centre.eventsNum = s.centre.eventsNum

/-- The registry of its mask has gained the event at `p` under its key, and nothing else has changed in the
registries. -/
structure Gained (s t : PolledCentre β) (p : ℕ) (e : Event) (r : Registry) : Prop where
  chosen : registryOf e.ev = some r
  free : (entries s.centre r).lookup e.evKey = none
  gained : entries t.centre r = (e.evKey, p) :: entries s.centre r
  kept : ∀ r' ≠ r, entries t.centre r' = entries s.centre r'
  heap : if r = .timers then t.centre.timer.heap.heap.Perm (p :: s.centre.timer.heap.heap)
    else t.centre.timer.heap = s.centre.timer.heap

theorem addOwner_dropOwner (o : Objects) (p : ℕ) : (o.addOwner p).dropOwner p = o := by
  simp [Objects.addOwner, Objects.dropOwner]

/-- What `AddEvent` does: the entry that it erases is the one that it has put in. -/
theorem addEvent_cases (h : s.addEvent B p e = (ret, t)) :
    ret = -1 ∧ Unchanged s t ∨
      ret = 0 ∧ s.centre.events.lookup e.evKey = none ∧ t.objs = s.objs.addOwner p ∧
        t.centre = { s.centre with events := (e.evKey, p) :: s.centre.events } := by
  rw [PolledCentre.addEvent] at h
  cases hkey : s.centre.events.lookup e.evKey with
  | some q =>
    simp only [hkey, Option.isSome_some, if_true] at h
    obtain ⟨rfl, rfl⟩ := Prod.mk.inj h
    exact Or.inl ⟨rfl, rfl, rfl⟩
  | none =>
    simp only [hkey, Option.isSome_none, Bool.false_eq_true, if_false] at h
    have herase : eraseKey ((e.evKey, p) :: s.centre.events) e.evKey = s.centre.events := by
      rw [eraseKey, List.filter_cons_of_neg (by simp)]
      exact eraseKey_of_lookup hkey
    split_ifs at h with hok
    · obtain ⟨rfl, rfl⟩ := Prod.mk.inj h
      exact Or.inr ⟨rfl, rfl, rfl, rfl⟩
    · obtain ⟨rfl, rfl⟩ := Prod.mk.inj h
      refine Or.inl ⟨rfl, addOwner_dropOwner s.objs p, ?_⟩
      simp only [herase]

theorem addTimer_cases (h : s.addTimer p e = (n, t)) :
    n = 4294967295 ∧ Unchanged s t ∨
      n = 0 ∧ s.centre.timer.timerMap.lookup e.evKey = none ∧
        t.objs = { s.objs.addOwner p with curTimers := Word32.add32 s.objs.curTimers 1 } ∧
        t.centre = { s.centre with
          timer := { s.centre.timer.push s.objs p with timerMap := (e.evKey, p) :: s.centre.timer.timerMap }
          eventFd := s.centre.eventFd + 1 } := by
  rw [PolledCentre.addTimer] at h
  cases hkey : s.centre.timer.timerMap.lookup e.evKey with
  | some q =>
    simp only [hkey, Option.isSome_some, if_true] at h
    obtain ⟨rfl, rfl⟩ := Prod.mk.inj h
    exact Or.inl ⟨rfl, rfl, rfl⟩
  | none =>
    simp only [hkey, Option.isSome_none, Bool.false_eq_true, if_false] at h
    obtain ⟨rfl, rfl⟩ := Prod.mk.inj h
    exact Or.inr ⟨rfl, rfl, rfl, rfl⟩

/-- The one error code of the timer is -1 as an `int`. -/
theorem toInt_error : toInt 4294967295 = -1 := by decide

theorem toInt_zero : toInt 0 = 0 := by decide

/-- A registry refuses with -1 and leaves everything as it was, or takes the event in. -/
theorem addToRegistry_cases (h : s.addToRegistry B p e = (ret, t)) :
    ret = -1 ∧ Unchanged s t ∨
      ret = 0 ∧ t.centre.eventsNum = s.centre.eventsNum ∧ ∃ r, Gained s t p e r := by
  rw [PolledCentre.addToRegistry] at h
  split_ifs at h with hio htimeout
  · have hchosen : registryOf e.ev = some .events := by simp [registryOf, hio]
    rcases addEvent_cases h with hfail | ⟨hret, hfree, _, hcentre⟩
    · exact Or.inl hfail
    · refine Or.inr ⟨hret, by rw [hcentre], .events, hchosen, hfree, by rw [hcentre]; rfl, ?_, ?_⟩
      · intro r' hr'
        cases r' with
        | events => exact absurd rfl hr'
        | timers => rw [hcentre]; rfl
      · rw [if_neg (by decide), hcentre]
  · have hchosen : registryOf e.ev = some .timers := by simp [registryOf, hio, htimeout]
    cases hadd : s.addTimer p e with
    | mk n u =>
      simp only [hadd] at h
      obtain ⟨rfl, rfl⟩ := Prod.mk.inj h
      rcases addTimer_cases hadd with ⟨rfl, hsame⟩ | ⟨rfl, hfree, _, hcentre⟩
      · exact Or.inl ⟨toInt_error, hsame⟩
      refine Or.inr ⟨toInt_zero, by rw [hcentre], .timers, hchosen, hfree, by rw [hcentre]; rfl, ?_, ?_⟩
      · intro r' hr'
        cases r' with
        | events => rw [hcentre]; rfl
        | timers => exact absurd rfl hr'
      · rw [if_pos rfl, hcentre]
        exact MinHeap.perm_push _ _ p
  · obtain ⟨rfl, rfl⟩ := Prod.mk.inj h
    exact Or.inl ⟨rfl, rfl, rfl⟩

/-- What `RegisterEvent` does. -/
theorem registerEvent_cases {registercb : PolledCentre β → PolledCentre β}
    (h : s.registerEvent B registercb self p = (ret, t)) :
    ret = -1 ∧ Unchanged s t ∨
      ret = 0 ∧ ∃ e r u, s.objs.store p = some e ∧ Gained s u p e r ∧
        u.centre.eventsNum = s.centre.eventsNum ∧
        t = { registercb u with centre := { (registercb u).centre with
          eventsNum := intAdd (registercb u).centre.eventsNum 1 } } := by
  rw [PolledCentre.registerEvent] at h
  cases he : s.objs.store p with
  | none =>
    simp only [he] at h
    obtain ⟨rfl, rfl⟩ := Prod.mk.inj h
    exact Or.inl ⟨rfl, rfl, rfl⟩
  | some e =>
    simp only [he] at h
    split_ifs at h with hcentre hret
    · obtain ⟨rfl, rfl⟩ := Prod.mk.inj h
      exact Or.inl ⟨rfl, rfl, rfl⟩
    · rcases addToRegistry_cases h with hfail | ⟨hzero, _⟩
      · exact Or.inl hfail
      · rw [h] at hret
        exact absurd hzero hret
    · cases hadd : s.addToRegistry B p e with
      | mk ret' u =>
        simp only [hadd] at h hret
        obtain ⟨rfl, rfl⟩ := Prod.mk.inj h
        rcases addToRegistry_cases hadd with ⟨hfail, _⟩ | ⟨hzero, hnum, r, hgained⟩
        · rw [hfail] at hret
          exact absurd (by decide) hret
        · exact Or.inr ⟨hzero, e, r, { u with objs := u.objs.setCentre p (some self) }, rfl,
            ⟨hgained.chosen, hgained.free, hgained.gained, hgained.kept, hgained.heap⟩, hnum, rfl⟩

theorem entries_congr {c c' : EventCentre} (hevents : c'.events = c.events) (htimer : c'.timer = c.timer)
    (r : Registry) : entries c' r = entries c r := by
  cases r with
  | events => exact hevents
  | timers => exact congrArg Timer.timerMap htimer

/-- A step that keeps the registries keeps what has been gained. -/
theorem Gained.congr {u : PolledCentre β} {r : Registry} (h : Gained s t p e r)
    (hevents : u.centre.events = t.centre.events) (htimer : u.centre.timer = t.centre.timer) :
    Gained s u p e r where
  chosen := h.chosen
  free := h.free
  gained := (entries_congr hevents htimer r).trans h.gained
  kept r' hr' := (entries_congr hevents htimer r').trans (h.kept r' hr')
  heap := by
    rw [htimer]
    exact h.heap

theorem SameRegistries.cancelEvent (s : PolledCentre β) (self p : ℕ) : SameRegistries s
    { s with objs := (s.state.cancelEvent self p).objs, centre := (s.state.cancelEvent self p).centre } := by
  rw [CentreState.cancelEvent]
  cases s.state.objs.store p with
  | none => exact ⟨rfl, rfl, rfl⟩
  | some e =>
    dsimp only
    split_ifs with hc
    · rw [CentreState.pushEvent]
      split_ifs <;> exact ⟨rfl, rfl, rfl⟩
    · exact ⟨rfl, rfl, rfl⟩

/-- A listener registers nothing when it is registered, unless its error callback does. -/
theorem SameRegistries.listenerCallback {listen : ℤ} {errcb : Option (PolledCentre β → PolledCentre β)}
    (herrcb : ∀ f ∈ errcb, ∀ s, SameRegistries s (f s)) (self p : ℕ) (s : PolledCentre β) :
    SameRegistries s (s.listenerCallback listen errcb self p) := by
  simp only [PolledCentre.listenerCallback]
  split_ifs
  · exact ⟨rfl, rfl, rfl⟩
  · cases errcb with
    | none => exact .cancelEvent s self p
    | some f => exact herrcb f rfl s

/-! ## The step of the centre -/

theorem addEvent_state (B : Backend β) (s : PolledCentre β) (p : ℕ) (e : Event) :
    s.state.addEvent p e (B.registFd s.backend (some e.ev) e.evKey e.ev).2 =
      if (s.addEvent B p e).1 = 0 then some (s.addEvent B p e).2.state else none := by
  cases hkey : s.centre.events.lookup e.evKey with
  | some q => simp [CentreState.addEvent, PolledCentre.addEvent, PolledCentre.state, hkey]
  | none =>
    cases hok : (B.registFd s.backend (some e.ev) e.evKey e.ev).2 <;>
      simp [CentreState.addEvent, PolledCentre.addEvent, PolledCentre.state, hkey, hok]

theorem addTimer_state (s : PolledCentre β) {p : ℕ} {e : Event} (he : s.objs.store p = some e) :
    s.state.addTimer p =
      if toInt (s.addTimer p e).1 = 0 then some (s.addTimer p e).2.state else none := by
  cases hkey : s.centre.timer.timerMap.lookup e.evKey with
  | some q =>
    simp [CentreState.addTimer, Timer.addTimer, PolledCentre.addTimer, PolledCentre.state, he, hkey, toInt_error]
  | none =>
    simp [CentreState.addTimer, Timer.addTimer, PolledCentre.addTimer, PolledCentre.state, he, hkey, toInt_zero]

/-- `RegisterEvent` as a step of the centre is this one without a register callback. -/
theorem registerEvent_state (B : Backend β) (s : PolledCentre β) (self : ℕ) {p : ℕ} {e : Event}
    (he : s.objs.store p = some e) :
    s.state.registerEvent self p (B.registFd s.backend (some e.ev) e.evKey e.ev).2 =
      if (s.registerEvent B id self p).1 = 0 then some (s.registerEvent B id self p).2.state else none := by
  have hadd : s.state.registerEvent self p (B.registFd s.backend (some e.ev) e.evKey e.ev).2 =
      if e.centre.isSome ∨ (s.addToRegistry B p e).1 ≠ 0 then none
      else some ((s.addToRegistry B p e).2.state.setRegistered self p) := by
    have hobj : s.state.objs.store p = some e := he
    simp only [CentreState.registerEvent, PolledCentre.addToRegistry, hobj, addEvent_state, addTimer_state s he]
    split_ifs <;> simp_all
  rw [hadd, PolledCentre.registerEvent, he]
  dsimp only
  split_ifs <;> simp_all [PolledCentre.state, CentreState.setRegistered]

end

/-- In every state that the centres can reach, for every backend and every event: a registration that does
not return 0 changes nothing at all, and one that returns 0 puts an event that was in no registry into one
of them, as its only new entry, and counts it, when the register callback registers nothing. -/
theorem register_all_or_nothing {n : ℕ} {fds : ℕ → ℕ} {pool : List (Fin n)} {ops : List (WorldOp n)}
    {w : World n} (hw : exec worldStep (.start fds pool) ops = some w) (i : Fin n) {β : Type*} (B : Backend β)
    (b : β) (registercb : PolledCentre β → PolledCentre β) (p : ℕ) {ret : ℤ} {t : PolledCentre β}
    (h : PolledCentre.registerEvent B ⟨w.objs, w.centres i, b⟩ registercb i p = (ret, t)) :
    (ret ≠ 0 → t.objs = w.objs ∧ t.centre = w.centres i) ∧
      (ret = 0 → (∀ s, SameRegistries s (registercb s)) →
        ¬ (w.centres i).registered p ∧ t.centre.eventsNum = intAdd (w.centres i).eventsNum 1 ∧
          ∃ e r, w.objs.store p = some e ∧ Gained ⟨w.objs, w.centres i, b⟩ t p e r) := by
  have hreg := (worldRegistry_of_exec hw).registry i
  rcases registerEvent_cases h with ⟨rfl, hobjs, hcentre⟩ | ⟨rfl, e, r, u, he, hgained, hnum, rfl⟩
  · exact ⟨fun _ => ⟨hobjs, hcentre⟩, fun hret => absurd hret (by decide)⟩
  · refine ⟨fun hret => absurd rfl hret, fun _ hcb => ⟨?_, ?_, e, r, he, ?_⟩⟩
    · -- its key is free in the registry of its mask, and an event is in no other
      intro hthere
      obtain ⟨r', hmem⟩ := registered_iff.mp hthere
      have hkind := (onTimer_of_registryOf hgained.chosen).symm.trans (kind_of_mem (r := r') hreg he hmem)
      obtain rfl : r = r' := by cases r <;> cases r' <;> first | rfl | cases hkind
      obtain ⟨⟨k, q⟩, hkey, rfl⟩ := List.mem_map.mp hmem
      have hk : e.evKey = k := by
        cases r with
        | events => exact (hreg.eventKey k q hkey e he).1
        | timers => exact (hreg.timerKey k q hkey e he).1
      exact not_mem_of_lookup hgained.free q (hk ▸ hkey)
    · rw [(hcb u).eventsNum, hnum]
    · exact hgained.congr (hcb u).events (hcb u).timer

/-- A backend whose `RegistFd` always fails. -/
def refusing : Backend Unit := ⟨fun b _ _ _ => (b, false), fun b _ _ _ => b⟩

def refusedSample : ℤ × PolledCentre Unit :=
  PolledCentre.registerEvent refusing ⟨deleteReady.objs, deleteReady.centres only, ()⟩ id only 1

def acceptedSample : ℤ × PolledCentre (List (ℕ × Epoll.EpollEvent)) :=
  PolledCentre.registerEvent (Epoll.backend Epoll.listKernel)
    ⟨deleteReady.objs, deleteReady.centres only, []⟩ id only 1

theorem register_all_or_nothing_sample :
    (refusedSample.2.objs = deleteReady.objs ∧ refusedSample.2.centre = deleteReady.centres only) ∧
      ∃ e r, deleteReady.objs.store 1 = some e ∧
        Gained ⟨deleteReady.objs, deleteReady.centres only, []⟩ acceptedSample.2 1 e r := by
  have hrefused := register_all_or_nothing (w := deleteReady) (Option.some_get _).symm only refusing () id 1
    (Prod.mk.eta (p := refusedSample)).symm
  have haccepted := register_all_or_nothing (w := deleteReady) (Option.some_get _).symm only
    (Epoll.backend Epoll.listKernel) [] id 1 (Prod.mk.eta (p := acceptedSample)).symm
  exact ⟨hrefused.1 (by decide +kernel),
    (haccepted.2 (by decide +kernel) fun _ => ⟨rfl, rfl, rfl⟩).2.2⟩

end Chaos.RegisterAtomic
