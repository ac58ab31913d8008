import Chaos.GuardedRuns
import Chaos.KeyLists
import Chaos.Timer
import Mathlib.Data.Int.Init

/-!
# The event centre

`EventCentre` and `Poller` of `net/Event.cpp` and `net/Poller.cpp` for the select and epoll backends. The
loop thread goes through `EventLoop` one locked or unlocked piece at a time, and user code, in a handler
or on another thread, acts between the pieces. `ProcessActiveEvent` holds the mutex for a whole round, so
that there only handlers register and cancel. The wake-up event of the centre `i` is the object at the
address `i`.
-/
namespace Chaos

open Word32 Timer KeyLists

/-- A pointer in `m_activeEvs` or `m_waittingEvs`. Whether `CancelEvent` put it there is noted for the
statements about runs; nothing here reads it. -/
structure Entry where
  ev : ℕ
  fromCancel : Bool
  deriving DecidableEq, Repr

/-- Where the loop thread is in `EventLoop`; in `poll` it is about to call the poller or blocked in it. -/
inductive LoopPc where
  | stopped
  | top
  | calc
  | poll (timeoutMs : ℤ)
  | collect
  | launch (now : ℕ)
  | launched
  | process
  | handling (p : ℕ)
  deriving DecidableEq, Repr

/-- In a round `activeEvs` is what the round has not taken yet. `eventFd` is the counter of the eventfd. -/
structure EventCentre where
  events : List (ℕ × ℕ)
  timer : Timer
  activeEvs : List Entry
  waittingEvs : List Entry
  running : Bool
  eventsNum : ℤ
  eventFd : ℕ
  pc : LoopPc

/-- A centre with the objects of the process. -/
structure CentreState where
  objs : Objects
  centre : EventCentre

def newEvent (ev : EvMask) (evKey timeoutMs clk : ℕ) (isLoop : Bool) : Event :=
  ⟨none, ev ||| baseCareEvent, [], evKey, timeoutMs, clk + timeoutMs, isLoop, false⟩

def wakeUpEvent (self fd : ℕ) : Event :=
  ⟨some self, evIoread ||| baseCareEvent, [], fd, 0, 0, false, false⟩

/-- The objects once `n` centres have registered their wake-up events. -/
def startObjects (n : ℕ) (fds : ℕ → ℕ) : Objects where
  store p := if p < n then some (wakeUpEvent p (fds p)) else none
  held p := decide (p < n)
  owned p := if p < n then 1 else 0
  fresh := n
  curTimers := 0

def EventCentre.new (self fd : ℕ) : EventCentre :=
  ⟨[(fd, self)], .new, [], [], false, 1, 0, .stopped⟩

/-- One centre alone. -/
def CentreState.start (fd : ℕ) : CentreState := ⟨startObjects 1 fun _ => fd, .new 0 fd⟩

/-- The sum of two `int`s. -/
def intAdd (a b : ℤ) : ℤ := (a + b).bmod 4294967296

def Objects.releaseErased (o : Objects) : Option ℕ → Objects
  | none => o
  | some p => o.release p

def Objects.setCentre (o : Objects) (p : ℕ) (centre : Option ℕ) : Objects :=
  o.modify p fun e => { e with centre := centre }

/-! ## What user code does to its event objects -/

inductive ObjectOp where
  | create (ev : EvMask) (evKey timeoutMs clk : ℕ) (isLoop : Bool)
  | drop (p : ℕ)
  | suspend (p : ℕ) (isSuspend : Bool)
  | setLoop (p : ℕ) (isLoop : Bool)
  | update (p : ℕ) (op : EventUpdateOp) (ev : EvMask)

/-- Only a `Connecter` updates its mask, in `EnableEvent` and `DisableEvent`, and none has `EV_TIMEOUT`. -/
def updatable (o : Objects) (p : ℕ) : Bool :=
  match o.store p with
  | none => false
  | some e => !e.ev.meets timeoutCartEvent

/-- The mask part of `Event::UpdateEvent`. -/
def Event.updateEvent (e : Event) (op : EventUpdateOp) (ev : EvMask) : Event :=
  if e.centre.isSome then { e with ev := op.apply e.ev ev } else e

/-- The addresses below `n` are wake-up events, which user code cannot reach. -/
def objectStep (n : ℕ) (o : Objects) : ObjectOp → Option Objects
  | .create ev evKey timeoutMs clk isLoop => some (o.create (newEvent ev evKey timeoutMs clk isLoop))
  | .drop p => if n ≤ p then some (o.drop p) else none
  | .suspend p b => if n ≤ p then some (o.modify p fun e => { e with isSuspend := b }) else none
  | .setLoop p b => if n ≤ p then some (o.modify p fun e => { e with isLoop := b }) else none
  | .update p op ev =>
    if n ≤ p ∧ updatable o p then some (o.modify p fun e => e.updateEvent op (ioValid ev)) else none

namespace CentreState

variable (s : CentreState) (self p : ℕ)

/-- `Poller::AddEvent`, `none` when it answers -1; `registFd` is whether `RegistFd` succeeds. -/
def addEvent (e : Event) (registFd : Bool) : Option CentreState :=
  if (s.centre.events.lookup e.evKey).isSome || !registFd then none
  else some { objs := s.objs.addOwner p,
              centre := { s.centre with events := (e.evKey, p) :: s.centre.events } }

/-- `Timer::AddTimer` with its `WakeUp`. -/
def addTimer : Option CentreState :=
  (Timer.addTimer s.objs s.centre.timer p).map fun r =>
    { objs := r.1, centre := { s.centre with timer := r.2, eventFd := s.centre.eventFd + 1 } }

/-- The end of `RegisterEvent`. -/
def setRegistered : CentreState :=
  { objs := s.objs.setCentre p (some self),
    centre := { s.centre with eventsNum := intAdd s.centre.eventsNum 1 } }

/-- `EventCentre::RegisterEvent`, `none` where it refuses. -/
def registerEvent (registFd : Bool) : Option CentreState :=
  match s.objs.store p with
  | none => none
  | some e =>
    if e.centre.isSome then none
    else if e.ev.meets ioCareEvent then (s.addEvent p e registFd).map fun s => s.setRegistered self p
    else if e.ev.meets timeoutCartEvent then (s.addTimer p).map fun s => s.setRegistered self p
    else none

/-- `PushEvent`, which broadcasts the condition variable and does not write the eventfd. -/
def pushEvent (e : Event) (ev : EvMask) : CentreState :=
  if e.centre = some self ∧ e.ev.meets ev then
    { objs := s.objs.modify p fun e => e.pushCurEv ev,
      centre := { s.centre with waittingEvs := s.centre.waittingEvs ++ [⟨p, true⟩] } }
  else s

/-- `EventCentre::CancelEvent`. -/
def cancelEvent : CentreState :=
  match s.objs.store p with
  | none => s
  | some e =>
    if e.centre = some self then
      let s := s.pushEvent self p e evCancel
      { s with objs := s.objs.setCentre p none }
    else s

/-- `Poller::DelEvent`. -/
def delEvent (e : Event) : CentreState :=
  let erased := s.centre.events.lookup e.evKey
  let o := match erased with
    | some q => s.objs.dropOwner q
    | none => s.objs
  { objs := o.releaseErased erased,
    centre := { s.centre with events := eraseKey s.centre.events e.evKey } }

def delTimer (e : Event) : CentreState :=
  let r := Timer.delTimer s.objs s.centre.timer e
  { objs := r.1.releaseErased r.2.2, centre := { s.centre with timer := r.2.1 } }

/-- The end of `DeleteEvent`. -/
def countDeleted : CentreState :=
  { s with centre := { s.centre with eventsNum := intAdd s.centre.eventsNum (-1) } }

/-- `EventCentre::DeleteEvent` of the object `e`. -/
def deleteEvent (e : Event) : CentreState :=
  if e.ev.meets ioCareEvent then (s.delEvent e).countDeleted
  else if e.ev.meets timeoutCartEvent then (s.delTimer e).countDeleted
  else s

/-- `Poller::PushActiveEvent`. -/
def pushActiveEvent (fd : ℕ) (ev : EvMask) : CentreState :=
  match s.centre.events.lookup fd with
  | none => s
  | some p =>
    match s.objs.store p with
    | none => s
    | some e =>
      if e.centre = some self ∧ e.ev.meets ev then
        { objs := s.objs.modify p fun e => e.pushCurEv ev,
          centre := { s.centre with activeEvs := s.centre.activeEvs ++ [⟨p, false⟩] } }
      else s

def makeWaittingToActive : CentreState :=
  { s with centre := { s.centre with
      activeEvs := s.centre.waittingEvs ++ s.centre.activeEvs, waittingEvs := [] } }

def calculateTimeoutMs (clk : ℕ) : ℤ :=
  if s.centre.activeEvs ≠ [] then 0 else getNextTimeout s.objs s.centre.timer clk

/-- One pass of `Timer::Launch` on `m_activeEvs`. -/
def launchIter (now clk : ℕ) : Option CentreState :=
  (Timer.launchIter now ⟨s.objs, s.centre.timer, []⟩ clk).map fun l =>
    { objs := l.objs,
      centre := { s.centre with
        timer := l.timer, activeEvs := s.centre.activeEvs ++ l.active.map fun p => ⟨p, false⟩ } }

/-- One entry of `ProcessActiveEvent` up to the call of `Handle`, `none` where the pointer dangles. The
wake-up event is handled at once: it reads its eventfd. -/
def takeEvent (rest : List Entry) : Option CentreState :=
  let s := { s with centre := { s.centre with activeEvs := rest } }
  match s.objs.store p with
  | none => none
  | some e =>
    if e.getCurEv.meets evCancel then some (s.deleteEvent e)
    else if e.centre.isNone then some s
    else if p = self then
      some { objs := s.objs.modify p Event.popCurEv, centre := { s.centre with eventFd := 0 } }
    else some { s with centre := { s.centre with pc := .handling p } }

end CentreState

/-! ## Steps -/

/-- Steps that move the loop or stop it. -/
inductive ControlOp where
  | start
  | exit
  | stop
  | calcTimeout (clk : ℕ)
  | pollReturn
  | pollFail
  | launchBegin (now : ℕ)
  | launchEnd
  | processBegin
  | processEnd

/-- `stop` is the failing test of `while (m_running)`. -/
def controlStep (s : CentreState) : ControlOp → Option EventCentre
  | .start => if s.centre.pc = .stopped then some { s.centre with running := true, pc := .top } else none
  | .exit => some <| if s.centre.running then
      { s.centre with running := false, eventFd := s.centre.eventFd + 1 } else s.centre
  | .stop => if s.centre.pc = .top ∧ s.centre.running = false then some { s.centre with pc := .stopped }
    else none
  | .calcTimeout clk => if s.centre.pc = .calc then
      some { s.centre with pc := .poll (s.calculateTimeoutMs clk) } else none
  | .pollReturn => match s.centre.pc with
    | .poll _ => some { s.centre with pc := .collect }
    | _ => none
  | .pollFail => match s.centre.pc with
    | .poll _ => some { s.centre with running := false, pc := .stopped }
    | _ => none
  | .launchBegin now => if s.centre.pc = .collect then some { s.centre with pc := .launch now } else none
  | .launchEnd => match s.centre.pc with
    | .launch now => if (s.launchIter now 0).isNone then some { s.centre with pc := .launched } else none
    | _ => none
  | .processBegin => if s.centre.pc = .launched then some { s.centre with pc := .process } else none
  | .processEnd => if s.centre.pc = .process ∧ s.centre.activeEvs = [] then
      some { s.centre with pc := .top } else none

/-- `keep` is whether the user still has the `shared_ptr` after the call. -/
inductive CentreOp where
  | object (op : ObjectOp)
  | control (op : ControlOp)
  | register (p : ℕ) (keep registFd : Bool)
  | cancel (p : ℕ)
  | makeWaitting
  | pushActive (fd : ℕ) (ev : EvMask)
  | launchIter (clk : ℕ)
  | take
  | handleEnd

/-- What is left of a call of `RegisterEvent`. -/
def CentreState.afterRegister (s : CentreState) (p : ℕ) (keep : Bool) : CentreState :=
  if keep then s else { s with objs := s.objs.drop p }

/-- A step of the centre `self` of `n` centres. -/
def centreStep (n self : ℕ) (s : CentreState) : CentreOp → Option CentreState
  | .object op => (objectStep n s.objs op).map fun o => { s with objs := o }
  | .control op => (controlStep s op).map fun c => { s with centre := c }
  | .register p keep registFd =>
    if n ≤ p ∧ s.objs.held p ∧ s.centre.pc ≠ .process then
      some (((s.registerEvent self p registFd).getD s).afterRegister p keep)
    else none
  | .cancel p =>
    if n ≤ p ∧ (s.objs.store p).isSome ∧ s.centre.pc ≠ .process then some (s.cancelEvent self p)
    else none
  | .makeWaitting =>
    if s.centre.pc = .top ∧ s.centre.running then
      some { s.makeWaittingToActive with centre := { s.makeWaittingToActive.centre with pc := .calc } }
    else none
  | .pushActive fd ev =>
    if s.centre.pc = .collect ∧ ev &&& ~~~ioCareEvent = 0#16 then some (s.pushActiveEvent self fd ev)
    else none
  | .launchIter clk => match s.centre.pc with
    | .launch now => s.launchIter now clk
    | _ => none
  | .take => match s.centre.activeEvs with
    | [] => none
    | entry :: rest => if s.centre.pc = .process then s.takeEvent self entry.ev rest else none
  | .handleEnd => match s.centre.pc with
    | .handling p => if (s.objs.store p).isSome then
        some { objs := s.objs.modify p Event.popCurEv, centre := { s.centre with pc := .process } }
      else none
    | _ => none

end Chaos
