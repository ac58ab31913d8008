import Mathlib.Data.Int.Notation
import Mathlib.Data.List.Basic

/-!
# The accept slots of a listener on a completion port

`Listener::StartAsynAccept`, `AsynAccept`, `AcceptComplete` and `Handle` of `net/Event.cpp` with `IOCP_ENABLE`, and
`IOCP::Loop` of `net/IOCP.cpp`, with the kernel and its completion port. The loop over the active events, `Loop` and
`RegisterEvent` hold the mutex of the centre, so each of them is one step. What the calls of the system return is an
argument, true where they succeed.
-/
namespace Chaos

/-- An `ACCEPT_OVERLAPPED`. A socket is the number of its creation, `none` is `INVALID_SOCKET`. -/
structure AcceptOverlapped where
  acceptfd : Option ℕ
  eventDestroy : Bool
  deriving DecidableEq, Repr

/-- A slot that the kernel has, with the socket for the connection. `packet` is what the completion port has of it,
`none` before the operation has ended. -/
structure PostedAccept where
  slot : ℕ
  fd : ℕ
  packet : Option Bool
  deriving DecidableEq, Repr

/-- `pending` is a failure with `ERROR_IO_PENDING`. -/
inductive AcceptExResult where
  | done
  | pending
  | failed
  deriving DecidableEq, Repr

/-- What `AsynAccept` finds. `setsockopt` is the call that `AcceptComplete` makes. -/
structure AsynAcceptCalls where
  getsockname : Bool
  getsockopt : Bool
  socket : Bool
  acceptEx : AcceptExResult
  setsockopt : Bool
  deriving DecidableEq, Repr

/-- `curEv` counts the `EV_IOREAD`s that wait to be handled, `registered` says that `m_pCentre` is set. The last four
fields are outside the listener: the sockets created so far, what the kernel has, the connections that it accepted
and those that `CallListenerCb` was called with. -/
structure IocpListener where
  acceptOls : List AcceptOverlapped
  refcnt : ℤ
  acceptedq : List ℕ
  registered : Bool
  curEv : ℕ
  sockets : ℕ
  posted : List PostedAccept
  accepted : List ℕ
  delivered : List ℕ
  deriving DecidableEq, Repr

/-- `kernel` ends a posted operation, `complete` is `Loop` with the packet of one. -/
inductive AcceptOp where
  | kernel (k : ℕ) (bOk : Bool)
  | complete (k : ℕ) (setsockopt : Bool)
  | handle (c : AsynAcceptCalls)
  | cancel
  deriving DecidableEq, Repr

namespace IocpListener

def initAsynAccepting : ℕ := 8

/-- After the constructor and `SetCenter`. -/
def new : IocpListener := ⟨List.replicate initAsynAccepting ⟨none, false⟩, 0, [], true, 0, 0, [], [], []⟩

variable (s : IocpListener)

/-- Without a callback for errors the event is cancelled. -/
def callErr (errcb : Bool) : IocpListener := { s with registered := errcb && s.registered }

/-- `PushEventToCentre(EV_IOREAD)`. -/
def pushEvent : IocpListener := { s with curEv := if s.registered then s.curEv + 1 else s.curEv }

/-- `AcceptComplete`. `eventDestroy` is set by the destructor only. The call of `setsockopt` fails on
`INVALID_SOCKET`. -/
def acceptComplete (slot : ℕ) (bOk setsockopt : Bool) : IocpListener :=
  let s := { s with refcnt := s.refcnt - 1 }
  match s.acceptOls[slot]? with
  | none => s
  | some lo =>
    if lo.eventDestroy then s
    else if !bOk then s
    else match lo.acceptfd with
      | none => s
      | some acceptedfd =>
        if !setsockopt then s
        else { { s with acceptedq := s.acceptedq ++ [slot] }.pushEvent with delivered := s.delivered ++ [acceptedfd] }

/-- `lo->acceptfd = socket(..)`. -/
def setAcceptfd (slot : ℕ) (socket : Bool) : IocpListener :=
  { s with
    acceptOls := s.acceptOls.modify slot fun lo => { lo with acceptfd := if socket then some s.sockets else none }
    sockets := if socket then s.sockets + 1 else s.sockets }

/-- The kernel takes the slot and `refcnt` goes up. A packet is there at once where `AcceptEx` succeeds. -/
def post (slot fd : ℕ) (packet : Option Bool) : IocpListener :=
  { s with
    posted := s.posted ++ [⟨slot, fd, packet⟩]
    accepted := if packet = some true then s.accepted ++ [fd] else s.accepted
    refcnt := s.refcnt + 1 }

/-- `AsynAccept`, with whether it returns 0. `AcceptEx` fails on `INVALID_SOCKET`. -/
def asynAccept (slot : ℕ) (c : AsynAcceptCalls) : Bool × IocpListener :=
  if !c.getsockname then (false, s)
  else if !c.getsockopt then (false, s)
  else if !c.socket then (false, s.setAcceptfd slot false)
  else match c.acceptEx with
    | .done =>
      (true, ((s.setAcceptfd slot true).post slot s.sockets (some true)).acceptComplete slot true c.setsockopt)
    | .pending => (true, (s.setAcceptfd slot true).post slot s.sockets none)
    | .failed => (false, s.setAcceptfd slot true)

/-- The loop of `StartAsynAccept`. -/
def startFrom (errcb : Bool) (calls : ℕ → AsynAcceptCalls) : List ℕ → IocpListener → IocpListener
  | [], s => s
  | slot :: slots, s =>
    let r := s.asynAccept slot (calls slot)
    if r.1 then startFrom errcb calls slots r.2 else r.2.callErr errcb

def startAsynAccept (errcb : Bool) (calls : ℕ → AsynAcceptCalls) : IocpListener :=
  startFrom errcb calls (List.range initAsynAccepting) s

/-- `Handle` on `EV_IOREAD`. -/
def handle (c : AsynAcceptCalls) : IocpListener := match s.acceptedq with
  | [] => s
  | slot :: acceptedq => ({ s with acceptedq := acceptedq }.asynAccept slot c).2

def step : AcceptOp → Option IocpListener
  | .kernel k bOk => (s.posted[k]?).bind fun p =>
    if p.packet = none then some { s with
      posted := s.posted.eraseIdx k ++ [{ p with packet := some bOk }]
      accepted := if bOk then s.accepted ++ [p.fd] else s.accepted }
    else none
  | .complete k setsockopt => (s.posted[k]?).bind fun p => p.packet.map fun bOk =>
    { s with posted := s.posted.eraseIdx k }.acceptComplete p.slot bOk setsockopt
  | .handle c =>
    if s.registered = true ∧ 0 < s.curEv then some { s.handle c with curEv := (s.handle c).curEv - 1 } else none
  | .cancel => some { s with registered := false }

end IocpListener

end Chaos
