import Chaos.ConnecterCallbacks
import Mathlib.Logic.Function.Basic

/-!
# The connecter on a completion port

`Connecter` of `net/Event.h` and `net/Event.cpp` with `IOCP_ENABLE`, and `IOCP::Loop` of `net/IOCP.cpp`, with the
kernel and its completion port. The loop over the active events, `Loop` and `RegisterEvent` hold the mutex of the
centre. A callback may call the connecter again, so what a handler does after one is left on a stack, and the calls of
the user come in between. The two buffers are taken as the byte queues that `Buffer` documents.
-/
namespace Chaos

inductive OverlappedKind where
  | read
  | write
  | connect
  deriving DecidableEq, Repr

/-- A `COMPLETION_OVERLAPPED` with the `m_isPost` flag that belongs to it, and how often it was deleted. -/
structure CompletionOverlapped where
  isPost : Bool
  eventDestroy : Bool
  deleted : ℕ
  deriving DecidableEq, Repr

/-- An operation that the kernel has. `packet` is what the completion port has of it: the bytes that it moved and
whether it succeeded, `none` before it has ended. -/
structure PostedIo where
  kind : OverlappedKind
  wsabufs : List UInt8
  packet : Option (List UInt8 × Bool)
  deriving DecidableEq, Repr

/-- `done` is `TRUE`; `pending` says that the last error is still `WSA_IO_PENDING` or `errno` `EISCONN`. The other two
are `FALSE`, the first of them with `WSA_IO_PENDING`. -/
inductive ConnectExResult where
  | done (pending : Bool)
  | pending
  | failed
  deriving DecidableEq, Repr

/-- The rest of a call: the write half of `Handle`, the one of `EnableEvent` and `RegisterCallback`, and
`PopCurEv`. -/
inductive IocpFrame where
  | asynWrite
  | enableWrite
  | popCurEv
  deriving DecidableEq, Repr

/-- `alive` is whether the destructor has not run. The last three fields are outside the connecter: what the kernel
has, the data that `WriteBuffer` took and the data that the kernel took. -/
structure IocpConnecter where
  conn : Connecter
  connected : Bool
  overlapped : OverlappedKind → CompletionOverlapped
  alive : Bool
  frames : List IocpFrame
  posted : List PostedIo
  written : List UInt8
  wire : List UInt8

/-- A call of the user or of the centre. `recv` is whether `WSARecv` takes the operation, with the result 0 or
`WSA_IO_PENDING`; a packet comes in both cases. -/
inductive IocpCall where
  | register (centre : ℕ) (regist recv : Bool)
  | cancel
  | setErrCallback (errcb : Bool)
  | write (data : List UInt8) (room : Bool)
  | read (size : ℕ)
  | enable (ev : EvMask) (recv : Bool)
  | disable (ev : EvMask)
  | connect (ok recv : Bool)
  | asyncConnect (bind : Bool) (ret : ConnectExResult)
  deriving DecidableEq, Repr

/-- `handle` is an activation, `resume` takes what is on top of the stack, with the bytes that the iovecs of `WSASend`
cover, or `none` where it fails. `kernel` ends a posted operation and `complete` is `Loop` with the packet of one. -/
inductive IocpOp where
  | call (c : IocpCall)
  | handle (recv : Bool)
  | resume (send : Option ℕ)
  | kernel (k : ℕ) (data : List UInt8) (bOk : Bool)
  | complete (k : ℕ) (recv : Bool)
  | destroy
  deriving DecidableEq, Repr

namespace IocpConnecter

def maxSingleWriteDefault : ℕ := 16384

/-- After the constructor, which asks `getpeername` whether the socket is connected. -/
def new (connected : Bool) : IocpConnecter :=
  ⟨.new, connected, fun _ => ⟨false, false, 0⟩, true, [], [], [], []⟩

variable (s : IocpConnecter)

def setPost (k : OverlappedKind) (isPost : Bool) : IocpConnecter :=
  { s with overlapped := Function.update s.overlapped k { s.overlapped k with isPost := isPost } }

/-- `delete lo`. -/
def delete (k : OverlappedKind) : IocpConnecter :=
  { s with overlapped := Function.update s.overlapped k { s.overlapped k with deleted := (s.overlapped k).deleted + 1 } }

/-- The kernel takes the operation. -/
def post (k : OverlappedKind) (wsabufs : List UInt8) (packet : Option (List UInt8 × Bool)) : IocpConnecter :=
  { s with posted := s.posted ++ [⟨k, wsabufs, packet⟩] }

/-- The completion port gives a packet out. -/
def unpost (k : ℕ) : IocpConnecter := { s with posted := s.posted.eraseIdx k }

def callErr : IocpConnecter := { s with conn := (s.conn.callErr (-1)).1 }

/-- `PushEventToCentre`. -/
def pushEvent (ev : EvMask) : IocpConnecter :=
  if s.conn.centre.isSome ∧ s.conn.ev.meets ev then
    { s with conn := { s.conn with curEv := s.conn.curEv ++ [ev] } }
  else s

def readComplete (data : List UInt8) (bOk : Bool) : IocpConnecter :=
  if (s.overlapped .read).eventDestroy then s.delete .read
  else
    let s := s.setPost .read false
    if !bOk then s.callErr
    else
      let s := { s with conn := { s.conn with readBuffer := s.conn.readBuffer ++ data } }
      if data = [] then s else s.pushEvent evIoread

def writeComplete (bytes : ℕ) (bOk : Bool) : IocpConnecter :=
  if (s.overlapped .write).eventDestroy then s.delete .write
  else
    let s := s.setPost .write false
    if !bOk then s.callErr
    else
      let s := { s with conn := { s.conn with writeBuffer := s.conn.writeBuffer.drop bytes } }
      if s.conn.writeBuffer = [] then s else s.pushEvent evIowrite

def asynRead (recv : Bool) : IocpConnecter :=
  if (s.overlapped .read).isPost then s
  else if !s.conn.ev.meets evIoread then s
  else if !recv then s.readComplete [] false
  else (s.post .read [] none).setPost .read true

def asynWrite (send : Option ℕ) : IocpConnecter :=
  if (s.overlapped .write).isPost then s
  else if s.conn.writeBuffer = [] then s
  else if !s.conn.ev.meets evIowrite then s
  else match send with
    | none => s.writeComplete 0 false
    | some covered =>
      (s.post .write ((s.conn.writeBuffer.take maxSingleWriteDefault).take covered) none).setPost .write true

/-- `if (!m_isPostRecv && m_connected) AsynRead();` -/
def startRead (recv : Bool) : IocpConnecter :=
  if ¬ (s.overlapped .read).isPost ∧ s.connected then s.asynRead recv else s

/-- `if (!m_isPostWrite && m_connected) AsynWrite();` -/
def startWrite (send : Option ℕ) : IocpConnecter :=
  if ¬ (s.overlapped .write).isPost ∧ s.connected then s.asynWrite send else s

def push (f : IocpFrame) : IocpConnecter := { s with frames := f :: s.frames }

/-- `EnableEvent` up to its write half. -/
def enableEvent (ev : EvMask) (recv : Bool) : IocpConnecter :=
  let s := { s with conn := s.conn.enableEvent ev }
  let s := if ev.meets evIoread then s.startRead recv else s
  if ev.meets evIowrite then s.push .enableWrite else s

/-- `RegisterCallback` up to its write half. -/
def registerCallback (recv : Bool) : IocpConnecter := (s.startRead recv).push .enableWrite

/-- `RegisterEvent`; `regist` is whether `AddEvent` takes the connecter. -/
def registerEvent (centre : ℕ) (regist recv : Bool) : IocpConnecter :=
  if s.conn.centre.isNone ∧ regist then
    { s with conn := { s.conn with centre := some centre } }.registerCallback recv
  else s

/-- `WriteBuffer`; `room` is whether the buffer took the data. -/
def writeBuffer (data : List UInt8) (room : Bool) : IocpConnecter :=
  let s := if room then
      { s with conn := { s.conn with writeBuffer := s.conn.writeBuffer ++ data }, written := s.written ++ data }
    else s
  if ¬ room ∨ data = [] then s
  else if s.conn.centre.isNone then s
  else s.enableEvent evIowrite true

/-- `Connect`, where the call of the socket gives `ok`, and what `ConnectComplete` ends with. -/
def connectDone (ok recv : Bool) : IocpConnecter :=
  if ok then { s with connected := true }.enableEvent ioCareEvent recv else s

def connectComplete (bOk recv : Bool) : IocpConnecter :=
  if (s.overlapped .connect).eventDestroy then s.delete .connect
  else (s.setPost .connect false).connectDone bOk recv

/-- `AsyncConnect`. `ConnectEx` answers `FALSE` where it is pending and `TRUE` where it is done. -/
def asyncConnect (bind : Bool) (ret : ConnectExResult) : IocpConnecter :=
  if (s.overlapped .connect).isPost ∨ s.connected then s
  else if !bind then s
  else match ret with
    | .failed => s
    | .pending => s.post .connect [] none
    | .done pending =>
      let s := s.post .connect [] (some ([], true))
      if !pending then s.connectComplete false false else s.setPost .connect true

/-- `Handle` up to its write half, or `DeleteEvent` at a cancel mark. -/
def handle (ev : EvMask) (recv : Bool) : IocpConnecter :=
  if ev.meets evCancel then s
  else
    let s := if ev.meets evIoread then s.asynRead recv else s
    { s with frames := if ev.meets evIowrite then [.asynWrite, .popCurEv] else [.popCurEv] }

def resume (send : Option ℕ) : IocpFrame → IocpConnecter
  | .asynWrite => s.asynWrite send
  | .enableWrite => s.startWrite send
  | .popCurEv => { s with conn := s.conn.popCurEv }

/-- The destructor, for one overlapped. -/
def destroyed (o : CompletionOverlapped) : CompletionOverlapped :=
  { o with eventDestroy := true, deleted := if !o.isPost then o.deleted + 1 else o.deleted }

def destroy : IocpConnecter := { s with overlapped := fun k => destroyed (s.overlapped k), alive := false }

/-- The end of a posted operation. One that fails has moved nothing. -/
def canMove (p : PostedIo) (data : List UInt8) (bOk : Bool) : Bool := match p.kind with
  | .read => data.length ≤ 16384 && (bOk || data.isEmpty)
  | .write => data.isPrefixOf p.wsabufs && (bOk || data.isEmpty)
  | .connect => data.isEmpty

/-- `Loop` with a packet. -/
def complete (p : PostedIo) (data : List UInt8) (bOk recv : Bool) : IocpConnecter := match p.kind with
  | .read => s.readComplete data bOk
  | .write => s.writeComplete data.length bOk
  | .connect => s.connectComplete bOk recv

def call : IocpCall → IocpConnecter
  | .register centre regist recv => s.registerEvent centre regist recv
  | .cancel => { s with conn := s.conn.cancelEvent }
  | .setErrCallback errcb => { s with conn := { s.conn with errcb := errcb } }
  | .write data room => s.writeBuffer data room
  | .read size => { s with conn := (s.conn.readBuf size).2 }
  | .enable ev recv => s.enableEvent ev recv
  | .disable ev => { s with conn := s.conn.disableEvent ev }
  | .connect ok recv => s.connectDone ok recv
  | .asyncConnect bind ret => s.asyncConnect bind ret

def step : IocpOp → Option IocpConnecter
  | .call c => if s.alive then some (s.call c) else none
  | .handle recv => match s.conn.curEv with
    | [] => none
    | ev :: _ => if s.alive ∧ s.frames = [] ∧ s.conn.centre.isSome then some (s.handle ev recv) else none
  | .resume send => match s.frames with
    | [] => none
    | f :: frames => some ({ s with frames := frames }.resume send f)
  | .kernel k data bOk => (s.posted[k]?).bind fun p =>
    if p.packet = none ∧ canMove p data bOk then some { s with
      posted := s.posted.eraseIdx k ++ [{ p with packet := some (data, bOk) }]
      wire := if p.kind = .write then s.wire ++ data else s.wire }
    else none
  | .complete k recv => (s.posted[k]?).bind fun p => p.packet.bind fun packet =>
    if s.frames = [] then some ((s.unpost k).complete p packet.1 packet.2 recv) else none
  | .destroy => if s.alive ∧ s.frames = [] ∧ s.conn.centre.isNone then some s.destroy else none

/-- What a step does, with what the code has checked before it. -/
inductive Pass (s : IocpConnecter) : IocpOp → IocpConnecter → Prop where
  | call (halive : s.alive = true) (c : IocpCall) : Pass s (.call c) (s.call c)
  | handle {ev : EvMask} {evs : List EvMask} (halive : s.alive = true) (hframes : s.frames = [])
      (hcentre : s.conn.centre.isSome = true) (hcur : s.conn.curEv = ev :: evs) (recv : Bool) :
      Pass s (.handle recv) (s.handle ev recv)
  | resume {f : IocpFrame} {frames : List IocpFrame} (hframes : s.frames = f :: frames) (send : Option ℕ) :
      Pass s (.resume send) ({ s with frames := frames }.resume send f)
  | kernel {k : ℕ} {kind : OverlappedKind} {wsabufs data : List UInt8} {bOk : Bool}
      (hp : s.posted[k]? = some ⟨kind, wsabufs, none⟩) (hmove : canMove ⟨kind, wsabufs, none⟩ data bOk = true) :
      Pass s (.kernel k data bOk) { s with
        posted := s.posted.eraseIdx k ++ [⟨kind, wsabufs, some (data, bOk)⟩]
        wire := if kind = .write then s.wire ++ data else s.wire }
  | complete {k : ℕ} {kind : OverlappedKind} {wsabufs data : List UInt8} {bOk : Bool} (hframes : s.frames = [])
      (hp : s.posted[k]? = some ⟨kind, wsabufs, some (data, bOk)⟩) (recv : Bool) :
      Pass s (.complete k recv) ((s.unpost k).complete ⟨kind, wsabufs, some (data, bOk)⟩ data bOk recv)
  | destroy (halive : s.alive = true) (hframes : s.frames = []) (hcentre : s.conn.centre = none) :
      Pass s .destroy s.destroy

theorem pass_of_step {s t : IocpConnecter} {op : IocpOp} (h : s.step op = some t) : Pass s op t := by
  cases op with
  | call c =>
    obtain ⟨halive, ht⟩ := Option.ite_none_right_eq_some.mp h
    obtain rfl := Option.some.inj ht
    exact .call halive c
  | handle recv =>
    cases hcur : s.conn.curEv with
    | nil => simp [step, hcur] at h
    | cons ev evs =>
      simp only [step, hcur] at h
      obtain ⟨⟨halive, hframes, hcentre⟩, ht⟩ := Option.ite_none_right_eq_some.mp h
      obtain rfl := Option.some.inj ht
      exact .handle halive hframes hcentre hcur recv
  | resume send =>
    cases hframes : s.frames with
    | nil => simp [step, hframes] at h
    | cons f frames =>
      simp only [step, hframes] at h
      obtain rfl := Option.some.inj h
      exact .resume hframes send
  | kernel k data bOk =>
    obtain ⟨⟨kind, wsabufs, packet⟩, hp, h⟩ := Option.bind_eq_some_iff.mp h
    obtain ⟨⟨hpacket, hmove⟩, ht⟩ := Option.ite_none_right_eq_some.mp h
    obtain rfl : packet = none := hpacket
    obtain rfl := Option.some.inj ht
    exact .kernel hp hmove
  | complete k recv =>
    obtain ⟨⟨kind, wsabufs, packet⟩, hp, h⟩ := Option.bind_eq_some_iff.mp h
    obtain ⟨⟨data, bOk⟩, hpacket, h⟩ := Option.bind_eq_some_iff.mp h
    obtain rfl : packet = some (data, bOk) := hpacket
    obtain ⟨hframes, ht⟩ := Option.ite_none_right_eq_some.mp h
    obtain rfl := Option.some.inj ht
    exact .complete hframes hp recv
  | destroy =>
    obtain ⟨⟨halive, hframes, hcentre⟩, ht⟩ := Option.ite_none_right_eq_some.mp h
    obtain rfl := Option.some.inj ht
    exact .destroy halive hframes (Option.isNone_iff_eq_none.mp hcentre)

end IocpConnecter

end Chaos
