import Chaos.EventFlags
import Chaos.Word32
import Mathlib.Data.Int.Init

/-!
# The connecter

`Connecter` and the parts of `Event` it uses, from `net/Event.h` and `net/Event.cpp`, for the backends
other than IOCP. The two buffers are taken as the byte queues that `Buffer` documents. A callback is
always the last thing a handler does, so the handlers return the callback they end with; what the
callback does is left to the steps that follow.
-/
namespace Chaos

open Word32

/-- The bytes or their number, or the `errno` of a call that returned -1. -/
inductive SocketResult (α : Type) where
  | done (a : α)
  | failed (errno : ℕ)
  deriving DecidableEq, Repr

def eintr : ℕ := 4

def eagain : ℕ := 11

def ewouldblock : ℕ := 11

def socketErrNotTryAgain (e : ℕ) : Bool := e != eintr && e != ewouldblock && e != eagain

/-- A callback with what it is called with. -/
inductive Callback where
  | read (nTransBytes : ℤ)
  | write (nTransBytes : ℤ)
  | err (ev : EvMask) (errcode : ℤ)
  deriving DecidableEq, Repr

/-- `errcb`, `readcb` and `writecb` say whether the callback is set. -/
structure Connecter where
  centre : Option ℕ
  ev : EvMask
  curEv : List EvMask
  errcb : Bool
  readcb : Bool
  writecb : Bool
  readBuffer : List UInt8
  writeBuffer : List UInt8
  deriving DecidableEq, Repr

/-- The conversion of an `int` argument to `uint32`. -/
def toUint32 (i : ℤ) : ℕ := (i % 4294967296).toNat

namespace Connecter

/-- The connecter as its constructor leaves it. -/
def new : Connecter := ⟨none, evIoread ||| evIowrite ||| baseCareEvent, [], false, false, false, [], []⟩

def getCurEv (c : Connecter) : EvMask := c.curEv.headD 0#16

/-- `CancelEvent` of the event and, when there is a centre, of the centre with its `PushEvent`. -/
def cancelEvent (c : Connecter) : Connecter :=
  if c.centre.isSome then
    { c with curEv := if c.ev.meets evCancel then c.curEv ++ [evCancel] else c.curEv, centre := none }
  else c

def callErr (c : Connecter) (errcode : ℤ) : Connecter × Option Callback :=
  if c.errcb then (c, some (.err (c.getCurEv ||| evError) errcode)) else (c.cancelEvent, none)

def updateEvent (c : Connecter) (op : EventUpdateOp) (ev : EvMask) : Connecter :=
  if c.centre.isSome then { c with ev := op.apply c.ev ev } else c

def enableEvent (c : Connecter) (ev : EvMask) : Connecter := c.updateEvent .add (ioValid ev)

def disableEvent (c : Connecter) (ev : EvMask) : Connecter := c.updateEvent .del (ioValid ev)

/-- `Connecter::WriteBuffer`; `room` is whether the buffer took the data. -/
def writeBuf (c : Connecter) (data : List UInt8) (room : Bool) : ℤ × Connecter :=
  let written := if room then data.length else 0
  let c := if room then { c with writeBuffer := c.writeBuffer ++ data } else c
  if written = 0 then (-1, c)
  else if c.centre.isNone then (-1, c)
  else (written, c.enableEvent evIowrite)

/-- `Connecter::ReadBuffer`: the bytes taken from the read buffer. -/
def readBuf (c : Connecter) (size : ℕ) : List UInt8 × Connecter :=
  (c.readBuffer.take size, { c with readBuffer := c.readBuffer.drop size })

/-- The end of `HandleRead`, where the socket gave `data` or nothing yet. -/
def finishRead (c : Connecter) (unread readBytes : ℤ) (data : List UInt8) :
    Connecter × Option Callback :=
  let c := { c with readBuffer := c.readBuffer ++ data }
  let c := if unread - readBytes > 0 then c.enableEvent evIoread else c
  (c, if c.readcb then some (.read readBytes) else none)

def maxSingleReadDefault : ℤ := 16384

/-- `HandleRead`; `unreadByte` is what `GetUnreadByte` answers and `recv` the result of `Recv`. -/
def handleRead (c : Connecter) (unreadByte : ℤ) (recv : SocketResult (List UInt8)) :
    Connecter × Option Callback :=
  let unread := if unreadByte ≤ 0 then maxSingleReadDefault else unreadByte
  match recv with
  | .failed e => if socketErrNotTryAgain e then c.callErr e else c.finishRead unread (-1) []
  | .done [] => c.callErr 0
  | .done (a :: data) => c.finishRead unread (data.length + 1) (a :: data)

/-- The end of `HandleWrite`, from `MoveReadPos(sendBytes)` on. -/
def finishWrite (c : Connecter) (sendBytes : ℤ) : Connecter × Option Callback :=
  let c := { c with writeBuffer := c.writeBuffer.drop (toUint32 sendBytes) }
  let c := if c.writeBuffer = [] then c.disableEvent evIowrite else c.enableEvent evIowrite
  (c, if c.writecb then some (.write sendBytes) else none)

/-- `HandleWrite`; `send` is the result of `Send`, which is not called when nothing is queued. -/
def handleWrite (c : Connecter) (send : SocketResult ℕ) : Connecter × Option Callback :=
  if c.writeBuffer = [] then (c, none)
  else match send with
    | .failed e => if socketErrNotTryAgain e then c.callErr (-1) else c.finishWrite (-1)
    | .done n => c.finishWrite n

/-! ## What the operations leave alone -/

section Frame
variable (c : Connecter)

@[simp] theorem cancelEvent_writeBuffer : c.cancelEvent.writeBuffer = c.writeBuffer := by
  rw [cancelEvent]
  split_ifs <;> rfl

@[simp] theorem updateEvent_writeBuffer (op : EventUpdateOp) (ev : EvMask) :
    (c.updateEvent op ev).writeBuffer = c.writeBuffer := by
  rw [updateEvent]
  split_ifs <;> rfl

@[simp] theorem updateEvent_writecb (op : EventUpdateOp) (ev : EvMask) :
    (c.updateEvent op ev).writecb = c.writecb := by
  rw [updateEvent]
  split_ifs <;> rfl

@[simp] theorem enableEvent_writeBuffer (ev : EvMask) :
    (c.enableEvent ev).writeBuffer = c.writeBuffer := updateEvent_writeBuffer c _ _

@[simp] theorem disableEvent_writeBuffer (ev : EvMask) :
    (c.disableEvent ev).writeBuffer = c.writeBuffer := updateEvent_writeBuffer c _ _

@[simp] theorem callErr_writeBuffer (e : ℤ) : (c.callErr e).1.writeBuffer = c.writeBuffer := by
  rw [callErr]
  split_ifs
  · rfl
  · exact cancelEvent_writeBuffer c

@[simp] theorem finishRead_writeBuffer (unread readBytes : ℤ) (data : List UInt8) :
    (c.finishRead unread readBytes data).1.writeBuffer = c.writeBuffer := by
  simp only [finishRead]
  split_ifs <;> simp

@[simp] theorem finishWrite_writeBuffer (sendBytes : ℤ) :
    (c.finishWrite sendBytes).1.writeBuffer = c.writeBuffer.drop (toUint32 sendBytes) := by
  simp only [finishWrite]
  split_ifs <;> simp

/-- The write half that gets past the errors calls the write callback when it is set. -/
theorem finishWrite_call (sendBytes : ℤ) :
    (c.finishWrite sendBytes).2 = if c.writecb then some (.write sendBytes) else none := by
  simp only [finishWrite, enableEvent, disableEvent]
  split_ifs <;> simp_all

theorem callErr_call (e : ℤ) :
    (c.callErr e).2 = if c.errcb then some (.err (c.getCurEv ||| evError) e) else none := by
  rw [callErr]
  split_ifs <;> rfl

@[simp] theorem updateEvent_centre (op : EventUpdateOp) (ev : EvMask) :
    (c.updateEvent op ev).centre = c.centre := by
  rw [updateEvent]
  split_ifs <;> rfl

@[simp] theorem cancelEvent_ev : c.cancelEvent.ev = c.ev := by
  rw [cancelEvent]
  split_ifs <;> rfl

@[simp] theorem cancelEvent_centre : c.cancelEvent.centre = none := by
  cases hc : c.centre <;> simp [cancelEvent, hc]

@[simp] theorem callErr_ev (e : ℤ) : (c.callErr e).1.ev = c.ev := by
  rw [callErr]
  split_ifs
  · rfl
  · exact cancelEvent_ev c

theorem callErr_centre {e : ℤ} (h : (c.callErr e).1.centre.isSome = true) : c.centre.isSome = true := by
  rw [callErr] at h
  split_ifs at h
  · exact h
  · simp at h

@[simp] theorem finishRead_centre (unread readBytes : ℤ) (data : List UInt8) :
    (c.finishRead unread readBytes data).1.centre = c.centre := by
  simp only [finishRead, enableEvent]
  split_ifs <;> simp

@[simp] theorem finishWrite_centre (sendBytes : ℤ) : (c.finishWrite sendBytes).1.centre = c.centre := by
  simp only [finishWrite, enableEvent, disableEvent]
  split_ifs <;> simp

theorem finishRead_call (unread readBytes : ℤ) (data : List UInt8) :
    (c.finishRead unread readBytes data).2 = if c.readcb then some (.read readBytes) else none := by
  simp only [finishRead, enableEvent, updateEvent]
  split_ifs <;> simp_all

@[simp] theorem finishRead_readBuffer (unread readBytes : ℤ) (data : List UInt8) :
    (c.finishRead unread readBytes data).1.readBuffer = c.readBuffer ++ data := by
  simp only [finishRead, enableEvent, updateEvent]
  split_ifs <;> simp_all

@[simp] theorem callErr_readBuffer (e : ℤ) : (c.callErr e).1.readBuffer = c.readBuffer := by
  simp only [callErr, cancelEvent]
  split_ifs <;> rfl

theorem handleRead_writeBuffer (unreadByte : ℤ) (recv : SocketResult (List UInt8)) :
    (c.handleRead unreadByte recv).1.writeBuffer = c.writeBuffer := by
  cases recv with
  | failed e =>
    simp only [handleRead]
    split_ifs <;> simp
  | done data => cases data <;> simp [handleRead]

theorem handleRead_centre {unreadByte : ℤ} {recv : SocketResult (List UInt8)}
    (h : (c.handleRead unreadByte recv).1.centre.isSome = true) : c.centre.isSome = true := by
  cases recv with
  | failed e =>
    cases he : socketErrNotTryAgain e with
    | true =>
      simp only [handleRead, he, if_true] at h
      exact c.callErr_centre h
    | false => simpa [handleRead, he] using h
  | done data =>
    cases data with
    | nil => exact c.callErr_centre h
    | cons a data => simpa [handleRead] using h

theorem handleWrite_centre {send : SocketResult ℕ} (h : (c.handleWrite send).1.centre.isSome = true) :
    c.centre.isSome = true := by
  simp only [handleWrite] at h
  split_ifs at h
  · exact h
  · cases send with
    | done n => simpa using h
    | failed e =>
      dsimp only at h
      split_ifs at h
      · exact c.callErr_centre h
      · simpa using h

end Frame

theorem toUint32_natCast {n : ℕ} (h : n < word32) : toUint32 n = n := by
  rw [word32] at h
  rw [toUint32]
  omega

/-- The write half keeps the queue, or drops from it what the socket took, except that a try-again
error is passed on as 2^32 - 1 bytes. -/
theorem handleWrite_writeBuffer (c : Connecter) (send : SocketResult ℕ) :
    (c.handleWrite send).1.writeBuffer = match send with
      | .done n => c.writeBuffer.drop (toUint32 n)
      | .failed e => if socketErrNotTryAgain e then c.writeBuffer else c.writeBuffer.drop 4294967295 := by
  simp only [handleWrite]
  split_ifs with h
  · cases send with
    | done n => simp [h]
    | failed e => simp [h]
  · cases send with
    | done n => simp
    | failed e =>
      dsimp only
      split_ifs
      · simp
      · rw [finishWrite_writeBuffer]
        rfl

end Connecter

end Chaos
