import Chaos.ConnecterCallbacks
import Mathlib.Logic.Function.Basic

/-!
# The echo server

`Server` of `gamesvr/main.cpp`. The listener's thread registers a connecter for each accepted socket with the centre and
then makes its entry in `m_clients`, also where the centre refused the connecter; the callbacks, on the thread of the
centre, write back what was read and count the bytes in that entry, which the error callback erases. A lookup of
`m_clients` does not look whether it found one. The two threads use `m_clients` without a mutex: a step here is taken
as atomic, and nothing is said about accesses that overlap.
-/
namespace Chaos

open Connecter GuardedRuns Word32

structure Client where
  fd : ℕ
  totalReadSize : BitVec 64
  totalWriteSize : BitVec 64

/-- A connecter of the centre, with the bytes that its socket gave and took. -/
structure EchoConn where
  round : ConnRound
  received : List UInt8
  sent : List UInt8

/-- `accepting` is the socket between the two halves of `ListenCb`, `lost` whether a lookup of `clients` has come to its
end. Whether the centre refused the last connecter of a socket is noted in `refused`; nothing here reads it. -/
structure Server where
  conns : ℕ → Option EchoConn
  clients : ℕ → Option Client
  accepting : Option ℕ
  refused : ℕ → Bool
  lost : Bool

/-- `accept` is the first half of `ListenCb`, up to the answer of `RegisterEvent`, which it ignores, and `insert` the
second; `callback` is a callback from its call to its return; `close` deletes a connecter that was cancelled. -/
inductive ServerOp where
  | accept (fd : ℕ) (registered : Bool)
  | insert (fd : ℕ)
  | loop (fd : ℕ) (op : RoundOp)
  | callback (fd : ℕ) (room : Bool)
  | close (fd : ℕ)

namespace Server

def start : Server := ⟨fun _ => none, fun _ => none, none, fun _ => false, false⟩

/-- The connecter that `ListenCb` registers. -/
def accepted : EchoConn :=
  ⟨{ ConnRound.start with
    conn := { Connecter.new with centre := some 0, errcb := true, readcb := true, writecb := true } }, [], []⟩

/-! ## The callbacks -/

section Callbacks
variable (clients : ℕ → Option Client) (fd : ℕ) (c : Connecter)

/-- A change of `m_clients.find(fd)->second`. -/
def count (f : Client → Client) : Option (ℕ → Option Client) :=
  (clients fd).map fun client => Function.update clients fd (some (f client))

/-- `Server::ReadCb`; `room` is whether the buffer takes the data. -/
def readCb (nTransBytes : ℤ) (room : Bool) : Option ((ℕ → Option Client) × Connecter) :=
  if nTransBytes = 0 then some (clients, c.cancelEvent)
  else
    let r := c.readBuf c.readBuffer.length
    let w := r.2.writeBuf r.1 room
    if 0 ≥ w.1 then some (clients, w.2)
    else (count clients fd fun client =>
      { client with totalReadSize := client.totalReadSize + BitVec.ofInt 64 nTransBytes }).map (·, w.2)

def writeCb (nTransBytes : ℤ) : Option ((ℕ → Option Client) × Connecter) :=
  (count clients fd fun client =>
    { client with totalWriteSize := client.totalWriteSize + BitVec.ofInt 64 nTransBytes }).map (·, c)

def eventCb (ev : EvMask) : (ℕ → Option Client) × Connecter :=
  if ev.meets (evCancel ||| evError) then
    (if c.ev.meets ioCareEvent then Function.update clients fd none else clients, c.cancelEvent)
  else (clients, c)

def runCallback (room : Bool) : Callback → Option ((ℕ → Option Client) × Connecter)
  | .read nTransBytes => readCb clients fd c nTransBytes room
  | .write nTransBytes => writeCb clients fd c nTransBytes
  | .err ev _ => some (eventCb clients fd c ev)

end Callbacks

/-! ## The server -/

/-- The steps of a round that are not the user's. -/
def ofLoop : RoundOp → Bool
  | .user _ => false
  | .ret => false
  | .activate _ => true
  | .take => true
  | .readHalf _ _ => true
  | .writeHalf _ => true

def inCallback : HandlePhase → Bool
  | .readCall _ => true
  | .writeCall => true
  | .idle => false
  | .readHalf _ => false
  | .writeHalf _ => false

/-- The callback that runs is the last one that was called. -/
def running (r : ConnRound) : Option Callback := r.calls.getLast?.map Prod.fst

def gave : SocketResult (List UInt8) → List UInt8
  | .done data => data
  | .failed _ => []

def took : SocketResult ℕ → ℕ
  | .done n => n
  | .failed _ => 0

/-- What the socket gives in a step of the loop. -/
def given (r : ConnRound) : RoundOp → List UInt8
  | .readHalf _ recv =>
    match r.phase with
    | .readHalf ev => if ev.meets evIoread then gave recv else []
    | _ => []
  | _ => []

/-- What it takes. -/
def takes (r : ConnRound) : RoundOp → List UInt8
  | .writeHalf send =>
    match r.phase with
    | .writeHalf ev => if ev.meets evIowrite then r.conn.writeBuffer.take (took send) else []
    | _ => []
  | _ => []

def runLoop (e : EchoConn) (op : RoundOp) : Option EchoConn :=
  (roundStep e.round op).map fun r => ⟨r, e.received ++ given e.round op, e.sent ++ takes e.round op⟩

/-- The callback of `fd`, which ends the program where it looks up a client that is not there. -/
def runCall (s : Server) (fd : ℕ) (room : Bool) (e : EchoConn) (cb : Callback) : Option Server :=
  match runCallback s.clients fd e.round.conn room cb with
  | none => some { s with lost := true }
  | some (clients, c) => (roundStep (e.round.update (c, none)) .ret).map fun r =>
      { s with clients := clients, conns := Function.update s.conns fd (some { e with round := r }) }

def move (s : Server) : ServerOp → Option Server
  | .accept fd registered =>
    if (s.conns fd).isNone ∧ s.accepting = none then
      some { s with
        conns := if registered then Function.update s.conns fd (some accepted) else s.conns
        accepting := some fd
        refused := Function.update s.refused fd !registered }
    else none
  | .insert fd =>
    if s.accepting = some fd then
      some { s with
        clients := if (s.clients fd).isNone then Function.update s.clients fd (some ⟨fd, 0, 0⟩) else s.clients
        accepting := none }
    else none
  | .loop fd op =>
    match s.conns fd with
    | none => none
    | some e =>
      if ofLoop op then (runLoop e op).map fun e => { s with conns := Function.update s.conns fd (some e) } else none
  | .callback fd room =>
    match s.conns fd with
    | none => none
    | some e =>
      match running e.round with
      | none => none
      | some cb => if inCallback e.round.phase then s.runCall fd room e cb else none
  | .close fd =>
    match s.conns fd with
    | none => none
    | some e =>
      if e.round.phase = .idle ∧ e.round.conn.centre.isNone then
        some { s with conns := Function.update s.conns fd none }
      else none

/-- Nothing is said about a program that has looked up a client that is not there. -/
def step (s : Server) (op : ServerOp) : Option Server := if s.lost then none else s.move op

/-! ## What a run is asked for -/

/-- A try-again error of a send drops what is queued, and an `int` is the size of a send. -/
def keepsQueue (c : Connecter) : SocketResult ℕ → Prop
  | .failed e => socketErrNotTryAgain e = true ∨ c.writeBuffer = []
  | .done n => n < word32

def loopOk (e : EchoConn) : RoundOp → Prop
  | .writeHalf send => roundOk e.round (.writeHalf send) ∧ keepsQueue e.round.conn send
  | _ => True

def connOk (op : RoundOp) : Option EchoConn → Prop
  | none => True
  | some e => loopOk e op

/-- No send drops what is queued or follows an error in its activation with something queued; a read meets room for its
echo; and a callback runs behind the end of `ListenCb`. -/
def echoOk (s : Server) : ServerOp → Prop
  | .loop fd op => connOk op (s.conns fd)
  | .callback fd room => room = true ∧ s.accepting ≠ some fd
  | _ => True

instance (c : Connecter) : (send : SocketResult ℕ) → Decidable (keepsQueue c send)
  | .failed e => inferInstanceAs (Decidable (socketErrNotTryAgain e = true ∨ c.writeBuffer = []))
  | .done n => inferInstanceAs (Decidable (n < word32))

instance (e : EchoConn) : (op : RoundOp) → Decidable (loopOk e op)
  | .writeHalf send => inferInstanceAs (Decidable (roundOk e.round (.writeHalf send) ∧ keepsQueue e.round.conn send))
  | .activate _ | .take | .readHalf _ _ | .user _ | .ret => isTrue trivial

instance (op : RoundOp) : (e : Option EchoConn) → Decidable (connOk op e)
  | none => isTrue trivial
  | some e => inferInstanceAs (Decidable (loopOk e op))

instance (s : Server) : (op : ServerOp) → Decidable (echoOk s op)
  | .loop fd op => inferInstanceAs (Decidable (connOk op (s.conns fd)))
  | .callback fd room => inferInstanceAs (Decidable (room = true ∧ s.accepting ≠ some fd))
  | .accept _ _ | .insert _ | .close _ => isTrue trivial

/-! ## The handlers -/

/-- What the callbacks rely on: that they are set, and that the mask has a bit of `IO_CARE_EVENT`. -/
structure Ready (c : Connecter) : Prop where
  errcb : c.errcb = true
  readcb : c.readcb = true
  writecb : c.writecb = true
  reads : c.ev.meets evIoread = true

/-- What a read half that added `data` calls. -/
def ReadCalls (data : List UInt8) (cb : Callback) : Prop :=
  (cb = .read data.length ∧ data ≠ []) ∨
    (data = [] ∧ (cb = .read (-1) ∨ ∃ ev errcode, cb = .err ev errcode ∧ ev.meets evError = true))

/-- What a write half that took `n` bytes calls. -/
def WriteCalls (n : ℕ) (cb : Callback) : Prop :=
  cb = .write n ∨ (n = 0 ∧ ∃ ev errcode, cb = .err ev errcode ∧ ev.meets evError = true)

section Handlers
variable {c : Connecter}

theorem Ready.updateEvent (h : Ready c) {op : EventUpdateOp} {ev : EvMask}
    (hkept : (op.apply c.ev ev).meets evIoread = true) : Ready (c.updateEvent op ev) := by
  rw [Connecter.updateEvent]
  split_ifs
  · exact ⟨h.errcb, h.readcb, h.writecb, hkept⟩
  · exact h

theorem Ready.enableEvent (h : Ready c) (ev : EvMask) : Ready (c.enableEvent ev) := by
  apply h.updateEvent
  rw [meets_apply_ioValid (by simp)]
  split_ifs
  · rfl
  · exact h.reads

theorem Ready.disableWrite (h : Ready c) : Ready (c.disableEvent evIowrite) := by
  apply h.updateEvent
  rw [meets_apply_ioValid (by simp), if_neg (by decide)]
  exact h.reads

theorem meets_err (ev : EvMask) : (ev ||| evError).meets evError = true := by
  rw [EvMask.meets, BitVec.and_comm, BitVec.and_or_distrib_left, BitVec.and_self, bne_iff_ne, ne_eq,
    BitVec.or_eq_zero_iff]
  exact fun hzero => absurd hzero.2 (by decide)

theorem callErr_ready (h : Ready c) (errcode : ℤ) :
    c.callErr errcode = (c, some (.err (c.getCurEv ||| evError) errcode)) := if_pos h.errcb

theorem finishRead_ready (h : Ready c) (unread readBytes : ℤ) (data : List UInt8) :
    ∃ d, c.finishRead unread readBytes data = (d, some (.read readBytes)) ∧ Ready d ∧ d.centre = c.centre ∧
      d.writeBuffer = c.writeBuffer ∧ d.readBuffer = c.readBuffer ++ data := by
  refine ⟨(c.finishRead unread readBytes data).1, ?_, ?_, c.finishRead_centre _ _ _, c.finishRead_writeBuffer _ _ _,
    c.finishRead_readBuffer _ _ _⟩
  · apply Prod.ext
    · rfl
    · rw [finishRead_call, if_pos h.readcb]
  · have hread : Ready { c with readBuffer := c.readBuffer ++ data } := ⟨h.errcb, h.readcb, h.writecb, h.reads⟩
    simp only [Connecter.finishRead]
    split_ifs
    · exact hread.enableEvent _
    · exact hread

theorem handleRead_ready (h : Ready c) (unreadByte : ℤ) (recv : SocketResult (List UInt8)) :
    ∃ d cb, c.handleRead unreadByte recv = (d, some cb) ∧ ReadCalls (gave recv) cb ∧ Ready d ∧ d.centre = c.centre ∧
      d.writeBuffer = c.writeBuffer ∧ d.readBuffer = c.readBuffer ++ gave recv := by
  have herr (errcode : ℤ) : ∃ d cb, c.callErr errcode = (d, some cb) ∧ ReadCalls [] cb ∧ Ready d ∧
      d.centre = c.centre ∧ d.writeBuffer = c.writeBuffer ∧ d.readBuffer = c.readBuffer ++ [] :=
    ⟨c, _, callErr_ready h errcode, .inr ⟨rfl, .inr ⟨_, _, rfl, meets_err _⟩⟩, h, rfl, rfl,
      (List.append_nil _).symm⟩
  cases recv with
  | failed e =>
    rw [handleRead]
    by_cases hhard : socketErrNotTryAgain e
    · simp only [if_pos hhard]
      exact herr _
    · simp only [if_neg hhard]
      obtain ⟨d, hd, hkept⟩ := finishRead_ready h (if unreadByte ≤ 0 then maxSingleReadDefault else unreadByte) (-1) []
      exact ⟨d, _, hd, .inr ⟨rfl, .inl rfl⟩, hkept⟩
  | done data =>
    cases data with
    | nil => exact herr 0
    | cons a data =>
      obtain ⟨d, hd, hkept⟩ := finishRead_ready h (if unreadByte ≤ 0 then maxSingleReadDefault else unreadByte)
        (data.length + 1) (a :: data)
      exact ⟨d, _, hd, .inl ⟨rfl, List.cons_ne_nil _ _⟩, hkept⟩

theorem handleWrite_ready (h : Ready c) {send : SocketResult ℕ} (hne : c.writeBuffer ≠ [])
    (hkeeps : keepsQueue c send) :
    ∃ d cb, c.handleWrite send = (d, some cb) ∧ WriteCalls (took send) cb ∧ Ready d ∧ d.centre = c.centre ∧
      d.readBuffer = c.readBuffer ∧ d.writeBuffer = c.writeBuffer.drop (took send) := by
  simp only [handleWrite, if_neg hne]
  cases send with
  | failed e =>
    have hhard : socketErrNotTryAgain e = true := hkeeps.resolve_right hne
    simp only [if_pos hhard]
    exact ⟨c, _, callErr_ready h _, .inr ⟨rfl, _, _, rfl, meets_err _⟩, h, rfl, rfl, rfl⟩
  | done n =>
    have hdrop : toUint32 n = n := toUint32_natCast hkeeps
    have hready : Ready { c with writeBuffer := c.writeBuffer.drop (toUint32 n) } :=
      ⟨h.errcb, h.readcb, h.writecb, h.reads⟩
    refine ⟨(c.finishWrite n).1, .write n, ?_, .inl rfl, ?_, c.finishWrite_centre _, ?_, ?_⟩
    · apply Prod.ext
      · rfl
      · rw [finishWrite_call, if_pos h.writecb]
    · simp only [finishWrite]
      split_ifs
      · exact hready.disableWrite
      · exact hready.enableEvent _
    · simp only [finishWrite, disableEvent, enableEvent, updateEvent]
      split_ifs <;> rfl
    · rw [finishWrite_writeBuffer, hdrop]
      rfl

theorem sendCallbackSet_ready (h : Ready c) (send : SocketResult ℕ) : c.sendCallbackSet send = true := by
  cases send with
  | failed e =>
    rw [sendCallbackSet]
    split_ifs
    · exact h.errcb
    · exact h.writecb
  | done n => exact h.writecb

theorem took_le_of_fits {send : SocketResult ℕ} (h : sendFits c send) : took send ≤ c.writeBuffer.length := by
  cases send with
  | failed e => exact Nat.zero_le _
  | done n => exact of_decide_eq_true h

end Handlers

/-! ## One connection -/

/-- The bytes of the send whose callback has not counted them yet. -/
def pendingWrite (r : ConnRound) : ℤ :=
  match r.phase, running r with
  | .writeCall, some (.write n) => n
  | _, _ => 0

/-- A callback that runs is that of the half before it; outside of a read callback nothing waits to be read. -/
def PhaseOk (r : ConnRound) : Prop :=
  match r.phase with
  | .idle => r.conn.readBuffer = []
  | .readHalf _ => r.conn.readBuffer = [] ∧ r.cancelled = false
  | .readCall _ => r.cancelled = false ∧ ∃ cb, running r = some cb ∧ ReadCalls r.conn.readBuffer cb
  | .writeHalf _ => r.conn.readBuffer = []
  | .writeCall => r.conn.readBuffer = [] ∧ r.cancelled = false ∧ ∃ n cb, running r = some cb ∧ WriteCalls n cb

structure Sound (e : EchoConn) : Prop where
  ready : Ready e.round.conn
  cancelled : e.round.cancelled = e.round.conn.centre.isNone
  stream : e.sent ++ e.round.conn.writeBuffer ++ e.round.conn.readBuffer = e.received
  phase : PhaseOk e.round

/-- The client has the bytes of the connection, those aside that a callback is still to count. -/
structure Counted (e : EchoConn) (client : Client) : Prop where
  read : client.totalReadSize + BitVec.ofNat 64 e.round.conn.readBuffer.length = BitVec.ofNat 64 e.received.length
  write : client.totalWriteSize + BitVec.ofInt 64 (pendingWrite e.round) = BitVec.ofNat 64 e.sent.length

structure Moved (e e' : EchoConn) : Prop where
  sound : Sound e'
  cancelled : e'.round.cancelled = e.round.cancelled
  counted : ∀ client, Counted e client → Counted e' client

theorem update_cancelled {r : ConnRound} (h : r.cancelled = r.conn.centre.isNone) (d : Connecter × Option Callback) :
    (r.update d).cancelled = d.1.centre.isNone := by
  change (d.1.centre.isNone && (r.cancelled || r.conn.centre.isSome)) = d.1.centre.isNone
  rw [h]
  cases r.conn.centre <;> simp

theorem running_update (r : ConnRound) (c : Connecter) (cb : Callback) : running (r.update (c, some cb)) = some cb := by
  simp [running, ConnRound.update]

theorem pendingWrite_of_ne {r : ConnRound} (h : r.phase ≠ .writeCall) : pendingWrite r = 0 := by
  rw [pendingWrite]
  split
  · exact absurd ‹_› h
  · rfl

theorem pendingWrite_writeCall {r : ConnRound} {n : ℕ} {cb : Callback} (hphase : r.phase = .writeCall)
    (hcb : running r = some cb) (hcalls : WriteCalls n cb) : pendingWrite r = n := by
  rw [pendingWrite, hphase, hcb]
  cases hcalls with
  | inl hwrite => rw [hwrite]
  | inr herr =>
    obtain ⟨rfl, ev, errcode, rfl, -⟩ := herr
    rfl

section Conn
variable {e : EchoConn} {r : ConnRound} {g t : List UInt8}

/-- A step that reads `g` and sends `t`, of which the callbacks hear later. -/
theorem Sound.move (h : Sound e) (hready : Ready r.conn) (hcentre : r.conn.centre = e.round.conn.centre)
    (hcancel : r.cancelled = r.conn.centre.isNone) (hread : r.conn.readBuffer = e.round.conn.readBuffer ++ g)
    (hwrite : e.round.conn.writeBuffer = t ++ r.conn.writeBuffer)
    (hphase : PhaseOk r) (hpending : pendingWrite r = pendingWrite e.round + t.length) :
    Moved e ⟨r, e.received ++ g, e.sent ++ t⟩ where
  sound := by
    refine ⟨hready, hcancel, ?_, hphase⟩
    have hstream := h.stream
    rw [hwrite] at hstream
    rw [hread, ← hstream]
    simp only [List.append_assoc]
  cancelled := by rw [h.cancelled, ← hcentre, ← hcancel]
  counted := by
    intro client hclient
    constructor
    · change _ + BitVec.ofNat 64 r.conn.readBuffer.length = _
      rw [hread, List.length_append, List.length_append, BitVec.ofNat_add, BitVec.ofNat_add, ← BitVec.add_assoc,
        hclient.read]
    · change _ + BitVec.ofInt 64 (pendingWrite r) = _
      rw [hpending, List.length_append, BitVec.ofInt_add, BitVec.ofInt_natCast, BitVec.ofNat_add, ← BitVec.add_assoc,
        hclient.write]

theorem PhaseOk.idle (h : r.phase = .idle) : PhaseOk r ↔ r.conn.readBuffer = [] := by
  rw [PhaseOk, h]

theorem PhaseOk.readHalf {ev : EvMask} (h : r.phase = .readHalf ev) :
    PhaseOk r ↔ r.conn.readBuffer = [] ∧ r.cancelled = false := by
  rw [PhaseOk, h]

theorem PhaseOk.writeHalf {ev : EvMask} (h : r.phase = .writeHalf ev) : PhaseOk r ↔ r.conn.readBuffer = [] := by
  rw [PhaseOk, h]

/-- A step of the round that moves no bytes and calls nothing back. -/
theorem Sound.quiet (h : Sound e) (hready : Ready r.conn) (hcentre : r.conn.centre = e.round.conn.centre)
    (hcancel : r.cancelled = r.conn.centre.isNone) (hread : r.conn.readBuffer = e.round.conn.readBuffer)
    (hwrite : r.conn.writeBuffer = e.round.conn.writeBuffer) (hphase : PhaseOk r)
    (hpending : pendingWrite r = pendingWrite e.round) : Moved e ⟨r, e.received ++ [], e.sent ++ []⟩ := by
  apply h.move hready hcentre hcancel
  · rw [hread, List.append_nil]
  · exact hwrite.symm
  · exact hphase
  · rw [hpending, List.length_nil, Nat.cast_zero, add_zero]

theorem update_self (h : r.cancelled = r.conn.centre.isNone) : r.update (r.conn, none) = r := by
  have hcancel := update_cancelled h (r.conn, none)
  rw [← h] at hcancel
  cases r
  simp only [ConnRound.update, Option.toList_none, List.map_nil, List.append_nil] at hcancel ⊢
  rw [hcancel]

theorem Sound.endHandle (h : Sound e) (hcalm : e.round.conn.readBuffer = []) (hcall : e.round.phase ≠ .writeCall) :
    Moved e ⟨endHandle e.round, e.received ++ [], e.sent ++ []⟩ := by
  apply h.quiet
  · exact ⟨h.ready.errcb, h.ready.readcb, h.ready.writecb, h.ready.reads⟩
  · rfl
  · exact update_cancelled h.cancelled _
  · rfl
  · rfl
  · exact (PhaseOk.idle rfl).mpr hcalm
  · rw [pendingWrite_of_ne hcall, pendingWrite_of_ne]
    exact HandlePhase.noConfusion

theorem Sound.startHandle (h : Sound e) (hidle : e.round.phase = .idle) :
    Moved e ⟨startHandle e.round, e.received ++ [], e.sent ++ []⟩ := by
  have hstay : Moved e ⟨e.round, e.received ++ [], e.sent ++ []⟩ :=
    h.quiet h.ready rfl h.cancelled rfl rfl h.phase rfl
  rw [Connecter.startHandle]
  split_ifs with hmarked hcentre
  · exact hstay
  · exact hstay
  · apply h.quiet
    · exact h.ready
    · rfl
    · exact h.cancelled
    · rfl
    · rfl
    · refine (PhaseOk.readHalf rfl).mpr ⟨(PhaseOk.idle hidle).mp h.phase, ?_⟩
      rw [h.cancelled]
      exact Bool.eq_false_iff.mpr hcentre
    · have hnone : pendingWrite e.round = 0 := pendingWrite_of_ne (hidle ▸ HandlePhase.noConfusion)
      rw [hnone]
      exact pendingWrite_of_ne HandlePhase.noConfusion

theorem Sound.runReadHalf {ev : EvMask} (h : Sound e) (hphase : e.round.phase = .readHalf ev) (unreadByte : ℤ)
    (recv : SocketResult (List UInt8)) :
    Moved e ⟨runReadHalf e.round unreadByte recv ev, e.received ++ if ev.meets evIoread then gave recv else [],
      e.sent ++ []⟩ := by
  obtain ⟨hcalm, hlive⟩ := (PhaseOk.readHalf hphase).mp h.phase
  have hnone : pendingWrite e.round = 0 := pendingWrite_of_ne (hphase ▸ HandlePhase.noConfusion)
  rw [Connecter.runReadHalf]
  by_cases hread : ev.meets evIoread
  · obtain ⟨d, cb, hd, hcalls, hready, hcentre, hwrite, hbytes⟩ := handleRead_ready h.ready unreadByte recv
    have hcancel : (e.round.update (d, some cb)).cancelled = d.centre.isNone := update_cancelled h.cancelled _
    rw [if_pos hread, if_pos hread, hd]
    apply h.move
    · exact hready
    · exact hcentre
    · exact hcancel
    · exact hbytes
    · exact hwrite.symm
    · refine ⟨?_, cb, running_update e.round d cb, ?_⟩
      · change (e.round.update (d, some cb)).cancelled = false
        rw [hcancel, hcentre, ← h.cancelled, hlive]
      · change ReadCalls d.readBuffer cb
        rw [hbytes, hcalm]
        exact hcalls
    · rw [hnone]
      exact pendingWrite_of_ne HandlePhase.noConfusion
  · rw [if_neg hread, if_neg hread]
    apply h.quiet
    · exact h.ready
    · rfl
    · exact h.cancelled
    · rfl
    · rfl
    · exact (PhaseOk.writeHalf rfl).mpr hcalm
    · rw [hnone]
      exact pendingWrite_of_ne HandlePhase.noConfusion

theorem Sound.runWriteHalf {ev : EvMask} {send : SocketResult ℕ} (h : Sound e) (hphase : e.round.phase = .writeHalf ev)
    (hfits : sendFits e.round.conn send) (hok : loopOk e (.writeHalf send)) :
    Moved e ⟨runWriteHalf e.round send ev, e.received ++ [],
      e.sent ++ if ev.meets evIowrite then e.round.conn.writeBuffer.take (took send) else []⟩ := by
  have hcalm : e.round.conn.readBuffer = [] := (PhaseOk.writeHalf hphase).mp h.phase
  have hcall : e.round.phase ≠ .writeCall := hphase ▸ HandlePhase.noConfusion
  rw [Connecter.runWriteHalf]
  by_cases hwrite : ev.meets evIowrite
  · rw [if_pos hwrite, if_pos hwrite]
    by_cases hqueue : e.round.conn.writeBuffer = []
    · have hnothing : e.round.conn.handleWrite send = (e.round.conn, none) := if_pos hqueue
      rw [hnothing, hqueue, List.take_nil]
      change Moved e ⟨Connecter.endHandle (e.round.update (e.round.conn, none)), _, _⟩
      rw [update_self h.cancelled]
      exact h.endHandle hcalm hcall
    · obtain ⟨d, cb, hd, hcalls, hready, hcentre, hread, hbytes⟩ := handleWrite_ready h.ready hqueue hok.2
      have hcancel : (e.round.update (d, some cb)).cancelled = d.centre.isNone := update_cancelled h.cancelled _
      have hlive : e.round.cancelled = false := by
        by_contra hgone
        exact hok.1 ev hphase hwrite (Bool.eq_true_of_not_eq_false hgone) hqueue (sendCallbackSet_ready h.ready send)
      have hlength : (e.round.conn.writeBuffer.take (took send)).length = took send :=
        List.length_take_of_le (took_le_of_fits hfits)
      rw [hd]
      apply h.move
      · exact hready
      · exact hcentre
      · exact hcancel
      · exact hread.trans (List.append_nil _).symm
      · change _ = _ ++ d.writeBuffer
        rw [hbytes, List.take_append_drop]
      · refine ⟨hread.trans hcalm, ?_, took send, cb, running_update e.round d cb, hcalls⟩
        change (e.round.update (d, some cb)).cancelled = false
        rw [hcancel, hcentre, ← h.cancelled, hlive]
      · rw [pendingWrite_of_ne hcall, hlength, zero_add]
        exact pendingWrite_writeCall rfl (running_update e.round d cb) hcalls
  · rw [if_neg hwrite, if_neg hwrite]
    exact h.endHandle hcalm hcall

/-- A step of the loop keeps the connection sound and what its client has counted right. -/
theorem Sound.runLoop {e' : EchoConn} {op : RoundOp} (h : Sound e) (hok : loopOk e op) (hloop : ofLoop op)
    (he : runLoop e op = some e') : Moved e e' := by
  obtain ⟨r, hr, rfl⟩ := Option.map_eq_some_iff.mp he
  cases roundPass_of_step hr with
  | activate hphase hactive =>
    apply h.quiet
    · exact ⟨h.ready.errcb, h.ready.readcb, h.ready.writecb, h.ready.reads⟩
    · rfl
    · exact h.cancelled
    · rfl
    · rfl
    · exact h.phase
    · rfl
  | take hphase => exact h.startHandle hphase
  | readHalf hphase =>
    simp only [given, takes, hphase]
    exact h.runReadHalf hphase _ _
  | writeHalf hphase hfits =>
    simp only [given, takes, hphase]
    exact h.runWriteHalf hphase hfits hok
  | user hcode hcall => cases hloop
  | retRead hphase => cases hloop
  | retWrite hphase => cases hloop

end Conn

/-! ## The callbacks of one connection -/

section Calls
variable {clients : ℕ → Option Client} {fd : ℕ} {c : Connecter} {client : Client}

/-- What was read is queued behind what is to be sent, and counted. -/
theorem readCb_echo (h : Ready c) (hlive : c.centre.isSome) (hclient : clients fd = some client)
    (hne : c.readBuffer ≠ []) :
    ∃ d, readCb clients fd c c.readBuffer.length true = some (Function.update clients fd (some { client with
        totalReadSize := client.totalReadSize + BitVec.ofNat 64 c.readBuffer.length }), d) ∧
      Ready d ∧ d.centre = c.centre ∧ d.readBuffer = [] ∧ d.writeBuffer = c.writeBuffer ++ c.readBuffer := by
  have hlength : c.readBuffer.length ≠ 0 := mt List.length_eq_zero_iff.mp hne
  let e : Connecter := { c with
    readBuffer := c.readBuffer.drop c.readBuffer.length, writeBuffer := c.writeBuffer ++ c.readBuffer }
  have hwrite : (c.readBuf c.readBuffer.length).2.writeBuf c.readBuffer true =
      ((c.readBuffer.length : ℤ), e.enableEvent evIowrite) := by
    have hcentre : ¬ e.centre.isNone := by
      rw [← Option.not_isSome, show e.centre.isSome = true from hlive]
      exact Bool.false_ne_true
    exact (if_neg hlength).trans (if_neg hcentre)
  refine ⟨e.enableEvent evIowrite, ?_, ?_, ?_, ?_, ?_⟩
  · rw [readCb, if_neg (Int.natCast_ne_zero.mpr hlength)]
    simp only [show (c.readBuf c.readBuffer.length).1 = c.readBuffer from List.take_length, hwrite]
    rw [if_neg (by omega), count, hclient, BitVec.ofInt_natCast]
    rfl
  · exact (Ready.mk h.errcb h.readcb h.writecb h.reads : Ready e).enableEvent _
  · exact updateEvent_centre e _ _
  · rw [Connecter.enableEvent, Connecter.updateEvent]
    split_ifs
    · exact List.drop_length
    · exact List.drop_length
  · exact enableEvent_writeBuffer e _

/-- A read that is to be tried again counts nothing. -/
theorem readCb_again (clients : ℕ → Option Client) (fd : ℕ) (h : Ready c) (hnil : c.readBuffer = []) :
    ∃ d, readCb clients fd c (-1) true = some (clients, d) ∧ Ready d ∧ d.centre = c.centre ∧ d.readBuffer = [] ∧
      d.writeBuffer = c.writeBuffer := by
  refine ⟨{ c with readBuffer := [], writeBuffer := c.writeBuffer ++ [] }, ?_,
    ⟨h.errcb, h.readcb, h.writecb, h.reads⟩, rfl, rfl, List.append_nil _⟩
  rw [readCb, hnil]
  simp [Connecter.readBuf, Connecter.writeBuf, hnil]

theorem eventCb_err (h : Ready c) {ev : EvMask} (herr : ev.meets evError = true) :
    eventCb clients fd c ev = (Function.update clients fd none, c.cancelEvent) := by
  have hcare : c.ev.meets ioCareEvent = true := by
    rw [ioCareEvent, meets_or_mask, meets_or_mask, h.reads]
    rfl
  rw [eventCb, meets_or_mask, herr, Bool.or_true, if_pos rfl, if_pos hcare]

theorem Ready.cancelEvent (h : Ready c) : Ready c.cancelEvent := by
  rw [Connecter.cancelEvent]
  by_cases hcentre : c.centre.isSome
  · rw [if_pos hcentre]
    exact ⟨h.errcb, h.readcb, h.writecb, h.reads⟩
  · rw [if_neg hcentre]
    exact h

end Calls

section Return
variable {e : EchoConn} {c : Connecter}

/-- The return from a callback that leaves nothing to be read. -/
theorem Sound.ret (h : Sound e) (hcall : inCallback e.round.phase) (hready : Ready c) (hread : c.readBuffer = [])
    (hstream : e.sent ++ c.writeBuffer = e.received) :
    ∃ r, roundStep (e.round.update (c, none)) .ret = some r ∧ Sound { e with round := r } ∧
      r.cancelled = c.centre.isNone ∧ r.conn.readBuffer = [] ∧ pendingWrite r = 0 := by
  have hcancel := update_cancelled h.cancelled (c, none)
  have hbytes : e.sent ++ c.writeBuffer ++ c.readBuffer = e.received := by
    rw [hread, List.append_nil, hstream]
  cases hphase : e.round.phase with
  | readCall ev =>
    refine ⟨{ e.round.update (c, none) with phase := .writeHalf ev }, ?_,
      ⟨hready, hcancel, hbytes, (PhaseOk.writeHalf rfl).mpr hread⟩, hcancel, hread,
      pendingWrite_of_ne HandlePhase.noConfusion⟩
    rw [roundStep, show (e.round.update (c, none)).phase = e.round.phase from rfl, hphase]
  | writeCall =>
    have hend := update_cancelled hcancel (c.popCurEv, none)
    refine ⟨Connecter.endHandle (e.round.update (c, none)), ?_,
      ⟨⟨hready.errcb, hready.readcb, hready.writecb, hready.reads⟩, hend, hbytes, (PhaseOk.idle rfl).mpr hread⟩, hend,
      hread, pendingWrite_of_ne HandlePhase.noConfusion⟩
    rw [roundStep, show (e.round.update (c, none)).phase = e.round.phase from rfl, hphase]
  | _ =>
    rw [hphase] at hcall
    cases hcall

end Return

/-! ## One socket -/

/-- A client that has counted nothing, if there is one: what `ListenCb` leaves behind a connecter that was refused. -/
def Zero (client : Option Client) : Prop := ∀ c, client = some c → c.totalReadSize = 0 ∧ c.totalWriteSize = 0

/-- A socket, its client, whether `ListenCb` is between its two halves, and whether it was refused: unused, refused
before or behind the second half, registered without its client or with that of a refused connecter, registered with
its client, or cancelled. -/
inductive At : Option EchoConn → Option Client → Bool → Bool → Prop where
  | unused : At none none false false
  | refusing {client : Option Client} (zero : Zero client) : At none client true true
  | refused {client : Client} (zero : Zero (some client)) : At none (some client) false true
  | accepting {e : EchoConn} {client : Option Client} (sound : Sound e) (live : e.round.cancelled = false)
    (fresh : ∀ c, Zero (some c) → Counted e c) (zero : Zero client) : At (some e) client true false
  | live {e : EchoConn} {client : Client} (sound : Sound e) (live : e.round.cancelled = false)
    (counted : Counted e client) : At (some e) (some client) false false
  | cancelled {e : EchoConn} (sound : Sound e) (gone : e.round.cancelled = true) : At (some e) none false false

theorem zero_none : Zero none := fun _ hc => nomatch hc

theorem zero_new (fd : ℕ) : Zero (some ⟨fd, 0, 0⟩) := by
  rintro c ⟨⟩
  exact ⟨rfl, rfl⟩

theorem sound_accepted : Sound accepted := ⟨⟨rfl, rfl, rfl, by decide⟩, rfl, rfl, rfl⟩

theorem counted_accepted {c : Client} (h : Zero (some c)) : Counted accepted c := by
  obtain ⟨hread, hwrite⟩ := h c rfl
  constructor
  · rw [hread]
    rfl
  · rw [hwrite]
    rfl

/-- What the second half of `ListenCb` finds, or puts there. -/
theorem Zero.insert {client : Option Client} (h : Zero client) (fd : ℕ) :
    ∃ c, (if client.isNone then some ⟨fd, 0, 0⟩ else client) = some c ∧ Zero (some c) := by
  cases client with
  | none => exact ⟨⟨fd, 0, 0⟩, rfl, zero_new fd⟩
  | some c => exact ⟨c, rfl, h⟩

/-- Between two calls of `ListenCb` a socket without a connecter has no client that has counted anything. -/
theorem At.zero {client : Option Client} {refused : Bool} (h : At none client false refused) : Zero client := by
  cases h with
  | unused => exact zero_none
  | refused zero => exact zero

theorem At.sound {e : EchoConn} {client : Option Client} {accepting refused : Bool}
    (h : At (some e) client accepting refused) : Sound e ∧ ∀ c, client = some c → Counted e c := by
  cases h with
  | accepting sound live fresh zero => exact ⟨sound, fun c hc => fresh c (hc ▸ zero)⟩
  | live sound live counted => exact ⟨sound, fun c hc => Option.some.inj hc ▸ counted⟩
  | cancelled sound gone => exact ⟨sound, fun c hc => nomatch hc⟩

/-- A step of the loop. -/
theorem At.runLoop {e e' : EchoConn} {client : Option Client} {accepting refused : Bool} {op : RoundOp}
    (h : At (some e) client accepting refused) (hok : loopOk e op) (hloop : ofLoop op) (he : runLoop e op = some e') :
    At (some e') client accepting refused := by
  cases h with
  | accepting sound live fresh zero =>
    have hmoved := sound.runLoop hok hloop he
    exact .accepting hmoved.sound (hmoved.cancelled.trans live) (fun c hc => hmoved.counted c (fresh c hc)) zero
  | live sound live counted =>
    have hmoved := sound.runLoop hok hloop he
    exact .live hmoved.sound (hmoved.cancelled.trans live) (hmoved.counted _ counted)
  | cancelled sound gone =>
    have hmoved := sound.runLoop hok hloop he
    exact .cancelled hmoved.sound (hmoved.cancelled.trans gone)

section Callback
variable {s t : Server} {fd : ℕ} {e : EchoConn} {cb : Callback}

theorem runCall_of {clients : ℕ → Option Client} {c : Connecter} {r : ConnRound}
    (hrun : runCallback s.clients fd e.round.conn true cb = some (clients, c))
    (hret : roundStep (e.round.update (c, none)) .ret = some r) (ht : s.runCall fd true e cb = some t) :
    t = { s with clients := clients, conns := Function.update s.conns fd (some { e with round := r }) } := by
  rw [runCall, hrun] at ht
  simp only [hret] at ht
  exact (Option.some.inj ht).symm

theorem Sound.live_of_call (h : Sound e) (hcall : inCallback e.round.phase) : e.round.cancelled = false := by
  have hphase := h.phase
  rw [PhaseOk] at hphase
  cases hp : e.round.phase with
  | readCall ev =>
    rw [hp] at hphase
    exact hphase.1
  | writeCall =>
    rw [hp] at hphase
    exact hphase.2.1
  | _ =>
    rw [hp] at hcall
    cases hcall

/-- The error callback erases the client of its connecter and cancels it. -/
theorem Sound.err (h : Sound e) (hcall : inCallback e.round.phase) (hread : e.round.conn.readBuffer = []) {ev : EvMask}
    {errcode : ℤ} (herr : ev.meets evError = true) (ht : s.runCall fd true e (.err ev errcode) = some t) :
    ∃ e', t = { s with
        clients := Function.update s.clients fd none, conns := Function.update s.conns fd (some e') } ∧
      At (some e') none false false := by
  have hcancelRead : e.round.conn.cancelEvent.readBuffer = [] := by
    rw [Connecter.cancelEvent, apply_ite Connecter.readBuffer, hread]
    exact ite_self _
  have hstream : e.sent ++ e.round.conn.cancelEvent.writeBuffer = e.received := by
    rw [cancelEvent_writeBuffer, ← h.stream, hread, List.append_nil]
  obtain ⟨r, hr, hsound, hgone, -⟩ := h.ret hcall h.ready.cancelEvent hcancelRead hstream
  rw [cancelEvent_centre] at hgone
  refine ⟨{ e with round := r }, runCall_of ?_ hr ht, .cancelled hsound hgone⟩
  rw [runCallback, eventCb_err h.ready herr]

/-- A callback that leaves its connecter registered, nothing to be read, and the client with all that was moved. -/
theorem Sound.counts {client : Client} {c : Connecter} (h : Sound e) (hcall : inCallback e.round.phase)
    (hrun : runCallback s.clients fd e.round.conn true cb = some (Function.update s.clients fd (some client), c))
    (hready : Ready c) (hcentre : c.centre = e.round.conn.centre) (hread : c.readBuffer = [])
    (hstream : e.sent ++ c.writeBuffer = e.received)
    (hreceived : client.totalReadSize = BitVec.ofNat 64 e.received.length)
    (hsent : client.totalWriteSize = BitVec.ofNat 64 e.sent.length) (ht : s.runCall fd true e cb = some t) :
    ∃ e', t = { s with
        clients := Function.update s.clients fd (some client), conns := Function.update s.conns fd (some e') } ∧
      At (some e') (some client) false false := by
  obtain ⟨r, hr, hsound, hgone, hdrained, hcalm⟩ := h.ret hcall hready hread hstream
  refine ⟨{ e with round := r }, runCall_of hrun hr ht, .live hsound ?_ ⟨?_, ?_⟩⟩
  · rw [hgone, hcentre, ← h.cancelled, h.live_of_call hcall]
  · rw [hdrained]
    exact (BitVec.add_zero _).trans hreceived
  · rw [hcalm]
    exact (BitVec.add_zero _).trans hsent

/-- The callback behind a read half of a client that the server has. -/
theorem Sound.runReadCall {client : Client} (h : Sound e) (hcounted : Counted e client)
    (hclient : s.clients fd = some client) {ev : EvMask} (hphase : e.round.phase = .readCall ev)
    (hcalls : ReadCalls e.round.conn.readBuffer cb) (ht : s.runCall fd true e cb = some t) :
    ∃ e' client', t = { s with
        clients := Function.update s.clients fd client', conns := Function.update s.conns fd (some e') } ∧
      At (some e') client' false false := by
  have hcall : inCallback e.round.phase := by
    rw [hphase]
    rfl
  have hsent : client.totalWriteSize = BitVec.ofNat 64 e.sent.length := by
    rw [← hcounted.write, pendingWrite_of_ne (hphase ▸ HandlePhase.noConfusion)]
    exact (BitVec.add_zero _).symm
  rcases hcalls with ⟨rfl, hne⟩ | ⟨hnil, rfl | ⟨ev', errcode, rfl, herr⟩⟩
  · have hcentre : e.round.conn.centre.isSome := by
      rw [← Option.not_isNone, ← h.cancelled, h.live_of_call hcall]
      rfl
    obtain ⟨d, hd, hready, hsame, hread, hwrite⟩ := readCb_echo h.ready hcentre hclient hne
    have hstream : e.sent ++ d.writeBuffer = e.received := by
      rw [hwrite, ← List.append_assoc, h.stream]
    have hrun : runCallback s.clients fd e.round.conn true (.read e.round.conn.readBuffer.length) = some (_, d) := hd
    obtain ⟨e', he', hat⟩ := h.counts hcall hrun hready hsame hread hstream hcounted.read hsent ht
    exact ⟨e', _, he', hat⟩
  · obtain ⟨d, hd, hready, hsame, hread, hwrite⟩ := readCb_again s.clients fd h.ready hnil
    have hstream : e.sent ++ d.writeBuffer = e.received := by
      rw [hwrite, ← h.stream, hnil, List.append_nil]
    have hreceived : client.totalReadSize = BitVec.ofNat 64 e.received.length := by
      rw [← hcounted.read, hnil]
      exact (BitVec.add_zero _).symm
    have hrun : runCallback s.clients fd e.round.conn true (.read (-1)) =
        some (Function.update s.clients fd (some client), d) := by
      rw [← hclient, Function.update_eq_self]
      exact hd
    obtain ⟨e', he', hat⟩ := h.counts hcall hrun hready hsame hread hstream hreceived hsent ht
    exact ⟨e', _, he', hat⟩
  · obtain ⟨e', he', hat⟩ := h.err hcall hnil herr ht
    exact ⟨e', none, he', hat⟩

/-- The callback behind a write half. -/
theorem Sound.runWriteCall {client : Client} {n : ℕ} (h : Sound e) (hcounted : Counted e client)
    (hclient : s.clients fd = some client) (hphase : e.round.phase = .writeCall) (hread : e.round.conn.readBuffer = [])
    (hcb : running e.round = some cb) (hcalls : WriteCalls n cb) (ht : s.runCall fd true e cb = some t) :
    ∃ e' client', t = { s with
        clients := Function.update s.clients fd client', conns := Function.update s.conns fd (some e') } ∧
      At (some e') client' false false := by
  have hcall : inCallback e.round.phase := by
    rw [hphase]
    rfl
  have hpending := pendingWrite_writeCall hphase hcb hcalls
  rcases hcalls with rfl | ⟨-, ev', errcode, rfl, herr⟩
  · have hrun : runCallback s.clients fd e.round.conn true (.write n) = some (Function.update s.clients fd (some
        { client with totalWriteSize := client.totalWriteSize + BitVec.ofInt 64 n }), e.round.conn) := by
      rw [runCallback, writeCb, count, hclient]
      rfl
    have hstream : e.sent ++ e.round.conn.writeBuffer = e.received := by
      rw [← h.stream, hread, List.append_nil]
    have hreceived : client.totalReadSize = BitVec.ofNat 64 e.received.length := by
      rw [← hcounted.read, hread]
      exact (BitVec.add_zero _).symm
    have hsent : client.totalWriteSize + BitVec.ofInt 64 n = BitVec.ofNat 64 e.sent.length := by
      rw [← hcounted.write, hpending]
    obtain ⟨e', he', hat⟩ := h.counts hcall hrun h.ready rfl hread hstream hreceived hsent ht
    exact ⟨e', _, he', hat⟩
  · obtain ⟨e', he', hat⟩ := h.err hcall hread herr ht
    exact ⟨e', none, he', hat⟩

/-- A callback of a client that the server has. -/
theorem Sound.runCall {client : Client} (h : Sound e) (hcounted : Counted e client)
    (hclient : s.clients fd = some client) (hcall : inCallback e.round.phase) (hcb : running e.round = some cb)
    (ht : s.runCall fd true e cb = some t) :
    ∃ e' client', t = { s with
        clients := Function.update s.clients fd client', conns := Function.update s.conns fd (some e') } ∧
      At (some e') client' false false := by
  have hphase := h.phase
  rw [PhaseOk] at hphase
  cases hp : e.round.phase with
  | readCall ev =>
    rw [hp] at hphase
    obtain ⟨-, cb', hcb', hcalls⟩ := hphase
    obtain rfl : cb = cb' := Option.some.inj (hcb.symm.trans hcb')
    exact h.runReadCall hcounted hclient hp hcalls ht
  | writeCall =>
    rw [hp] at hphase
    obtain ⟨hread, -, n, cb', hcb', hcalls⟩ := hphase
    obtain rfl : cb = cb' := Option.some.inj (hcb.symm.trans hcb')
    exact h.runWriteCall hcounted hclient hp hread hcb hcalls ht
  | _ =>
    rw [hp] at hcall
    cases hcall

end Callback

/-! ## The run -/

structure ServerInv (s : Server) : Prop where
  found : s.lost = false
  each : ∀ fd, At (s.conns fd) (s.clients fd) (decide (s.accepting = some fd)) (s.refused fd)

theorem serverInv_start : ServerInv start := ⟨rfl, fun _ => .unused⟩

section Run
variable {s t : Server} {fd : ℕ} {op : ServerOp}

/-- A step that is about one socket. -/
theorem ServerInv.update (h : ServerInv s) {conn : Option EchoConn} {client : Option Client} {accepting : Option ℕ}
    {refused : Bool} (hat : At conn client (decide (accepting = some fd)) refused)
    (hothers : ∀ k, k ≠ fd → (accepting = some k ↔ s.accepting = some k)) :
    ServerInv { s with
      conns := Function.update s.conns fd conn
      clients := Function.update s.clients fd client
      accepting := accepting
      refused := Function.update s.refused fd refused } := by
  refine ⟨h.found, fun k => ?_⟩
  by_cases hk : k = fd
  · subst hk
    simp only [Function.update_self]
    exact hat
  · have hsame : decide (accepting = some k) = decide (s.accepting = some k) := decide_eq_decide.mpr (hothers k hk)
    simp only [Function.update_of_ne hk, hsame]
    exact h.each k

/-- A step of one socket that is neither half of `ListenCb`. -/
theorem ServerInv.move (h : ServerInv s) {conn : Option EchoConn} {client : Option Client}
    (hat : At conn client (decide (s.accepting = some fd)) (s.refused fd)) :
    ServerInv { s with
      conns := Function.update s.conns fd conn
      clients := Function.update s.clients fd client } := by
  have hupdate := h.update hat fun _ _ => Iff.rfl
  rwa [Function.update_eq_self] at hupdate

theorem ServerInv.accept (h : ServerInv s) (hnew : (s.conns fd).isNone) (hidle : s.accepting = none)
    (registered : Bool) :
    ServerInv { s with
      conns := if registered then Function.update s.conns fd (some accepted) else s.conns
      accepting := some fd
      refused := Function.update s.refused fd !registered } := by
  have hnone : s.conns fd = none := Option.isNone_iff_eq_none.mp hnew
  have hat := h.each fd
  have hbetween : decide (s.accepting = some fd) = false := by
    rw [hidle]
    rfl
  rw [hnone, hbetween] at hat
  have hothers (k : ℕ) (hk : k ≠ fd) : some fd = some k ↔ s.accepting = some k := by
    rw [hidle, Option.some_inj]
    exact ⟨fun heq => absurd heq.symm hk, fun hnone => nomatch hnone⟩
  have hself : decide (some fd = some fd) = true := decide_eq_true rfl
  cases registered with
  | true =>
    have haccepted : At (some accepted) (s.clients fd) (decide (some fd = some fd)) (!true) := by
      rw [hself]
      exact .accepting sound_accepted rfl (fun _ => counted_accepted) hat.zero
    have hupdate := h.update haccepted hothers
    rwa [Function.update_eq_self (f := s.clients)] at hupdate
  | false =>
    have hrefused : At (s.conns fd) (s.clients fd) (decide (some fd = some fd)) (!false) := by
      rw [hself, hnone]
      exact .refusing hat.zero
    have hupdate := h.update hrefused hothers
    rwa [Function.update_eq_self (f := s.clients), Function.update_eq_self (f := s.conns)] at hupdate

theorem ServerInv.insert (h : ServerInv s) (haccepting : s.accepting = some fd) :
    ServerInv { s with
      clients := if (s.clients fd).isNone then Function.update s.clients fd (some ⟨fd, 0, 0⟩) else s.clients
      accepting := none } := by
  have hat := h.each fd
  rw [haccepting, decide_eq_true rfl] at hat
  have hothers (k : ℕ) (hk : k ≠ fd) : none = some k ↔ s.accepting = some k := by
    rw [haccepting, Option.some_inj]
    exact ⟨fun hnone => (nomatch hnone), fun heq => absurd heq.symm hk⟩
  have hzero : Zero (s.clients fd) := by
    generalize s.conns fd = conn at hat
    generalize s.clients fd = client at hat ⊢
    generalize s.refused fd = refused at hat
    cases hat with
    | refusing zero => exact zero
    | accepting sound live fresh zero => exact zero
  obtain ⟨c, hc, hnew⟩ := hzero.insert fd
  have hinserted : At (s.conns fd) (some c) (decide ((none : Option ℕ) = some fd)) (s.refused fd) := by
    generalize s.conns fd = conn at hat ⊢
    generalize s.clients fd = client at hat
    generalize s.refused fd = refused at hat ⊢
    cases hat with
    | refusing zero => exact .refused hnew
    | accepting sound live fresh zero => exact .live sound live (fresh c hnew)
  have hclients : (if (s.clients fd).isNone then Function.update s.clients fd (some ⟨fd, 0, 0⟩) else s.clients) =
      Function.update s.clients fd (some c) := by
    rw [← hc]
    split_ifs
    · rfl
    · rw [Function.update_eq_self]
  have hupdate := h.update hinserted hothers
  rwa [Function.update_eq_self (f := s.conns), Function.update_eq_self (f := s.refused), ← hclients] at hupdate

theorem ServerInv.close (h : ServerInv s) {e : EchoConn} (hconn : s.conns fd = some e)
    (hgone : e.round.conn.centre.isNone) : ServerInv { s with conns := Function.update s.conns fd none } := by
  have hat := h.each fd
  have hunused : At none (s.clients fd) (decide (s.accepting = some fd)) (s.refused fd) := by
    rw [hconn] at hat
    generalize s.clients fd = client at hat ⊢
    generalize decide (s.accepting = some fd) = accepting at hat ⊢
    generalize s.refused fd = refused at hat ⊢
    cases hat with
    | accepting sound live fresh zero =>
      rw [sound.cancelled, hgone] at live
      cases live
    | live sound live counted =>
      rw [sound.cancelled, hgone] at live
      cases live
    | cancelled sound gone => exact .unused
  have hmove := h.move hunused
  rwa [Function.update_eq_self] at hmove

theorem serverInv_step (h : ServerInv s) (hok : echoOk s op) (ht : s.step op = some t) : ServerInv t := by
  have hstep : s.step op = s.move op := if_neg (by rw [h.found]; exact Bool.false_ne_true)
  rw [hstep] at ht
  cases op with
  | accept fd registered =>
    obtain ⟨⟨hnew, hidle⟩, ht⟩ := Option.ite_none_right_eq_some.mp ht
    cases ht
    exact h.accept hnew hidle registered
  | insert fd =>
    obtain ⟨haccepting, ht⟩ := Option.ite_none_right_eq_some.mp ht
    cases ht
    exact h.insert haccepting
  | loop fd op =>
    cases hconn : s.conns fd with
    | none =>
      rw [move, hconn] at ht
      cases ht
    | some e =>
      simp only [move, hconn] at ht
      obtain ⟨hloop, ht⟩ := Option.ite_none_right_eq_some.mp ht
      obtain ⟨e', he', rfl⟩ := Option.map_eq_some_iff.mp ht
      have hat := h.each fd
      rw [hconn] at hat
      have hloopOk : loopOk e op := by
        have hconnOk : connOk op (s.conns fd) := hok
        rw [hconn] at hconnOk
        exact hconnOk
      have hmove := h.move (hat.runLoop hloopOk hloop he')
      rwa [Function.update_eq_self] at hmove
  | callback fd room =>
    obtain ⟨rfl, hinserted⟩ := hok
    cases hconn : s.conns fd with
    | none =>
      rw [move, hconn] at ht
      cases ht
    | some e =>
      simp only [move, hconn] at ht
      cases hcb : running e.round with
      | none =>
        simp only [hcb] at ht
        cases ht
      | some cb =>
        simp only [hcb] at ht
        obtain ⟨hcall, ht⟩ := Option.ite_none_right_eq_some.mp ht
        have hat := h.each fd
        rw [hconn, decide_eq_false hinserted] at hat
        generalize hclient : s.clients fd = client at hat
        generalize hrefused : s.refused fd = refused at hat
        cases hat with
        | live sound live counted =>
          obtain ⟨e', client', rfl, hend⟩ := sound.runCall counted hclient hcall hcb ht
          exact h.move (by rwa [decide_eq_false hinserted, hrefused])
        | cancelled sound gone =>
          rw [sound.live_of_call hcall] at gone
          cases gone
  | close fd =>
    cases hconn : s.conns fd with
    | none =>
      rw [move, hconn] at ht
      cases ht
    | some e =>
      simp only [move, hconn] at ht
      obtain ⟨⟨-, hgone⟩, ht⟩ := Option.ite_none_right_eq_some.mp ht
      cases ht
      exact h.close hconn hgone

end Run

/-- One client's two bytes are sent back, another one closes its connection, and one is refused. -/
def echoSample : List ServerOp :=
  [.accept 5 true, .loop 5 (.activate evIoread), .insert 5, .accept 6 true, .loop 5 .take,
    .loop 5 (.readHalf 2 (.done [1, 2])), .insert 6, .callback 5 true, .loop 5 (.writeHalf (.done 0)), .accept 7 false,
    .loop 5 (.activate evIowrite), .loop 5 .take, .insert 7, .loop 5 (.readHalf 0 (.done [])),
    .loop 5 (.writeHalf (.done 2)), .callback 5 true, .loop 6 (.activate evIoread), .loop 6 .take,
    .loop 6 (.readHalf 0 (.done [])), .callback 6 true, .loop 6 (.writeHalf (.done 0)), .close 6]

def echoSampleEnd : Server := (exec step start echoSample).get (by decide +kernel)

/-- The peer closes its direction with an echo still queued: the send behind the error callback looks up the client that
the error callback has erased. -/
theorem not_every_lookup_found : ¬ ∀ ops s, exec step start ops = some s → s.lost = false := by
  intro h
  have hlost := h [.accept 5 true, .insert 5, .loop 5 (.activate evIoread), .loop 5 .take,
    .loop 5 (.readHalf 1 (.done [1])), .callback 5 true, .loop 5 (.writeHalf (.done 0)),
    .loop 5 (.activate (evIoread ||| evIowrite)), .loop 5 .take, .loop 5 (.readHalf 0 (.done [])), .callback 5 true,
    .loop 5 (.writeHalf (.done 1)), .callback 5 true] _ (Option.some_get (by decide +kernel)).symm
  revert hlost
  decide +kernel

end Server

end Chaos
