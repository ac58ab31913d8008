import Chaos.BufferReceiveFifo
import Chaos.BufferSendFifo
import Chaos.ConnecterCallbacks

/-!
# The connecter over its buffers

`Connecter` with the two objects of `Buffer` that it has, where the other modules give it the byte queues they stand
for. In a run whose writes and receives find a free tail in the ring the handlers over the buffers do what the handlers
over the queues do, step by step.
-/
namespace Chaos

open GuardedRuns Word32

def maxIovec : ℕ := 8

structure BufferedConnecter where
  centre : Option ℕ
  ev : EvMask
  curEv : List EvMask
  errcb : Bool
  readcb : Bool
  writecb : Bool
  readBuffer : Buffer
  writeBuffer : Buffer

namespace BufferedConnecter
variable (c : BufferedConnecter)

def new : BufferedConnecter := ⟨none, Connecter.new.ev, [], false, false, false, .empty, .empty⟩

/-- With the unread bytes in the place of the buffers. -/
def queues : Connecter :=
  ⟨c.centre, c.ev, c.curEv, c.errcb, c.readcb, c.writecb, c.readBuffer.unread, c.writeBuffer.unread⟩

/-- After a function of the event, which has no part in the buffers. -/
def setEvent (e : Connecter) : BufferedConnecter := { c with
  centre := e.centre, ev := e.ev, curEv := e.curEv, errcb := e.errcb, readcb := e.readcb, writecb := e.writecb }

def callErr (errcode : ℤ) : BufferedConnecter × Option Callback :=
  (c.setEvent (c.queues.callErr errcode).1, (c.queues.callErr errcode).2)

def enableEvent (ev : EvMask) : BufferedConnecter := c.setEvent (c.queues.enableEvent ev)

def disableEvent (ev : EvMask) : BufferedConnecter := c.setEvent (c.queues.disableEvent ev)

/-- `Connecter::WriteBuffer`; an `int` is the size. -/
def writeBuf (data : List Byte) : Option (ℤ × BufferedConnecter) :=
  match c.writeBuffer.writeBuffer data with
  | none => none
  | some (written, b) =>
    let c := { c with writeBuffer := b }
    if written = 0 then some (-1, c)
    else if c.centre.isNone then some (-1, c)
    else some (written, c.enableEvent evIowrite)

/-- Whether the buffer takes the data. -/
def took (data : List Byte) : Bool :=
  match c.writeBuffer.writeBuffer data with
  | none => false
  | some (written, _) => written = data.length

def readBuf (size : ℕ) : Option (List Byte × BufferedConnecter) :=
  match c.readBuffer.readBuffer size with
  | none => none
  | some (out, b) => some (out, { c with readBuffer := b })

def finishRead (unread readBytes : ℤ) : BufferedConnecter × Option Callback :=
  let c := if unread - readBytes > 0 then c.enableEvent evIoread else c
  (c, if c.readcb then some (.read readBytes) else none)

/-- The size that `HandleRead` asks `GetWriteBuffer` for. -/
def readSize (unreadByte : ℤ) : ℤ := if unreadByte ≤ 0 then Connecter.maxSingleReadDefault else unreadByte

/-- `HandleRead`; the socket gives no more than the iovecs hold. -/
def handleRead (unreadByte : ℤ) (recv : SocketResult (List Byte)) : Option (BufferedConnecter × Option Callback) :=
  let unread := readSize unreadByte
  match c.readBuffer.getWriteBuffer maxIovec (toUint32 unread) with
  | none => none
  | some (iov, b) =>
    let c := { c with readBuffer := b }
    match recv with
    | .failed e => some (if socketErrNotTryAgain e then c.callErr e else c.finishRead unread (-1))
    | .done [] => some (c.callErr 0)
    | .done (a :: data) =>
      if (a :: data).length ≤ Buffer.iovTotal iov then
        match (Buffer.fillIov b iov (a :: data)).moveWritePos (a :: data).length with
        | none => none
        | some b => some ({ c with readBuffer := b }.finishRead unread (a :: data).length)
      else none

/-- Interest in writing as long as something is left. -/
def rearm : BufferedConnecter :=
  if c.writeBuffer.useSize = 0 then c.disableEvent evIowrite else c.enableEvent evIowrite

def finishWrite (sendBytes : ℤ) : Option (BufferedConnecter × Option Callback) :=
  match c.writeBuffer.moveReadPos (toUint32 sendBytes) with
  | none => none
  | some b =>
    let c := { c with writeBuffer := b }.rearm
    some (c, if c.writecb then some (.write sendBytes) else none)

/-- The iovecs that `HandleWrite` shows to the socket. -/
def sendIov : List Iovec := c.writeBuffer.readBufferIov maxIovec c.writeBuffer.useSize

/-- `HandleWrite`; the socket takes no more than the iovecs show. -/
def handleWrite (send : SocketResult ℕ) : Option (BufferedConnecter × Option Callback) :=
  if c.writeBuffer.useSize = 0 then some (c, none)
  else match send with
    | .failed e => if socketErrNotTryAgain e then some (c.callErr (-1)) else c.finishWrite (-1)
    | .done n => if n ≤ Buffer.iovTotal c.sendIov then c.finishWrite n else none

/-! ## The handlers over the two -/

/-- What the operations of the buffers keep. -/
structure Sound : Prop where
  read : c.readBuffer.Good
  write : c.writeBuffer.Good

section Handlers
variable {c}

theorem queues_setEvent {e : Connecter} (hread : e.readBuffer = c.readBuffer.unread)
    (hwrite : e.writeBuffer = c.writeBuffer.unread) : (c.setEvent e).queues = e := by
  cases e
  simp only [queues, setEvent] at *
  rw [hread, hwrite]

theorem Sound.setEvent (h : c.Sound) (e : Connecter) : (c.setEvent e).Sound := ⟨h.read, h.write⟩

@[simp] theorem queues_callErr (errcode : ℤ) : (c.callErr errcode).1.queues = (c.queues.callErr errcode).1 :=
  queues_setEvent (Connecter.callErr_readBuffer _ _) (Connecter.callErr_writeBuffer _ _)

@[simp] theorem queues_enableEvent (ev : EvMask) : (c.enableEvent ev).queues = c.queues.enableEvent ev := by
  apply queues_setEvent
  · simp only [Connecter.enableEvent, Connecter.updateEvent]
    split_ifs <;> rfl
  · exact Connecter.enableEvent_writeBuffer _ _

@[simp] theorem queues_disableEvent (ev : EvMask) : (c.disableEvent ev).queues = c.queues.disableEvent ev := by
  apply queues_setEvent
  · simp only [Connecter.disableEvent, Connecter.updateEvent]
    split_ifs <;> rfl
  · exact Connecter.disableEvent_writeBuffer _ _

@[simp] theorem enableEvent_readcb (ev : EvMask) : (c.enableEvent ev).readcb = c.readcb := by
  change (c.queues.enableEvent ev).readcb = c.readcb
  simp only [Connecter.enableEvent, Connecter.updateEvent]
  split_ifs <;> rfl

@[simp] theorem enableEvent_writecb (ev : EvMask) : (c.enableEvent ev).writecb = c.writecb :=
  Connecter.updateEvent_writecb c.queues _ _

@[simp] theorem disableEvent_writecb (ev : EvMask) : (c.disableEvent ev).writecb = c.writecb :=
  Connecter.updateEvent_writecb c.queues _ _

theorem unread_eq_nil_iff {b : Buffer} (h : b.Good) : b.unread = [] ↔ b.useSize = 0 := by
  rw [← List.length_eq_zero_iff, Buffer.unread_length, ← h.sum]

theorem drop_min_useSize {b : Buffer} (h : b.Good) (k : ℕ) : b.unread.drop (min k b.useSize) = b.unread.drop k := by
  have hlen : b.unread.length = b.useSize := (Buffer.unread_length b).trans h.sum.symm
  rcases Nat.le_total k b.useSize with hle | hge
  · rw [Nat.min_eq_left hle]
  · rw [Nat.min_eq_right hge, List.drop_of_length_le (Nat.le_of_eq hlen), List.drop_of_length_le (hlen ▸ hge)]

/-- A write takes all of the data or nothing. -/
theorem writeBuffer_all {b b' : Buffer} {data : List Byte} {written : ℕ}
    (h : b.writeBuffer data = some (written, b')) : written = 0 ∨ written = data.length := by
  rw [Buffer.writeBuffer] at h
  split at h
  · cases h
  · cases h
    exact .inl rfl
  · split at h
    · cases h
      exact .inl rfl
    · split at h
      · cases h
      · cases h
        exact .inr rfl

theorem writeBuf_of_room (q : Connecter) (data : List Byte) (room : Bool) :
    q.writeBuf data room =
      let written := if room then data.length else 0
      let q := { q with writeBuffer := q.writeBuffer ++ if room then data else [] }
      if written = 0 then (-1, q) else if q.centre.isNone then (-1, q) else (written, q.enableEvent evIowrite) := by
  cases room with
  | true => rfl
  | false => simp [Connecter.writeBuf]

/-- A write over the buffer is one over the queue, which takes the data when the buffer does. -/
theorem Sound.writeBuf {data : List Byte} (h : c.Sound)
    (hok : Buffer.sendOk ⟨c.writeBuffer, [], []⟩ (.write data)) :
    ∃ ret c', c.writeBuf data = some (ret, c') ∧ c'.Sound ∧
      c.queues.writeBuf data (c.took data) = (ret, c'.queues) := by
  obtain ⟨written, b, hb, hgood, hunread⟩ := h.write.writeBuffer hok
  have hsound : Sound { c with writeBuffer := b } := ⟨h.read, hgood⟩
  have hqueues : { c with writeBuffer := b }.queues =
      { c.queues with writeBuffer := c.queues.writeBuffer ++ if c.took data then data else [] } := by
    simp only [queues, hunread, took, hb, decide_eq_true_eq]
  have hwritten : (if c.took data then data.length else 0) = written := by
    simp only [took, hb, decide_eq_true_eq]
    cases writeBuffer_all hb with
    | inl hnone => split_ifs <;> omega
    | inr hall => rw [if_pos hall, hall]
  rw [writeBuf_of_room, BufferedConnecter.writeBuf, hb]
  simp only [hwritten, ← hqueues]
  by_cases hzero : written = 0
  · rw [if_pos hzero, if_pos hzero]
    exact ⟨_, _, rfl, hsound, rfl⟩
  · rw [if_neg hzero, if_neg hzero]
    by_cases hcentre : c.centre.isNone
    · exact ⟨_, _, if_pos hcentre, hsound, if_pos hcentre⟩
    · refine ⟨_, _, if_neg hcentre, hsound.setEvent _, ?_⟩
      rw [queues_enableEvent]
      exact if_neg hcentre

theorem Sound.readBuf (h : c.Sound) (size : ℕ) :
    ∃ c', c.readBuf size = some ((c.queues.readBuf size).1, c') ∧ c'.Sound ∧ c'.queues = (c.queues.readBuf size).2 := by
  obtain ⟨b, hb, hgood, hunread⟩ := h.read.readBuffer size
  have htake : c.readBuffer.unread.take (min size c.readBuffer.useSize) = c.readBuffer.unread.take size := by
    rw [h.read.sum, ← Buffer.unread_length, List.take_eq_take_iff, Nat.min_assoc, Nat.min_self]
  refine ⟨{ c with readBuffer := b }, ?_, ⟨hgood, h.write⟩, ?_⟩
  · rw [BufferedConnecter.readBuf, hb, htake]
    rfl
  · rw [queues, hunread, drop_min_useSize h.read]
    rfl

theorem queues_finishRead (unread readBytes : ℤ) {d : BufferedConnecter} {data : List Byte}
    (hd : d.queues = { c.queues with readBuffer := c.queues.readBuffer ++ data }) :
    ((d.finishRead unread readBytes).1.queues, (d.finishRead unread readBytes).2) =
      c.queues.finishRead unread readBytes data := by
  have hcb : d.readcb = c.readcb := congrArg Connecter.readcb hd
  apply Prod.ext
  · simp only [BufferedConnecter.finishRead, Connecter.finishRead, ← hd]
    split_ifs
    · exact queues_enableEvent _
    · rfl
  · rw [Connecter.finishRead_call]
    simp only [BufferedConnecter.finishRead, apply_ite BufferedConnecter.readcb, enableEvent_readcb, ite_self, hcb]
    rfl

theorem Sound.finishRead (h : c.Sound) (unread readBytes : ℤ) : (c.finishRead unread readBytes).1.Sound := by
  simp only [BufferedConnecter.finishRead]
  split_ifs
  · exact h.setEvent _
  · exact h

/-- What the socket may give, and the free tail that it finds. -/
def RecvFits (c : BufferedConnecter) (unreadByte : ℤ) (recv : SocketResult (List Byte)) : Prop :=
  ∀ bytes, recv = .done bytes →
    Buffer.recvOk ⟨c.readBuffer, [], []⟩ (.recv maxIovec (toUint32 (readSize unreadByte)) bytes) ∧
    ∀ iov b, c.readBuffer.getWriteBuffer maxIovec (toUint32 (readSize unreadByte)) = some (iov, b) →
      bytes.length ≤ Buffer.iovTotal iov

/-- `GetWriteBuffer` returns and leaves what is unread. -/
theorem getWriteBuffer_good {b : Buffer} (h : b.Good) (iovcnt size : ℕ) :
    ∃ iov b', b.getWriteBuffer iovcnt size = some (iov, b') ∧ b'.Good ∧ b'.unread = b.unread := by
  obtain ⟨ok, b', hb, hgood, hunread, -, -⟩ := h.reserver (Buffer.writeSize iovcnt size)
  cases ok with
  | false => exact ⟨[], b', by rw [Buffer.getWriteBuffer, hb], hgood, hunread⟩
  | true => exact ⟨_, b', by rw [Buffer.getWriteBuffer, hb], hgood, hunread⟩

/-- The read half over the buffer is the one over the queue. -/
theorem Sound.handleRead {unreadByte : ℤ} {recv : SocketResult (List Byte)} (h : c.Sound)
    (hfits : c.RecvFits unreadByte recv) :
    ∃ r, c.handleRead unreadByte recv = some r ∧ r.1.Sound ∧
      (r.1.queues, r.2) = c.queues.handleRead unreadByte recv := by
  obtain ⟨iov, b, hb, hgood, hunread⟩ :=
    getWriteBuffer_good h.read maxIovec (toUint32 (readSize unreadByte))
  have hsound : Sound { c with readBuffer := b } := ⟨hgood, h.write⟩
  have hqueues : { c with readBuffer := b }.queues = c.queues := by
    simp only [queues, hunread]
  have herr (e : ℤ) : (({ c with readBuffer := b }.callErr e).1.queues, ({ c with readBuffer := b }.callErr e).2) =
      c.queues.callErr e := by
    rw [queues_callErr, callErr, hqueues]
  rw [BufferedConnecter.handleRead, hb]
  cases recv with
  | failed e =>
    by_cases hhard : socketErrNotTryAgain e
    · simp only [Connecter.handleRead, hhard, if_true]
      exact ⟨_, rfl, hsound.setEvent _, herr e⟩
    · simp only [Connecter.handleRead, hhard, Bool.false_eq_true, if_false]
      refine ⟨_, rfl, hsound.finishRead _ _, queues_finishRead (readSize unreadByte) (-1) ?_⟩
      rw [hqueues, List.append_nil]
  | done bytes =>
    cases bytes with
    | nil => exact ⟨_, rfl, hsound.setEvent _, herr 0⟩
    | cons a data =>
      obtain ⟨hok, htotal⟩ := hfits (a :: data) rfl
      obtain ⟨iov', b', hb', hmoves⟩ := h.read.receive hok
      cases hb.symm.trans hb'
      obtain ⟨b'', hb'', hgood'', hunread''⟩ := hmoves (htotal iov b hb)
      have hsound'' : Sound { c with readBuffer := b'' } := ⟨hgood'', h.write⟩
      refine ⟨({ c with readBuffer := b'' }.finishRead (readSize unreadByte) (a :: data).length), ?_,
        hsound''.finishRead _ _, ?_⟩
      · simp only [if_pos (htotal iov b hb), hb'']
      · apply queues_finishRead
        simp only [queues, hunread'']

/-- The end of the write half, whatever the socket answered. -/
theorem Sound.finishWrite (h : c.Sound) (sendBytes : ℤ) :
    ∃ r, c.finishWrite sendBytes = some r ∧ r.1.Sound ∧ (r.1.queues, r.2) = c.queues.finishWrite sendBytes := by
  obtain ⟨b, hb, hgood, hunread⟩ := h.write.moveReadPos (toUint32 sendBytes)
  have hsound : Sound { c with writeBuffer := b } := ⟨h.read, hgood⟩
  have hqueues : { c with writeBuffer := b }.queues =
      { c.queues with writeBuffer := c.queues.writeBuffer.drop (toUint32 sendBytes) } := by
    simp only [queues, hunread, drop_min_useSize h.write]
  have hrearm : { c with writeBuffer := b }.rearm.queues =
      if { c with writeBuffer := b }.queues.writeBuffer = [] then
        { c with writeBuffer := b }.queues.disableEvent evIowrite
      else { c with writeBuffer := b }.queues.enableEvent evIowrite := by
    rw [BufferedConnecter.rearm, apply_ite queues, queues_disableEvent, queues_enableEvent]
    exact if_congr (unread_eq_nil_iff hgood).symm rfl rfl
  have hcb : { c with writeBuffer := b }.rearm.writecb = c.writecb := by
    rw [BufferedConnecter.rearm, apply_ite BufferedConnecter.writecb]
    simp
  rw [BufferedConnecter.finishWrite, hb]
  refine ⟨_, rfl, ?_, ?_⟩
  · change Sound (BufferedConnecter.rearm _)
    rw [BufferedConnecter.rearm]
    split_ifs
    · exact hsound.setEvent _
    · exact hsound.setEvent _
  · apply Prod.ext
    · simp only [hrearm, Connecter.finishWrite, hqueues]
    · rw [Connecter.finishWrite_call, hcb]
      rfl

/-- The socket is shown the first bytes of the queue. -/
theorem Sound.sendIov (h : c.Sound) :
    c.writeBuffer.iovBytes c.sendIov = c.queues.writeBuffer.take (Buffer.iovTotal c.sendIov) ∧
      Buffer.iovTotal c.sendIov ≤ c.queues.writeBuffer.length := by
  have hlength : c.queues.writeBuffer.length = c.writeBuffer.useSize :=
    (Buffer.unread_length _).trans h.write.sum.symm
  rw [hlength]
  exact Buffer.readBufferIov_bytes (fun hne => (h.write.iters hne).2) h.write.sum.le maxIovec c.writeBuffer.useSize

/-- The write half over the buffer is the one over the queue. -/
theorem Sound.handleWrite {send : SocketResult ℕ} (h : c.Sound)
    (hfits : ∀ n, send = .done n → n ≤ Buffer.iovTotal c.sendIov) :
    ∃ r, c.handleWrite send = some r ∧ r.1.Sound ∧ (r.1.queues, r.2) = c.queues.handleWrite send := by
  have hempty : c.queues.writeBuffer = [] ↔ c.writeBuffer.useSize = 0 := unread_eq_nil_iff h.write
  by_cases hzero : c.writeBuffer.useSize = 0
  · refine ⟨(c, none), if_pos hzero, h, ?_⟩
    exact (if_pos (hempty.mpr hzero)).symm
  · simp only [BufferedConnecter.handleWrite, Connecter.handleWrite, if_neg hzero, if_neg (mt hempty.mp hzero)]
    cases send with
    | failed e =>
      by_cases hhard : socketErrNotTryAgain e
      · simp only [hhard, if_true]
        exact ⟨_, rfl, h.setEvent _, by rw [queues_callErr, callErr]⟩
      · simp only [hhard, Bool.false_eq_true, if_false]
        exact h.finishWrite (-1)
    | done n =>
      simp only [if_pos (hfits n rfl)]
      exact h.finishWrite n

end Handlers

end BufferedConnecter

/-! ## The rounds over the two -/

open Connecter
open BufferedConnecter (queues queues_setEvent queues_enableEvent queues_disableEvent)

/-- As `ConnRound`, over the buffers. -/
structure BufferedRound where
  conn : BufferedConnecter
  phase : HandlePhase
  cancelled : Bool
  calls : List (Callback × Bool)

namespace BufferedRound
variable (s : BufferedRound)

def start : BufferedRound := ⟨.new, .idle, false, []⟩

/-- The same over the queues. -/
def rounds : ConnRound := ⟨s.conn.queues, s.phase, s.cancelled, s.calls⟩

def update (r : BufferedConnecter × Option Callback) : BufferedRound :=
  { s with
    conn := r.1
    cancelled := r.1.centre.isNone && (s.cancelled || s.conn.centre.isSome)
    calls := s.calls ++ (r.2.toList.map fun cb => (cb, s.cancelled)) }

def startHandle : BufferedRound :=
  if s.conn.queues.getCurEv.meets evCancel then s
  else if s.conn.centre.isNone then s
  else { s with phase := .readHalf s.conn.queues.getCurEv }

def runReadHalf (unreadByte : ℤ) (recv : SocketResult (List Byte)) (ev : EvMask) : Option BufferedRound :=
  if ev.meets evIoread then
    (s.conn.handleRead unreadByte recv).map fun r =>
      { s.update r with phase := if r.2.isSome then .readCall ev else .writeHalf ev }
  else some { s with phase := .writeHalf ev }

def endHandle : BufferedRound :=
  { s.update (s.conn.setEvent s.conn.queues.popCurEv, none) with phase := .idle }

def runWriteHalf (send : SocketResult ℕ) (ev : EvMask) : Option BufferedRound :=
  if ev.meets evIowrite then
    (s.conn.handleWrite send).map fun r =>
      if r.2.isSome then { s.update r with phase := .writeCall } else endHandle (s.update (r.1, none))
  else some s.endHandle

/-- The socket takes no more than it is shown. -/
def sendFits (c : BufferedConnecter) : SocketResult ℕ → Bool
  | .done n => n ≤ Buffer.iovTotal c.sendIov
  | .failed _ => true

/-- The `room` of a write is what the buffer says. -/
def userCall (c : BufferedConnecter) : UserCall → Option BufferedConnecter
  | .cancel => some (c.setEvent c.queues.cancelEvent)
  | .register centre => if c.centre.isNone then some { c with centre := some centre } else none
  | .write data room => if room = c.took data then (c.writeBuf data).map Prod.snd else none
  | .readBuffer size => (c.readBuf size).map Prod.snd
  | .enable ev => some (c.enableEvent ev)
  | .disable ev => some (c.disableEvent ev)
  | .setCallbacks errcb readcb writecb => some { c with errcb := errcb, readcb := readcb, writecb := writecb }

def step : RoundOp → Option BufferedRound
  | .activate ev =>
    if s.phase = .idle ∧ s.conn.centre.isSome ∧ s.conn.ev.meets ev ∧ ev &&& ~~~ioCareEvent = 0#16 then
      some { s with conn := { s.conn with curEv := s.conn.curEv ++ [ev] } }
    else none
  | .take => if s.phase = .idle then some s.startHandle else none
  | .readHalf unreadByte recv =>
    match s.phase with
    | .readHalf ev => s.runReadHalf unreadByte recv ev
    | _ => none
  | .writeHalf send =>
    match s.phase with
    | .writeHalf ev => if sendFits s.conn send then s.runWriteHalf send ev else none
    | _ => none
  | .user call => if s.phase.userCode then (userCall s.conn call).map fun c => s.update (c, none) else none
  | .ret =>
    match s.phase with
    | .readCall ev => some { s with phase := .writeHalf ev }
    | .writeCall => some s.endHandle
    | .idle => none
    | .readHalf _ => none
    | .writeHalf _ => none

/-- A write finds a free tail with room for all of it in one node, a receive one with room for what came, and the buffer
then holds less than 2^32 bytes. -/
def bufferOk : RoundOp → Prop
  | .user (.write data _) => Buffer.sendOk ⟨s.conn.writeBuffer, [], []⟩ (.write data)
  | .readHalf unreadByte (.done bytes) =>
    Buffer.recvOk ⟨s.conn.readBuffer, [], []⟩ (.recv maxIovec (toUint32 (BufferedConnecter.readSize unreadByte)) bytes)
  | _ => True

instance (op : RoundOp) : Decidable (s.bufferOk op) := by
  unfold bufferOk
  split <;> infer_instance

variable {s} {t : BufferedRound} {op : RoundOp}

/-- The result over the buffers beside the one over the queues. -/
def Over (c : BufferedConnecter) (q : Connecter) : Prop := c.Sound ∧ c.queues = q

/-- A call of the user does to the queues what it does to the buffers. -/
theorem userCall_refines {c : BufferedConnecter} {call : UserCall} (h : c.Sound)
    (hok : ∀ data room, call = .write data room →
      Buffer.sendOk ⟨c.writeBuffer, [], []⟩ (.write data) ∧ room = c.took data) :
    Option.Rel Over (userCall c call) (c.queues.userCall call) := by
  cases call with
  | cancel =>
    refine .some ⟨h.setEvent _, queues_setEvent ?_ ?_⟩
    · simp only [cancelEvent]
      split_ifs <;> rfl
    · exact cancelEvent_writeBuffer _
  | register centre => exact rel_ite Iff.rfl fun _ => ⟨⟨h.read, h.write⟩, rfl⟩
  | write data room =>
    obtain ⟨hsend, hroom⟩ := hok data room rfl
    obtain ⟨ret, d, hwrite, hsound, hqueues⟩ := h.writeBuf hsend
    rw [userCall, if_pos hroom, hwrite, Connecter.userCall, hroom, hqueues]
    exact .some ⟨hsound, rfl⟩
  | readBuffer size =>
    obtain ⟨d, hread, hsound, hqueues⟩ := h.readBuf size
    rw [userCall, hread, Connecter.userCall, ← hqueues]
    exact .some ⟨hsound, rfl⟩
  | enable ev => exact .some ⟨h.setEvent _, queues_enableEvent ev⟩
  | disable ev => exact .some ⟨h.setEvent _, queues_disableEvent ev⟩
  | setCallbacks errcb readcb writecb => exact .some ⟨⟨h.read, h.write⟩, rfl⟩

/-- The socket fills no more than the iovecs. -/
def recvFits (c : BufferedConnecter) (unreadByte : ℤ) (bytes : List Byte) : Bool :=
  match c.readBuffer.getWriteBuffer maxIovec (toUint32 (BufferedConnecter.readSize unreadByte)) with
  | none => true
  | some (iov, _) => bytes.length ≤ Buffer.iovTotal iov

/-- What the socket and the caller may do; an `int` is the size of a write. -/
def socketFits : RoundOp → Prop
  | .readHalf unreadByte (.done bytes) => recvFits s.conn unreadByte bytes
  | .writeHalf send => sendFits s.conn send
  | .user (.write data room) => room = s.conn.took data ∧ data.length < 2 ^ 31
  | _ => True

instance : (op : RoundOp) → Decidable (s.socketFits op)
  | .readHalf unreadByte (.done bytes) => inferInstanceAs (Decidable (recvFits s.conn unreadByte bytes = true))
  | .writeHalf send => inferInstanceAs (Decidable (sendFits s.conn send = true))
  | .user (.write data room) => inferInstanceAs (Decidable (room = s.conn.took data ∧ data.length < 2 ^ 31))
  | .user .cancel | .user (.register _) | .user (.readBuffer _) | .user (.enable _) | .user (.disable _)
  | .user (.setCallbacks _ _ _) | .readHalf _ (.failed _) | .activate _ | .take | .ret => isTrue trivial

theorem recvFits_of_ok {unreadByte : ℤ} {recv : SocketResult (List Byte)}
    (hok : s.bufferOk (.readHalf unreadByte recv)) (hfits : s.socketFits (.readHalf unreadByte recv)) :
    s.conn.RecvFits unreadByte recv := by
  intro bytes hbytes
  subst hbytes
  refine ⟨hok, fun iov b hb => ?_⟩
  rw [socketFits, recvFits, hb] at hfits
  exact of_decide_eq_true hfits

theorem sendFits_iff {c : BufferedConnecter} {send : SocketResult ℕ} :
    sendFits c send ↔ ∀ n, send = .done n → n ≤ Buffer.iovTotal c.sendIov := by
  cases send with
  | failed e => simp [sendFits]
  | done k => simp [sendFits]

/-- The iovecs show no more than is queued. -/
theorem sendFits_queues {c : BufferedConnecter} (h : c.Sound) {send : SocketResult ℕ} (hfits : sendFits c send) :
    Connecter.sendFits c.queues send := by
  cases send with
  | failed e => rfl
  | done n => exact decide_eq_true ((sendFits_iff.mp hfits n rfl).trans h.sendIov.2)

theorem endHandle_refines (h : s.conn.Sound) :
    s.endHandle.conn.Sound ∧ s.endHandle.rounds = Connecter.endHandle s.rounds := by
  refine ⟨h.setEvent _, ?_⟩
  have hpop : (s.conn.setEvent s.conn.queues.popCurEv).queues = s.conn.queues.popCurEv := queues_setEvent rfl rfl
  exact congrArg (fun c => { s.rounds.update (c, none) with phase := .idle }) hpop

theorem startHandle_refines (h : s.conn.Sound) :
    s.startHandle.conn.Sound ∧ s.startHandle.rounds = Connecter.startHandle s.rounds := by
  rw [startHandle, apply_ite rounds, apply_ite rounds]
  refine ⟨?_, rfl⟩
  split_ifs
  · exact h
  · exact h
  · exact h

theorem runReadHalf_refines {unreadByte : ℤ} {recv : SocketResult (List Byte)} (h : s.conn.Sound) (ev : EvMask)
    (hfits : ev.meets evIoread → s.conn.RecvFits unreadByte recv) :
    ∃ t, s.runReadHalf unreadByte recv ev = some t ∧ t.conn.Sound ∧
      t.rounds = Connecter.runReadHalf s.rounds unreadByte recv ev := by
  simp only [runReadHalf, Connecter.runReadHalf]
  by_cases hread : ev.meets evIoread
  · obtain ⟨r, hr, hsound, hqueues⟩ := h.handleRead (hfits hread)
    rw [if_pos hread, if_pos hread, hr]
    refine ⟨_, rfl, hsound, ?_⟩
    exact congrArg (fun r : Connecter × Option Callback => ({ s.rounds.update r with
      phase := if r.2.isSome then .readCall ev else .writeHalf ev } : ConnRound)) hqueues
  · rw [if_neg hread, if_neg hread]
    exact ⟨_, rfl, h, rfl⟩

theorem runWriteHalf_refines {send : SocketResult ℕ} (h : s.conn.Sound) (ev : EvMask) (hfits : sendFits s.conn send) :
    ∃ t, s.runWriteHalf send ev = some t ∧ t.conn.Sound ∧ t.rounds = Connecter.runWriteHalf s.rounds send ev := by
  simp only [runWriteHalf, Connecter.runWriteHalf]
  by_cases hwrite : ev.meets evIowrite
  · obtain ⟨r, hr, hsound, hqueues⟩ := h.handleWrite (sendFits_iff.mp hfits)
    have hend := congrArg (fun r : Connecter × Option Callback =>
      if r.2.isSome then ({ s.rounds.update r with phase := .writeCall } : ConnRound)
      else Connecter.endHandle (s.rounds.update (r.1, none))) hqueues
    rw [if_pos hwrite, if_pos hwrite, hr]
    by_cases hcall : r.2.isSome
    · refine ⟨{ s.update r with phase := .writeCall }, congrArg some (if_pos hcall), hsound, ?_⟩
      exact (if_pos hcall).symm.trans hend
    · obtain ⟨hkept, hrounds⟩ := endHandle_refines (s := s.update (r.1, none)) hsound
      refine ⟨_, congrArg some (if_neg hcall), hkept, hrounds.trans ?_⟩
      exact (if_neg hcall).symm.trans hend
  · rw [if_neg hwrite, if_neg hwrite]
    exact ⟨_, rfl, endHandle_refines h⟩

/-- The step lemma: over sound buffers that have the room a step is one over the queues. -/
theorem step_refines (h : s.conn.Sound) (hok : s.bufferOk op) (hfits : s.socketFits op) :
    Option.Rel (fun t r => t.conn.Sound ∧ t.rounds = r) (s.step op) (roundStep s.rounds op) := by
  cases op with
  | activate ev => exact rel_ite Iff.rfl fun _ => ⟨⟨h.read, h.write⟩, rfl⟩
  | take => exact rel_ite Iff.rfl fun _ => startHandle_refines h
  | readHalf unreadByte recv =>
    simp only [step, roundStep, show s.rounds.phase = s.phase from rfl]
    cases hphase : s.phase with
    | readHalf ev =>
      obtain ⟨u, hu, hrefines⟩ := runReadHalf_refines h ev fun _ => recvFits_of_ok hok hfits
      simp only [hu]
      exact .some hrefines
    | _ => exact .none
  | writeHalf send =>
    simp only [step, roundStep, show s.rounds.phase = s.phase from rfl]
    cases hphase : s.phase with
    | writeHalf ev =>
      obtain ⟨u, hu, hrefines⟩ := runWriteHalf_refines h ev hfits
      have hqueues : Connecter.sendFits s.rounds.conn send := sendFits_queues h hfits
      simp only [if_pos hqueues, if_pos (show sendFits s.conn send from hfits), hu]
      exact .some hrefines
    | _ => exact .none
  | user call =>
    have hwrite (data : List Byte) (room : Bool) (hcall : call = .write data room) :
        Buffer.sendOk ⟨s.conn.writeBuffer, [], []⟩ (.write data) ∧ room = s.conn.took data := by
      subst hcall
      exact ⟨hok, hfits.1⟩
    have hcall := userCall_refines h hwrite
    rw [step, roundStep]
    change Option.Rel _ (if s.phase.userCode then _ else _)
      (if s.phase.userCode then (s.conn.queues.userCall call).map _ else _)
    generalize userCall s.conn call = d at hcall
    generalize s.conn.queues.userCall call = e at hcall
    cases s.phase.userCode with
    | false => exact .none
    | true =>
      cases hcall with
      | none => exact .none
      | some hover => exact .some ⟨hover.1, hover.2 ▸ rfl⟩
  | ret =>
    simp only [step, roundStep, show s.rounds.phase = s.phase from rfl]
    cases s.phase with
    | readCall ev => exact .some ⟨h, rfl⟩
    | writeCall => exact .some (endHandle_refines h)
    | _ => exact .none

/-- Over the buffers a run with the room it needs is the run over the queues: it goes on as long, ends with the unread
bytes in the place of the buffers, and at its end a read returns, and a send shows, the bytes that the queues have. -/
theorem buffers_refine {ops : List RoundOp}
    (hg : Guarded step (fun s op => s.bufferOk op ∧ s.socketFits op) .start ops) :
    (exec step .start ops).map rounds = exec roundStep .start ops ∧
      ∀ s, exec step .start ops = some s →
        (∀ size, (s.conn.readBuf size).map Prod.fst = some (s.rounds.conn.readBuf size).1) ∧
        s.conn.writeBuffer.iovBytes s.conn.sendIov =
          s.rounds.conn.writeBuffer.take (Buffer.iovTotal s.conn.sendIov) := by
  have hstep (s : BufferedRound) (r : ConnRound) (op : RoundOp) (hrel : s.conn.Sound ∧ s.rounds = r)
      (hok : s.bufferOk op ∧ s.socketFits op) :
      Option.Rel (fun t r => t.conn.Sound ∧ t.rounds = r) (s.step op) (roundStep r op) :=
    hrel.2 ▸ step_refines hrel.1 hok.1 hok.2
  have hstart : BufferedRound.start.conn.Sound ∧ BufferedRound.start.rounds = .start :=
    ⟨⟨Buffer.good_empty, Buffer.good_empty⟩, rfl⟩
  have hrel := rel_exec hstep hstart hg
  generalize exec step .start ops = u at hrel
  generalize exec roundStep .start ops = r at hrel
  cases hrel with
  | none => exact ⟨rfl, fun s hs => nomatch hs⟩
  | some hend =>
    obtain ⟨hsound, hrounds⟩ := hend
    refine ⟨congrArg some hrounds, ?_⟩
    rintro s ⟨⟩
    refine ⟨fun size => ?_, hsound.sendIov.1⟩
    obtain ⟨d, hread, -⟩ := hsound.readBuf size
    rw [hread]
    rfl

/-- Two bytes come in and go out behind one that was queued. -/
def bufferedSample : List RoundOp :=
  [.user (.register 1), .user (.setCallbacks true true true), .user (.write [7] true),
    .activate (evIoread ||| evIowrite), .take, .readHalf 2 (.done [1, 2]), .user (.readBuffer 2),
    .user (.write [1, 2] true), .ret, .writeHalf (.done 2), .ret]

theorem buffers_refine_sample :
    (exec step .start bufferedSample).map rounds = exec roundStep .start bufferedSample ∧
      (exec roundStep .start bufferedSample).isSome :=
  ⟨(buffers_refine (by decide +kernel)).1, by decide +kernel⟩

end BufferedRound

end Chaos
