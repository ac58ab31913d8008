import Chaos.Connecter
import Chaos.GuardedRuns

/-!
# The send path of the connecter

Runs of `Connecter::WriteBuffer` and `Connecter::HandleWrite` in which the connecter is registered,
cancelled, and has its callbacks and its mask changed at any time. A try-again error drops the whole
queue, since the -1 is read as an unsigned size; and `WriteBuffer` queues the data before it looks for
the centre, so that without one it keeps what it reports as refused.
-/
namespace Chaos.Connecter

open Word32 GuardedRuns

/-- `accepted` is what the socket took, `written` the data of the `WriteBuffer` calls that did not
return an error. -/
structure ConnSend where
  conn : Connecter
  accepted : List UInt8
  written : List UInt8

inductive ConnSendOp where
  | write (data : List UInt8) (room : Bool)
  | handleWrite (send : SocketResult ℕ)
  | handleRead (unreadByte : ℤ) (recv : SocketResult (List UInt8))
  | register (centre : ℕ)
  | cancel
  | enable (ev : EvMask)
  | disable (ev : EvMask)
  | setCallbacks (errcb readcb writecb : Bool)

/-- A connecter as the constructor leaves it, with nothing queued. -/
def ConnSend.start : ConnSend := ⟨.new, [], []⟩

def connSendStep (s : ConnSend) : ConnSendOp → Option ConnSend
  | .write data room =>
    let r := s.conn.writeBuf data room
    some { s with conn := r.2, written := if r.1 < 0 then s.written else s.written ++ data }
  | .handleWrite send =>
    match send with
    | .done n =>
      if n ≤ s.conn.writeBuffer.length ∧ n < word32 then
        some { s with
          conn := (s.conn.handleWrite send).1
          accepted := s.accepted ++ s.conn.writeBuffer.take n }
      else none
    | .failed _ => some { s with conn := (s.conn.handleWrite send).1 }
  | .handleRead unreadByte recv => some { s with conn := (s.conn.handleRead unreadByte recv).1 }
  | .register centre =>
    if s.conn.centre.isNone then some { s with conn := { s.conn with centre := some centre } } else none
  | .cancel => some { s with conn := s.conn.cancelEvent }
  | .enable ev => some { s with conn := s.conn.enableEvent ev }
  | .disable ev => some { s with conn := s.conn.disableEvent ev }
  | .setCallbacks errcb readcb writecb =>
    some { s with conn := { s.conn with errcb := errcb, readcb := readcb, writecb := writecb } }

/-- Data that is queued is written while registered, and no try-again error meets a queue. -/
def connSendOk (s : ConnSend) : ConnSendOp → Prop
  | .write data room => room = true → data ≠ [] → s.conn.centre.isSome
  | .handleWrite (.failed e) => s.conn.writeBuffer ≠ [] → socketErrNotTryAgain e
  | _ => True

instance (s : ConnSend) (op : ConnSendOp) : Decidable (connSendOk s op) := by
  unfold connSendOk
  split <;> infer_instance

def ConnSendInv (s : ConnSend) : Prop := s.accepted ++ s.conn.writeBuffer = s.written

/-- A write that queues its data reports it when the connecter is registered. -/
theorem writeBuf_stream (c : Connecter) {data : List UInt8} {room : Bool}
    (hok : room = true → data ≠ [] → c.centre.isSome) :
    (c.writeBuf data room).2.writeBuffer =
      c.writeBuffer ++ if (c.writeBuf data room).1 < 0 then [] else data := by
  cases room with
  | false => simp [writeBuf]
  | true =>
    rcases List.eq_nil_or_concat data with rfl | ⟨_, _, hcat⟩
    · simp [writeBuf]
    · have hne : data ≠ [] := by simp [hcat]
      have hcentre : c.centre.isNone = false := by simp [hok rfl hne]
      simp [writeBuf, hne, hcentre]

theorem connSendInv_step {s t : ConnSend} {op : ConnSendOp} (h : ConnSendInv s)
    (hok : connSendOk s op) (ht : connSendStep s op = some t) : ConnSendInv t := by
  rw [ConnSendInv] at *
  cases op with
  | write data room =>
    obtain rfl := Option.some.inj ht
    have hstream := writeBuf_stream s.conn hok
    simp only [hstream, ← List.append_assoc, h]
    split_ifs
    · simp
    · rfl
  | handleWrite send =>
    cases send with
    | done n =>
      simp only [connSendStep, Option.ite_none_right_eq_some, Option.some.injEq] at ht
      obtain ⟨⟨_, hsmall⟩, rfl⟩ := ht
      simp only [handleWrite_writeBuffer, toUint32_natCast hsmall, List.append_assoc,
        List.take_append_drop, h]
    | failed e =>
      obtain rfl := Option.some.inj ht
      simp only [handleWrite_writeBuffer]
      rcases eq_or_ne s.conn.writeBuffer [] with hnil | hne
      · simp only [hnil, List.drop_nil, ite_self, List.append_nil] at h ⊢
        exact h
      · rw [if_pos (hok hne)]
        exact h
  | handleRead unreadByte recv =>
    obtain rfl := Option.some.inj ht
    simpa only [handleRead_writeBuffer] using h
  | register centre =>
    simp only [connSendStep, Option.ite_none_right_eq_some, Option.some.injEq] at ht
    obtain ⟨_, rfl⟩ := ht
    exact h
  | cancel =>
    obtain rfl := Option.some.inj ht
    simpa only [cancelEvent_writeBuffer] using h
  | enable ev =>
    obtain rfl := Option.some.inj ht
    simpa only [enableEvent_writeBuffer] using h
  | disable ev =>
    obtain rfl := Option.some.inj ht
    simpa only [disableEvent_writeBuffer] using h
  | setCallbacks errcb readcb writecb =>
    obtain rfl := Option.some.inj ht
    exact h

/-- In a run that meets `connSendOk` at every step, the bytes the socket took and the bytes still
queued are the data reported as written. -/
theorem conn_send_conserved {ops : List ConnSendOp} {s : ConnSend}
    (hg : Guarded connSendStep connSendOk .start ops) (hs : exec connSendStep .start ops = some s) :
    s.accepted ++ s.conn.writeBuffer = s.written :=
  invariant_of_guarded (fun _ _ _ => connSendInv_step) (show ConnSendInv .start from rfl) hg hs

/-- Short writes, a hard error that cancels, a refused write without a centre and a try-again error
on an empty queue. -/
def connSendSample : List ConnSendOp :=
  [.register 1, .write [1, 2, 3, 4] true, .handleWrite (.done 2), .write [5] true,
    .handleWrite (.done 3), .handleWrite (.failed eagain), .write [6, 7] true,
    .handleWrite (.failed 104), .write [8] false, .register 1, .handleWrite (.done 1)]

def connSendSampleEnd : ConnSend :=
  (exec connSendStep .start connSendSample).get (by decide +kernel)

theorem conn_send_conserved_sample :
    connSendSampleEnd.accepted ++ connSendSampleEnd.conn.writeBuffer = connSendSampleEnd.written :=
  conn_send_conserved (show Guarded connSendStep connSendOk .start connSendSample by decide +kernel)
    (Option.some_get _).symm

/-- A send that fails with EAGAIN loses the queue. -/
theorem conn_send_not_conserved :
    ¬ ∀ ops s, exec connSendStep .start ops = some s →
      s.accepted ++ s.conn.writeBuffer = s.written := by
  intro h
  have hrun := h [.register 1, .write [1, 2, 3] true, .handleWrite (.failed eagain)] _
    (Option.some_get (by decide +kernel)).symm
  revert hrun
  decide +kernel

end Chaos.Connecter
