import Chaos.Connecter
import Chaos.GuardedRuns

/-!
# The callbacks of the connecter

`ProcessActiveEvent` as one connecter meets it: an entry is deleted when a cancel marker is in front,
passed over without a centre, and handled otherwise, the read half first and then the write half with
the mask copied before. User code runs outside the round and inside a callback. The centre is looked at
once, before the read half, so a cancel made there does not stop the write half.
-/
namespace Chaos.Connecter

open Word32 GuardedRuns

/-- Where the loop is with the connecter; `ev` is the copied mask. -/
inductive HandlePhase where
  | idle
  | readHalf (ev : EvMask)
  | readCall (ev : EvMask)
  | writeHalf (ev : EvMask)
  | writeCall
  deriving DecidableEq, Repr

/-- `cancelled` is whether a cancel has taken effect since the last registration; a call is noted with
its value at that time. -/
structure ConnRound where
  conn : Connecter
  phase : HandlePhase
  cancelled : Bool
  calls : List (Callback × Bool)

/-- What user code may do to the connecter. -/
inductive UserCall where
  | cancel
  | register (centre : ℕ)
  | write (data : List UInt8) (room : Bool)
  | readBuffer (size : ℕ)
  | enable (ev : EvMask)
  | disable (ev : EvMask)
  | setCallbacks (errcb readcb writecb : Bool)

inductive RoundOp where
  | activate (ev : EvMask)
  | take
  | readHalf (unreadByte : ℤ) (recv : SocketResult (List UInt8))
  | writeHalf (send : SocketResult ℕ)
  | user (call : UserCall)
  | ret

def ConnRound.start : ConnRound := ⟨.new, .idle, false, []⟩

def popCurEv (c : Connecter) : Connecter := { c with curEv := c.curEv.tail }

/-- The connecter after a call by the user, `none` where the call is refused. -/
def userCall (c : Connecter) : UserCall → Option Connecter
  | .cancel => some c.cancelEvent
  | .register centre => if c.centre.isNone then some { c with centre := some centre } else none
  | .write data room => some (c.writeBuf data room).2
  | .readBuffer size => some (c.readBuf size).2
  | .enable ev => some (c.enableEvent ev)
  | .disable ev => some (c.disableEvent ev)
  | .setCallbacks errcb readcb writecb =>
    some { c with errcb := errcb, readcb := readcb, writecb := writecb }

/-- Put a changed connecter in place, with the callback it ends with. -/
def ConnRound.update (s : ConnRound) (r : Connecter × Option Callback) : ConnRound :=
  { s with
    conn := r.1
    cancelled := r.1.centre.isNone && (s.cancelled || s.conn.centre.isSome)
    calls := s.calls ++ (r.2.toList.map fun cb => (cb, s.cancelled)) }

/-- User code runs outside the round and inside a callback. -/
def HandlePhase.userCode : HandlePhase → Bool
  | .idle => true
  | .readHalf _ => false
  | .readCall _ => true
  | .writeHalf _ => false
  | .writeCall => true

/-- The socket does not take more than is queued. -/
def sendFits (c : Connecter) : SocketResult ℕ → Bool
  | .done n => n ≤ c.writeBuffer.length
  | .failed _ => true

def startHandle (s : ConnRound) : ConnRound :=
  if s.conn.getCurEv.meets evCancel then s
  else if s.conn.centre.isNone then s
  else { s with phase := .readHalf s.conn.getCurEv }

def runReadHalf (s : ConnRound) (unreadByte : ℤ) (recv : SocketResult (List UInt8)) (ev : EvMask) :
    ConnRound :=
  if ev.meets evIoread then
    let r := s.conn.handleRead unreadByte recv
    { s.update r with phase := if r.2.isSome then .readCall ev else .writeHalf ev }
  else { s with phase := .writeHalf ev }

/-- `PopCurEv` after `Handle`. -/
def endHandle (s : ConnRound) : ConnRound := { s.update (s.conn.popCurEv, none) with phase := .idle }

def runWriteHalf (s : ConnRound) (send : SocketResult ℕ) (ev : EvMask) : ConnRound :=
  if ev.meets evIowrite then
    let r := s.conn.handleWrite send
    if r.2.isSome then { s.update r with phase := .writeCall } else endHandle (s.update (r.1, none))
  else endHandle s

def roundStep (s : ConnRound) : RoundOp → Option ConnRound
  | .activate ev =>
    if s.phase = .idle ∧ s.conn.centre.isSome ∧ s.conn.ev.meets ev ∧ ev &&& ~~~ioCareEvent = 0#16 then
      some { s with conn := { s.conn with curEv := s.conn.curEv ++ [ev] } }
    else none
  | .take => if s.phase = .idle then some (startHandle s) else none
  | .readHalf unreadByte recv =>
    match s.phase with
    | .readHalf ev => some (runReadHalf s unreadByte recv ev)
    | _ => none
  | .writeHalf send =>
    match s.phase with
    | .writeHalf ev => if sendFits s.conn send then some (runWriteHalf s send ev) else none
    | _ => none
  | .user call =>
    if s.phase.userCode then (s.conn.userCall call).map fun c => s.update (c, none) else none
  | .ret =>
    match s.phase with
    | .readCall ev => some { s with phase := .writeHalf ev }
    | .writeCall => some (endHandle s)
    | .idle => none
    | .readHalf _ => none
    | .writeHalf _ => none

/-- What a step of a round does. -/
inductive RoundPass (s : ConnRound) : RoundOp → ConnRound → Prop where
  | activate {ev : EvMask} (hphase : s.phase = .idle)
    (hactive : s.conn.centre.isSome ∧ s.conn.ev.meets ev ∧ ev &&& ~~~ioCareEvent = 0#16) :
    RoundPass s (.activate ev) { s with conn := { s.conn with curEv := s.conn.curEv ++ [ev] } }
  | take (hphase : s.phase = .idle) : RoundPass s .take (startHandle s)
  | readHalf {ev : EvMask} {unreadByte : ℤ} {recv : SocketResult (List UInt8)} (hphase : s.phase = .readHalf ev) :
    RoundPass s (.readHalf unreadByte recv) (runReadHalf s unreadByte recv ev)
  | writeHalf {ev : EvMask} {send : SocketResult ℕ} (hphase : s.phase = .writeHalf ev)
    (hfits : sendFits s.conn send) : RoundPass s (.writeHalf send) (runWriteHalf s send ev)
  | user {call : UserCall} {c : Connecter} (hcode : s.phase.userCode) (hcall : s.conn.userCall call = some c) :
    RoundPass s (.user call) (s.update (c, none))
  | retRead {ev : EvMask} (hphase : s.phase = .readCall ev) : RoundPass s .ret { s with phase := .writeHalf ev }
  | retWrite (hphase : s.phase = .writeCall) : RoundPass s .ret (endHandle s)

theorem roundPass_of_step {s t : ConnRound} {op : RoundOp} (ht : roundStep s op = some t) : RoundPass s op t := by
  cases op with
  | activate ev =>
    simp only [roundStep, Option.ite_none_right_eq_some, Option.some.injEq] at ht
    obtain ⟨⟨hphase, hactive⟩, rfl⟩ := ht
    exact .activate hphase hactive
  | take =>
    simp only [roundStep, Option.ite_none_right_eq_some, Option.some.injEq] at ht
    obtain ⟨hphase, rfl⟩ := ht
    exact .take hphase
  | readHalf unreadByte recv =>
    simp only [roundStep] at ht
    cases hp : s.phase <;> simp only [hp, Option.some.injEq, reduceCtorEq] at ht
    subst ht
    exact .readHalf hp
  | writeHalf send =>
    simp only [roundStep] at ht
    cases hp : s.phase <;> simp only [hp, Option.ite_none_right_eq_some, Option.some.injEq, reduceCtorEq] at ht
    obtain ⟨hfits, rfl⟩ := ht
    exact .writeHalf hp hfits
  | user call =>
    simp only [roundStep, Option.ite_none_right_eq_some, Option.map_eq_some_iff] at ht
    obtain ⟨hcode, c, hcall, rfl⟩ := ht
    exact .user hcode hcall
  | ret =>
    simp only [roundStep] at ht
    cases hp : s.phase <;> simp only [hp, Option.some.injEq, reduceCtorEq] at ht
    · subst ht
      exact .retRead hp
    · subst ht
      exact .retWrite hp

/-- Whether the callback that the outcome of the send selects is set. -/
def sendCallbackSet (c : Connecter) : SocketResult ℕ → Bool
  | .failed e => if socketErrNotTryAgain e then c.errcb else c.writecb
  | .done _ => c.writecb

/-- The write half of an activation with both bits is not reached with the connecter cancelled, bytes
queued, and the callback set that the outcome of the send selects. -/
def roundOk (s : ConnRound) : RoundOp → Prop
  | .writeHalf send => ∀ ev, s.phase = .writeHalf ev → ev.meets evIowrite → s.cancelled →
      s.conn.writeBuffer ≠ [] → ¬ s.conn.sendCallbackSet send
  | _ => True

instance (s : ConnRound) (op : RoundOp) : Decidable (roundOk s op) := by
  cases op with
  | writeHalf send =>
    cases hp : s.phase with
    | writeHalf ev =>
      exact decidable_of_iff (ev.meets evIowrite → s.cancelled → s.conn.writeBuffer ≠ [] →
        ¬ s.conn.sendCallbackSet send) (by simp [roundOk, hp])
    | _ => exact isTrue (by intro ev hev; simp [hp] at hev)
  | _ => exact isTrue trivial

structure RoundInv (s : ConnRound) : Prop where
  calls : ∀ c ∈ s.calls, c.2 = false
  centre : s.cancelled = true → s.conn.centre = none
  started : ∀ ev, s.phase = .readHalf ev → s.cancelled = false

theorem roundInv_start : RoundInv .start :=
  ⟨by simp [ConnRound.start], by simp [ConnRound.start], by simp [ConnRound.start]⟩

/-- A change of the connecter keeps the invariant when its callback, if any, is not called after a
cancel. -/
theorem RoundInv.update {s : ConnRound} {r : Connecter × Option Callback} (h : RoundInv s)
    (hcall : r.2.isSome → s.cancelled = false) {phase : HandlePhase}
    (hphase : ∀ ev, phase ≠ .readHalf ev) : RoundInv { s.update r with phase := phase } := by
  refine ⟨?_, ?_, fun ev hev => absurd hev (hphase ev)⟩
  · intro c hc
    simp only [ConnRound.update, List.mem_append, List.mem_map, Option.mem_toList] at hc
    rcases hc with hc | ⟨cb, hcb, rfl⟩
    · exact h.calls c hc
    · exact hcall (Option.isSome_of_mem hcb)
  · intro hc
    simp only [ConnRound.update, Bool.and_eq_true, Option.isNone_iff_eq_none] at hc
    exact hc.1

/-- The write half calls no callback when nothing is queued or the one it comes to is not set. -/
theorem handleWrite_calls {c : Connecter} {send : SocketResult ℕ}
    (h : (c.handleWrite send).2.isSome) : c.writeBuffer ≠ [] ∧ c.sendCallbackSet send := by
  rcases eq_or_ne c.writeBuffer [] with hnil | hne
  · simp [handleWrite, hnil] at h
  · refine ⟨hne, ?_⟩
    simp only [handleWrite, if_neg hne] at h
    cases send with
    | done n =>
      rw [finishWrite_call] at h
      cases hw : c.writecb with
      | true => simp [sendCallbackSet, hw]
      | false => simp [hw] at h
    | failed e =>
      cases he : socketErrNotTryAgain e with
      | true =>
        cases hcb : c.errcb with
        | true => simp [sendCallbackSet, he, hcb]
        | false => simp [he, callErr_call, hcb] at h
      | false =>
        cases hw : c.writecb with
        | true => simp [sendCallbackSet, he, hw]
        | false => simp [he, finishWrite_call, hw] at h

theorem RoundInv.startHandle {s : ConnRound} (h : RoundInv s) : RoundInv (startHandle s) := by
  rw [Connecter.startHandle]
  split_ifs with hcancel hcentre
  · exact h
  · exact h
  · refine ⟨h.calls, h.centre, fun ev _ => ?_⟩
    cases hc : s.cancelled with
    | false => rfl
    | true => simp [h.centre hc] at hcentre

theorem RoundInv.endHandle {s : ConnRound} (h : RoundInv s) : RoundInv (endHandle s) :=
  h.update (by simp) (by simp)

theorem RoundInv.runReadHalf {s : ConnRound} {ev : EvMask} (h : RoundInv s)
    (hp : s.phase = .readHalf ev) (unreadByte : ℤ) (recv : SocketResult (List UInt8)) :
    RoundInv (runReadHalf s unreadByte recv ev) := by
  rw [Connecter.runReadHalf]
  cases ev.meets evIoread with
  | true =>
    refine h.update (fun _ => h.started ev hp) ?_
    split_ifs <;> simp
  | false => exact ⟨h.calls, h.centre, by simp⟩

theorem RoundInv.runWriteHalf {s : ConnRound} {ev : EvMask} {send : SocketResult ℕ} (h : RoundInv s)
    (hp : s.phase = .writeHalf ev) (hok : roundOk s (.writeHalf send)) :
    RoundInv (runWriteHalf s send ev) := by
  rw [Connecter.runWriteHalf]
  cases hev : ev.meets evIowrite with
  | false => exact h.endHandle
  | true =>
    cases hcall : (s.conn.handleWrite send).2.isSome with
    | false =>
      have hquiet : RoundInv (s.update ((s.conn.handleWrite send).1, none)) := by
        have hphase (e : EvMask) : s.phase ≠ .readHalf e := by simp [hp]
        exact h.update (r := ((s.conn.handleWrite send).1, none)) (by simp) hphase
      simpa only [if_true, hcall, Bool.false_eq_true, if_false] using hquiet.endHandle
    | true =>
      obtain ⟨hqueue, hset⟩ := handleWrite_calls hcall
      have hlive : s.cancelled = false := by
        cases hc : s.cancelled with
        | false => rfl
        | true => exact absurd hset (hok ev hp hev hc hqueue)
      simpa only [if_true, hcall] using
        h.update (r := s.conn.handleWrite send) (fun _ => hlive) (by simp)

/-- The step lemma: a step calls its callback, if any, on a connecter that is not cancelled. -/
theorem roundInv_step {s t : ConnRound} {op : RoundOp} (h : RoundInv s) (hok : roundOk s op)
    (ht : roundStep s op = some t) : RoundInv t := by
  cases roundPass_of_step ht with
  | activate hphase hactive => exact ⟨h.calls, h.centre, h.started⟩
  | take hphase => exact h.startHandle
  | @readHalf ev unreadByte recv hp => exact h.runReadHalf hp unreadByte recv
  | writeHalf hp hfits => exact h.runWriteHalf hp hok
  | @user call c hcode hcall =>
    have hphase (e : EvMask) : s.phase ≠ .readHalf e := by
      intro he
      simp [he, HandlePhase.userCode] at hcode
    exact h.update (r := (c, none)) (by simp) hphase
  | retRead hp => exact ⟨h.calls, h.centre, by simp⟩
  | retWrite hp => exact h.endHandle

/-- In a run that meets `roundOk` at every step no callback is called after a cancel. -/
theorem no_callback_after_cancel {ops : List RoundOp} {s : ConnRound}
    (hg : Guarded roundStep roundOk .start ops) (hs : exec roundStep .start ops = some s) :
    ∀ c ∈ s.calls, c.2 = false :=
  (invariant_of_guarded (fun _ _ _ => roundInv_step) roundInv_start hg hs : RoundInv s).calls

/-- A write activation with nothing queued, and one with both bits in which both halves call back; the
error callback cancels the connecter and registers it elsewhere. -/
def roundSample : List RoundOp :=
  [.user (.register 1), .user (.setCallbacks true true true), .activate evIowrite, .take,
    .readHalf 0 (.done []), .writeHalf (.done 0), .user (.write [7] true),
    .activate (evIoread ||| evIowrite), .take, .readHalf 0 (.done [1, 2]), .ret,
    .writeHalf (.failed 104), .user .cancel, .user (.register 2), .ret,
    .activate (evIoread ||| evIowrite), .take]

def roundSampleEnd : ConnRound := (exec roundStep .start roundSample).get (by decide +kernel)

theorem no_callback_after_cancel_sample : ¬ ∃ c ∈ roundSampleEnd.calls, c.2 = true := by
  rintro ⟨c, hc, hlate⟩
  have hon := no_callback_after_cancel
    (show Guarded roundStep roundOk .start roundSample by decide +kernel) (Option.some_get _).symm c hc
  rw [hon] at hlate
  cases hlate

/-- A cancel in the read callback does not keep the write half from its callback. -/
theorem callback_after_cancel :
    ¬ ∀ ops s, exec roundStep .start ops = some s → ∀ c ∈ s.calls, c.2 = false := by
  intro h
  have hrun := h [.user (.register 1), .user (.setCallbacks true true true),
    .user (.write [1] true), .activate (evIoread ||| evIowrite), .take, .readHalf 0 (.done [2]),
    .user .cancel, .ret, .writeHalf (.done 1)] _ (Option.some_get (by decide +kernel)).symm
  revert hrun
  decide +kernel

end Chaos.Connecter
