import Chaos.ConnecterCallbacks

/-!
# Write interest and the write buffer

Runs of a registered `Connecter` in which nobody but `HandleWrite` disables `EV_IOWRITE`. The constructor
sets the bit before anything is queued, and `HandleWrite` returns at an empty buffer without a look at it.
From the first data on the bit follows the buffer, until an `EnableEvent` of the user sets it again for
nothing.
-/
namespace Chaos.Connecter

open GuardedRuns

/-- `EV_IOWRITE` is in the mask if and only if something is queued. -/
def InterestExact (c : Connecter) : Prop := c.ev.meets evIowrite = true ↔ c.writeBuffer ≠ []

/-- `EV_IOWRITE` is in the mask for nothing. -/
def InterestIdle (c : Connecter) : Prop := c.ev.meets evIowrite = true ∧ c.writeBuffer = []

instance (c : Connecter) : Decidable c.InterestExact := inferInstanceAs (Decidable (_ ↔ _))

/-- `queued` is whether data has been queued since the last `EnableEvent` that set `EV_IOWRITE` on an empty
buffer, the constructor standing for the first. -/
structure InterestRun where
  round : ConnRound
  queued : Bool

def InterestRun.start : InterestRun := ⟨.start, false⟩

def queuedAfter (s : InterestRun) : RoundOp → Bool
  | .user (.write data room) => s.queued || (room && decide (data ≠ []))
  | .user (.enable ev) =>
    if ev.meets evIowrite = true ∧ s.round.conn.centre.isSome = true ∧ s.round.conn.writeBuffer = [] then false
    else s.queued
  | _ => s.queued

def interestStep (s : InterestRun) (op : RoundOp) : Option InterestRun :=
  (roundStep s.round op).map fun r => ⟨r, queuedAfter s op⟩

/-- The user does not disable `EV_IOWRITE`, nor register the connecter again after a cancel. -/
def interestOk (s : InterestRun) : RoundOp → Prop
  | .user (.disable ev) => ev.meets evIowrite = false
  | .user (.register _) => s.round.cancelled = false
  | _ => True

instance (s : InterestRun) (op : RoundOp) : Decidable (interestOk s op) := by
  unfold interestOk
  split <;> infer_instance

/-- What the run says about the connecter. -/
def InterestIs (queued : Bool) (c : Connecter) : Prop := if queued then c.InterestExact else c.InterestIdle

/-! ## The operations -/

section Operations
variable (c : Connecter)

theorem meets_enableEvent (ev : EvMask) : (c.enableEvent ev).ev.meets evIowrite =
    (c.centre.isSome && ev.meets evIowrite || c.ev.meets evIowrite) := by
  rw [enableEvent, updateEvent]
  cases c.centre.isSome with
  | false => simp
  | true =>
    have hbit : evIowrite ∈ [evIoread, evIowrite, evIoexcept] := by simp
    have happly := meets_apply_ioValid hbit .add c.ev ev
    simp only [if_true, happly]
    cases ev.meets evIowrite <;> simp

theorem meets_disableEvent (ev : EvMask) : (c.disableEvent ev).ev.meets evIowrite =
    (!(c.centre.isSome && ev.meets evIowrite) && c.ev.meets evIowrite) := by
  rw [disableEvent, updateEvent]
  cases c.centre.isSome with
  | false => simp
  | true =>
    have hbit : evIowrite ∈ [evIoread, evIowrite, evIoexcept] := by simp
    have happly := meets_apply_ioValid hbit .del c.ev ev
    simp only [if_true, happly]
    cases ev.meets evIowrite <;> simp

/-- The read half does not touch the write interest. -/
theorem handleRead_interest (unreadByte : ℤ) (recv : SocketResult (List UInt8)) :
    (c.handleRead unreadByte recv).1.ev.meets evIowrite = c.ev.meets evIowrite := by
  have hfinish (unread readBytes : ℤ) (data : List UInt8) :
      (c.finishRead unread readBytes data).1.ev.meets evIowrite = c.ev.meets evIowrite := by
    simp only [finishRead]
    split_ifs
    · rw [meets_enableEvent, show evIoread.meets evIowrite = false by decide, Bool.and_false,
        Bool.false_or]
    · rfl
  cases recv with
  | failed e =>
    cases he : socketErrNotTryAgain e with
    | true => simp [handleRead, he]
    | false =>
      simp only [handleRead, he, Bool.false_eq_true, if_false]
      exact hfinish _ _ _
  | done data =>
    cases data with
    | nil => simp [handleRead]
    | cons a data => exact hfinish _ _ _

/-- The write half that gets past the errors leaves the interest exact. -/
theorem finishWrite_interest (hc : c.centre.isSome = true) (sendBytes : ℤ) :
    (c.finishWrite sendBytes).1.InterestExact := by
  rw [InterestExact, finishWrite_writeBuffer]
  simp only [finishWrite]
  split_ifs with hempty
  · rw [meets_disableEvent]
    simp [hc, hempty, show evIowrite.meets evIowrite = true by decide]
  · rw [meets_enableEvent]
    simp [hc, hempty, show evIowrite.meets evIowrite = true by decide]

end Operations

section Interest
variable {c d : Connecter} {queued : Bool}

theorem InterestIs.congr (h : InterestIs queued c) (hev : d.ev.meets evIowrite = c.ev.meets evIowrite)
    (hbuf : d.writeBuffer = c.writeBuffer) : InterestIs queued d := by
  rw [InterestIs, InterestExact, InterestIdle, hev, hbuf]
  exact h

/-- Where something is queued the run has seen it. -/
theorem InterestIs.exact (h : InterestIs queued c) (hne : c.writeBuffer ≠ []) :
    queued = true ∧ c.InterestExact := by
  cases queued with
  | false => exact absurd h.2 hne
  | true => exact ⟨rfl, h⟩

theorem InterestIs.of_exact (h : queued = true ∧ c.InterestExact) : InterestIs queued c := by
  rw [InterestIs, h.1]
  exact h.2

theorem InterestIs.handleWrite (h : InterestIs queued c) (hc : c.centre.isSome = true)
    (send : SocketResult ℕ) : InterestIs queued (c.handleWrite send).1 := by
  simp only [Connecter.handleWrite]
  split_ifs with hempty
  · exact h
  · have hfinish (n : ℤ) : InterestIs queued (c.finishWrite n).1 :=
      .of_exact ⟨(h.exact hempty).1, c.finishWrite_interest hc n⟩
    cases send with
    | done n => exact hfinish n
    | failed e =>
      dsimp only
      split_ifs
      · exact h.congr (by simp) (by simp)
      · exact hfinish (-1)

theorem InterestIs.writeBuf (h : InterestIs queued c)
    (hc : c.centre = none → c.ev.meets evIowrite = true) (data : List UInt8) (room : Bool) :
    InterestIs (queued || (room && decide (data ≠ []))) (c.writeBuf data room).2 := by
  cases room with
  | false =>
    rw [Bool.false_and, Bool.or_false]
    exact h
  | true =>
    rcases List.eq_nil_or_concat data with rfl | ⟨_, _, hcat⟩
    · simpa [Connecter.writeBuf] using h
    · have hne : data ≠ [] := by simp [hcat]
      refine .of_exact ⟨by simp [hne], ?_⟩
      cases hcentre : c.centre with
      | none => simp [InterestExact, Connecter.writeBuf, hne, hcentre, hc hcentre]
      | some i =>
        have hbit : evIowrite.meets evIowrite = true := by decide
        simp [InterestExact, Connecter.writeBuf, hne, hcentre, meets_enableEvent, hbit]

/-- An `EnableEvent` of the write interest makes it idle when nothing is queued. -/
theorem InterestIs.enableEvent (h : InterestIs queued c) (ev : EvMask) :
    InterestIs (if ev.meets evIowrite = true ∧ c.centre.isSome = true ∧ c.writeBuffer = [] then false
      else queued) (c.enableEvent ev) := by
  split_ifs with hset
  · obtain ⟨hev, hcentre, hempty⟩ := hset
    exact ⟨by rw [meets_enableEvent, hev, hcentre]; rfl, by simpa using hempty⟩
  · by_cases hadds : ev.meets evIowrite = true ∧ c.centre.isSome = true
    · -- something is queued, so the bit is there already
      have hne : c.writeBuffer ≠ [] := fun hempty => hset ⟨hadds.1, hadds.2, hempty⟩
      have hbit := (h.exact hne).2.mpr hne
      exact h.congr (by rw [meets_enableEvent, hbit, Bool.or_true]) (by simp)
    · refine h.congr ?_ (by simp)
      rw [meets_enableEvent]
      cases hc : c.centre.isSome <;> cases hev : ev.meets evIowrite <;> simp_all

end Interest

/-! ## The run -/

/-- `fresh` is a connecter before its registration. -/
structure InterestInv (s : InterestRun) : Prop where
  cancelled : s.round.cancelled = true → s.round.conn.centre = none
  fresh : s.round.cancelled = false → s.round.conn.centre = none →
    s.round.phase = .idle ∧ s.round.conn.ev.meets evIowrite = true
  interest : s.round.cancelled = false → InterestIs s.queued s.round.conn

theorem interestInv_start : InterestInv .start := by
  refine ⟨by simp [InterestRun.start, ConnRound.start], fun _ _ => ?_, fun _ => ?_⟩
  · exact ⟨rfl, by decide⟩
  · exact ⟨by decide, rfl⟩

section Run
variable {s t : InterestRun} {r : Connecter × Option Callback} {queued : Bool} {phase : HandlePhase}

/-- A change of the connecter. It has no centre afterwards that a cancel took away before. -/
theorem interestInv_update
    (hcentre : r.1.centre.isSome = true → s.round.cancelled = false)
    (hstep : s.round.cancelled = false → InterestIs queued r.1)
    (hfresh : s.round.cancelled = false → s.round.conn.centre = none → r.1.centre = none →
      phase = .idle ∧ r.1.ev.meets evIowrite = true) :
    InterestInv ⟨{ s.round.update r with phase := phase }, queued⟩ := by
  have hlive : (s.round.update r).cancelled = false → s.round.cancelled = false := by
    intro hc
    cases hr : r.1.centre with
    | none =>
      simp only [ConnRound.update, hr, Option.isNone_none, Bool.true_and, Bool.or_eq_false_iff] at hc
      exact hc.1
    | some i => exact hcentre (by simp [hr])
  refine ⟨fun hc => ?_, fun hc hnone => ?_, fun hc => hstep (hlive hc)⟩
  · simp only [ConnRound.update, Bool.and_eq_true, Option.isNone_iff_eq_none] at hc
    exact hc.1
  · have hnone : r.1.centre = none := hnone
    simp only [ConnRound.update, hnone, Option.isNone_none, Bool.true_and, Bool.or_eq_false_iff,
      Option.isSome_eq_false_iff, Option.isNone_iff_eq_none] at hc
    exact hfresh hc.1 hc.2 hnone

/-- In a handler the connecter is registered or was cancelled there. -/
theorem InterestInv.registered (h : InterestInv s) (hphase : s.round.phase ≠ .idle)
    (hc : s.round.cancelled = false) : s.round.conn.centre.isSome = true := by
  by_contra hnone
  exact hphase (h.fresh hc (Option.not_isSome_iff_eq_none.mp hnone)).1

theorem InterestInv.not_cancelled (h : InterestInv s) (hc : s.round.conn.centre.isSome = true) :
    s.round.cancelled = false := by
  cases hcancelled : s.round.cancelled with
  | false => rfl
  | true => simp [h.cancelled hcancelled] at hc

/-- A step of the loop that leaves the connecter as it is. -/
theorem InterestInv.move (h : InterestInv s)
    (hphase : s.round.phase = .idle → s.round.conn.centre = none → phase = .idle) :
    InterestInv ⟨{ s.round with phase := phase }, s.queued⟩ := by
  refine ⟨h.cancelled, fun hc hnone => ?_, h.interest⟩
  have hfresh := h.fresh hc hnone
  exact ⟨hphase hfresh.1 hnone, hfresh.2⟩

theorem InterestInv.endHandle (h : InterestInv s) (hphase : s.round.phase ≠ .idle) :
    InterestInv ⟨Connecter.endHandle s.round, s.queued⟩ := by
  apply interestInv_update (r := (s.round.conn.popCurEv, none))
  · exact h.not_cancelled
  · exact h.interest
  · intro hc hnone _
    exact absurd (h.fresh hc hnone).1 hphase

theorem InterestInv.runReadHalf {ev : EvMask} (h : InterestInv s) (hphase : s.round.phase = .readHalf ev)
    (unreadByte : ℤ) (recv : SocketResult (List UInt8)) :
    InterestInv ⟨Connecter.runReadHalf s.round unreadByte recv ev, s.queued⟩ := by
  have hactive : s.round.phase ≠ .idle := by simp [hphase]
  rw [Connecter.runReadHalf]
  cases ev.meets evIoread with
  | false => exact h.move fun hidle _ => absurd hidle hactive
  | true =>
    apply interestInv_update
    · exact fun hc => h.not_cancelled (handleRead_centre _ hc)
    · intro hc
      exact (h.interest hc).congr (handleRead_interest _ _ _) (handleRead_writeBuffer _ _ _)
    · intro hc hnone _
      exact absurd (h.fresh hc hnone).1 hactive

theorem InterestInv.runWriteHalf {ev : EvMask} (h : InterestInv s) (hphase : s.round.phase = .writeHalf ev)
    (send : SocketResult ℕ) : InterestInv ⟨Connecter.runWriteHalf s.round send ev, s.queued⟩ := by
  have hactive : s.round.phase ≠ .idle := by simp [hphase]
  rw [Connecter.runWriteHalf]
  cases ev.meets evIowrite with
  | false => exact h.endHandle hactive
  | true =>
    have hupdate (phase : HandlePhase) (cb : Option Callback) : InterestInv
        ⟨{ s.round.update ((s.round.conn.handleWrite send).1, cb) with phase := phase }, s.queued⟩ := by
      apply interestInv_update
      · exact fun hc => h.not_cancelled (handleWrite_centre _ hc)
      · exact fun hc => (h.interest hc).handleWrite (h.registered hactive hc) send
      · intro hc hnone _
        exact absurd (h.fresh hc hnone).1 hactive
    simp only [if_true]
    split_ifs
    · exact hupdate .writeCall (s.round.conn.handleWrite send).2
    · have hquiet := hupdate s.round.phase none
      exact hquiet.endHandle hactive

/-- Without a centre no call of the user changes the mask. -/
theorem userCall_ev {c d : Connecter} {call : UserCall} (hc : c.centre = none)
    (hcall : c.userCall call = some d) : d.ev = c.ev := by
  cases call with
  | write data room =>
    obtain rfl := Option.some.inj hcall
    simp only [writeBuf, hc]
    split_ifs <;> simp_all
  | register centre =>
    simp only [Connecter.userCall, Option.ite_none_right_eq_some, Option.some.injEq] at hcall
    obtain ⟨_, rfl⟩ := hcall
    rfl
  | _ =>
    obtain rfl := Option.some.inj hcall
    simp [enableEvent, disableEvent, updateEvent, cancelEvent, readBuf, hc]

/-- Only a registration gives a connecter a centre. -/
theorem userCall_centre {c d : Connecter} {call : UserCall} (hcall : c.userCall call = some d)
    (hd : d.centre.isSome = true) : (∃ centre, call = .register centre) ∨ c.centre.isSome = true := by
  cases call with
  | register centre => exact .inl ⟨centre, rfl⟩
  | cancel =>
    obtain rfl := Option.some.inj hcall
    simp at hd
  | write data room =>
    obtain rfl := Option.some.inj hcall
    apply Or.inr
    simp only [writeBuf] at hd
    split_ifs at hd <;> simpa [enableEvent] using hd
  | _ =>
    obtain rfl := Option.some.inj hcall
    exact .inr (by simpa [enableEvent, disableEvent, readBuf] using hd)

/-- What a call of the user leaves the run with. -/
theorem InterestInv.userCall {call : UserCall} {c : Connecter} (h : InterestInv s)
    (hok : interestOk s (.user call)) (hcall : s.round.conn.userCall call = some c) :
    InterestInv ⟨s.round.update (c, none), queuedAfter s (.user call)⟩ := by
  apply interestInv_update (r := (c, none))
  · intro hc
    rcases userCall_centre hcall hc with ⟨centre, rfl⟩ | hbefore
    · exact hok
    · exact h.not_cancelled hbefore
  · intro hc
    have hi := h.interest hc
    cases call with
    | register centre =>
      simp only [Connecter.userCall, Option.ite_none_right_eq_some, Option.some.injEq] at hcall
      obtain ⟨_, rfl⟩ := hcall
      exact hi
    | cancel =>
      obtain rfl := Option.some.inj hcall
      exact hi.congr (by simp) (by simp)
    | write data room =>
      obtain rfl := Option.some.inj hcall
      exact hi.writeBuf (fun hnone => (h.fresh hc hnone).2) data room
    | readBuffer size =>
      obtain rfl := Option.some.inj hcall
      exact hi
    | enable ev =>
      obtain rfl := Option.some.inj hcall
      exact hi.enableEvent ev
    | disable ev =>
      obtain rfl := Option.some.inj hcall
      have hev : ev.meets evIowrite = false := hok
      exact hi.congr (by rw [meets_disableEvent, hev]; simp) (by simp)
    | setCallbacks errcb readcb writecb =>
      obtain rfl := Option.some.inj hcall
      exact hi
  · intro hc hnone hleft
    obtain ⟨hidle, hbit⟩ := h.fresh hc hnone
    rw [userCall_ev hnone hcall]
    exact ⟨hidle, hbit⟩

/-- The step lemma. -/
theorem interestInv_step {op : RoundOp} (h : InterestInv s) (hok : interestOk s op)
    (ht : interestStep s op = some t) : InterestInv t := by
  obtain ⟨u, hu, rfl⟩ := Option.map_eq_some_iff.mp ht
  cases roundPass_of_step hu with
  | activate hphase hactive => exact ⟨h.cancelled, h.fresh, h.interest⟩
  | take hphase =>
    rw [Connecter.startHandle]
    split_ifs with hfront hnone
    · exact h
    · exact h
    · exact h.move fun _ hc => absurd hc (by simpa using hnone)
  | @readHalf ev unreadByte recv hp => exact h.runReadHalf hp unreadByte recv
  | @writeHalf ev send hp hfits => exact h.runWriteHalf hp send
  | user hcode hcall => exact h.userCall hok hcall
  | retRead hp => exact h.move fun hidle _ => by simp [hp] at hidle
  | retWrite hp => exact h.endHandle (by simp [hp])

end Run

theorem InterestIs.exact_iff {queued : Bool} {c : Connecter} (h : InterestIs queued c) :
    c.InterestExact ↔ queued = true := by
  cases queued with
  | true => exact iff_of_true h rfl
  | false => exact iff_of_false (fun hexact => hexact.mp h.1 h.2) (by simp)

/-- In every state of such a run, after each `HandleWrite` and elsewhere, the write interest of a registered
connecter follows its write buffer if and only if data has been queued since the constructor and since the
last `EnableEvent` that set `EV_IOWRITE` on an empty buffer. -/
theorem write_interest_iff {ops : List RoundOp} {s : InterestRun}
    (hg : Guarded interestStep interestOk .start ops) (hs : exec interestStep .start ops = some s)
    (hc : s.round.conn.centre.isSome = true) :
    (s.round.conn.ev.meets evIowrite = true ↔ s.round.conn.writeBuffer ≠ []) ↔ s.queued = true := by
  have h : InterestInv s := invariant_of_guarded (fun _ _ _ => interestInv_step) interestInv_start hg hs
  exact (h.interest (h.not_cancelled hc)).exact_iff

/-- A short send, a try-again error and data that the write callback queues. -/
def interestSample : List RoundOp :=
  [.user (.register 1), .user (.setCallbacks true true true), .user (.write [1, 2, 3] true),
    .activate evIowrite, .take, .readHalf 0 (.done []), .writeHalf (.done 2), .ret,
    .activate evIowrite, .take, .readHalf 0 (.done []), .writeHalf (.failed eagain),
    .user (.write [4] true), .ret, .activate evIowrite, .take, .readHalf 0 (.done []), .writeHalf (.done 1)]

def interestSampleEnd : InterestRun := (exec interestStep .start interestSample).get (by decide +kernel)

theorem write_interest_iff_sample : (interestSampleEnd.round.conn.ev.meets evIowrite = true ↔
    interestSampleEnd.round.conn.writeBuffer ≠ []) ↔ interestSampleEnd.queued = true :=
  write_interest_iff (show Guarded interestStep interestOk .start interestSample by decide +kernel)
    (Option.some_get _).symm (by decide +kernel)

/-- The first write activation of a connecter with nothing to send leaves `EV_IOWRITE` in the mask. -/
theorem not_write_interest : ¬ ∀ (ops : List RoundOp) (send : SocketResult ℕ) (s t : InterestRun) (ev : EvMask),
    Guarded interestStep interestOk .start ops → exec interestStep .start ops = some s →
    s.round.phase = .writeHalf ev → ev.meets evIowrite = true →
    interestStep s (.writeHalf send) = some t → t.round.phase = .idle →
    t.round.conn.centre.isSome = true →
    (t.round.conn.ev.meets evIowrite = true ↔ t.round.conn.writeBuffer ≠ []) := by
  intro h
  have hrun := h [.user (.register 1), .activate evIowrite, .take, .readHalf 0 (.done [])] (.done 0) _ _
    evIowrite (by decide +kernel) (Option.some_get (by decide +kernel)).symm (by decide +kernel)
    (by decide) (Option.some_get (by decide +kernel)).symm (by decide +kernel) (by decide +kernel)
  revert hrun
  decide +kernel

end Chaos.Connecter
