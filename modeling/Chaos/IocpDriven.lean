import Chaos.ConnecterInterest
import Chaos.IocpSend

/-!
# What is queued gets sent on a completion port

Data in the write buffer of a connecter that is registered, connected and has `EV_IOWRITE` in its mask is behind a
posted `WSASend`, or an activation or the rest of a call will post one. This goes on as long as no posting and no packet
of a `WSASend` fails while there is a callback for errors, after which nobody posts the rest.
-/
namespace Chaos.IocpConnecter

open GuardedRuns OverlappedIo SendIo

variable {s t : IocpConnecter} {op : IocpOp} {recv : Bool}

/-- The activations behind the one that is being handled. -/
def pendingEv (s : IocpConnecter) : List EvMask :=
  if .popCurEv ∈ s.frames then s.conn.curEv.tail else s.conn.curEv

/-- Something is queued that could be sent, and no `WSASend` is in flight. -/
structure Waits (s : IocpConnecter) : Prop where
  centre : s.conn.centre.isSome = true
  connected : s.connected = true
  ev : s.conn.ev.meets evIowrite = true
  queue : s.conn.writeBuffer ≠ []
  idle : (s.overlapped .write).isPost = false

/-- An activation or the rest of a call comes to `AsynWrite`. -/
def Due (s : IocpConnecter) : Prop :=
  .asynWrite ∈ s.frames ∨ .enableWrite ∈ s.frames ∨ ∃ ev ∈ s.pendingEv, ev.meets evIowrite = true

/-- `PopCurEv` is the last thing that `Handle` does, and its activation is still there. -/
structure Framed (s : IocpConnecter) : Prop where
  last : .popCurEv ∉ s.frames.dropLast
  cur : .popCurEv ∈ s.frames → s.conn.curEv ≠ []

structure Driven (s : IocpConnecter) : Prop where
  framed : Framed s
  due : Waits s → Due s

/-- Nothing is queued or enabled, and nothing is taken from the activations. -/
structure Extends (s t : IocpConnecter) : Prop where
  waits : Waits t → Waits s
  frames : t.frames = s.frames
  curEv : s.conn.curEv <+: t.conn.curEv

namespace Extends
variable {u : IocpConnecter}

theorem refl (s : IocpConnecter) : Extends s s := ⟨id, rfl, List.prefix_rfl⟩

theorem trans (h : Extends s t) (h' : Extends t u) : Extends s u :=
  ⟨fun hu => h.waits (h'.waits hu), h'.frames.trans h.frames, h.curEv.trans h'.curEv⟩

/-- Only the read side of the connecter changes. -/
theorem of_conn (hconn : t.conn = s.conn) (hconnected : t.connected = s.connected)
    (hwrite : (t.overlapped .write).isPost = (s.overlapped .write).isPost) (hframes : t.frames = s.frames) :
    Extends s t := by
  refine ⟨fun h => ?_, hframes, hconn ▸ List.prefix_rfl⟩
  exact ⟨hconn ▸ h.centre, hconnected ▸ h.connected, hconn ▸ h.ev, hconn ▸ h.queue, hwrite ▸ h.idle⟩

end Extends

theorem extends_pushEvent (ev : EvMask) : Extends s (s.pushEvent ev) := by
  unfold pushEvent
  split
  · exact ⟨fun h => ⟨h.centre, h.connected, h.ev, h.queue, h.idle⟩, rfl, List.prefix_append _ _⟩
  · exact .refl s

theorem extends_cancel : Extends s { s with conn := s.conn.cancelEvent } := by
  refine ⟨fun h => absurd h.centre (by simp), rfl, ?_⟩
  unfold Connecter.cancelEvent
  split
  · dsimp only
    split
    · exact List.prefix_append _ _
    · exact List.prefix_rfl
  · exact List.prefix_rfl

theorem extends_callErr : Extends s s.callErr := by
  unfold callErr Connecter.callErr
  split
  · exact .refl s
  · exact extends_cancel

theorem extends_readComplete (data : List UInt8) (bOk : Bool) : Extends s (s.readComplete data bOk) := by
  unfold readComplete
  split
  · exact .of_conn rfl rfl (by simp [delete]) rfl
  · have hpost : Extends s (s.setPost .read false) := .of_conn rfl rfl (by simp [setPost]) rfl
    cases bOk with
    | false => exact hpost.trans extends_callErr
    | true =>
      simp only [Bool.not_true, Bool.false_eq_true, if_false]
      have hread (t : IocpConnecter) : Extends t { t with
          conn := { t.conn with readBuffer := t.conn.readBuffer ++ data } } :=
        ⟨fun h => ⟨h.centre, h.connected, h.ev, h.queue, h.idle⟩, rfl, List.prefix_rfl⟩
      split
      · exact hpost.trans (hread _)
      · exact (hpost.trans (hread _)).trans (extends_pushEvent _)

theorem extends_asynRead : Extends s (s.asynRead recv) := by
  unfold asynRead
  split
  · exact .refl s
  · split
    · exact .refl s
    · split
      · exact extends_readComplete _ _
      · exact .of_conn rfl rfl (by simp [setPost, post]) rfl

theorem extends_startRead : Extends s (s.startRead recv) := by
  unfold startRead
  split
  · exact extends_asynRead
  · exact .refl s

theorem extends_of_ev {c : Connecter} (hcentre : c.centre = s.conn.centre) (hcur : c.curEv = s.conn.curEv)
    (hqueue : c.writeBuffer = s.conn.writeBuffer)
    (hev : c.ev.meets evIowrite = true → s.conn.ev.meets evIowrite = true) : Extends s { s with conn := c } := by
  refine ⟨fun h => ?_, rfl, hcur ▸ List.prefix_rfl⟩
  exact ⟨hcentre ▸ h.centre, h.connected, hev h.ev, hqueue ▸ h.queue, h.idle⟩

/-! ## The steps keep it going -/

theorem Framed.extends (h : Framed s) (he : Extends s t) : Framed t := by
  refine ⟨by rw [he.frames]; exact h.last, fun hmem hnil => ?_⟩
  rw [he.frames] at hmem
  have := he.curEv
  rw [hnil, List.prefix_nil] at this
  exact h.cur hmem this

theorem Framed.push {f : IocpFrame} (h : Framed s) (hf : f ≠ .popCurEv) : Framed (s.push f) := by
  constructor
  · unfold IocpConnecter.push
    cases hframes : s.frames with
    | nil => exact List.not_mem_nil
    | cons g gs =>
      have hlast := h.last
      rw [hframes] at hlast
      rw [List.dropLast_cons_of_ne_nil (List.cons_ne_nil _ _)]
      exact List.not_mem_cons_of_ne_of_not_mem (Ne.symm hf) hlast
  · intro hmem
    cases List.mem_cons.mp hmem with
    | inl heq => exact absurd heq.symm hf
    | inr hmem => exact h.cur hmem

theorem Driven.extends (h : Driven s) (he : Extends s t) : Driven t := by
  refine ⟨h.framed.extends he, fun ht => ?_⟩
  unfold Due pendingEv
  rw [he.frames]
  refine (h.due (he.waits ht)).imp_right (Or.imp_right ?_)
  unfold pendingEv
  rintro ⟨ev, hmem, hev⟩
  refine ⟨ev, ?_, hev⟩
  obtain ⟨rest, hrest⟩ := he.curEv
  rw [← hrest]
  split at hmem
  · next hpop =>
    rw [if_pos hpop, List.tail_append_of_ne_nil (h.framed.cur hpop)]
    exact List.mem_append_left _ hmem
  · next hpop =>
    rw [if_neg hpop]
    exact List.mem_append_left _ hmem

theorem Driven.push (h : Framed s) : Driven (s.push .enableWrite) :=
  ⟨h.push (by decide), fun _ => .inr (.inl List.mem_cons_self)⟩

theorem curEv_enableEvent (c : Connecter) (ev : EvMask) : (c.enableEvent ev).curEv = c.curEv := by
  simp only [Connecter.enableEvent, Connecter.updateEvent]
  split <;> rfl

theorem Framed.of_frames (h : Framed s) (hframes : t.frames = s.frames) (hcur : t.conn.curEv = s.conn.curEv) : Framed t :=
  ⟨hframes ▸ h.last, fun hmem => hcur ▸ h.cur (hframes ▸ hmem)⟩

/-- A call of `EnableEvent` with `EV_IOWRITE` comes to `AsynWrite`. -/
theorem Framed.driven_enableEvent {ev : EvMask} (h : Framed s) (hev : ev.meets evIowrite = true) :
    Driven (s.enableEvent ev recv) := by
  have hconn : Framed { s with conn := s.conn.enableEvent ev } :=
    h.of_frames rfl (curEv_enableEvent _ _)
  unfold enableEvent
  dsimp only
  rw [if_pos hev]
  split
  · exact .push (hconn.extends extends_startRead)
  · exact .push hconn

theorem Driven.enableEvent (h : Driven s) (ev : EvMask) : Driven (s.enableEvent ev recv) := by
  cases hev : ev.meets evIowrite with
  | true => exact h.framed.driven_enableEvent hev
  | false =>
    have hconn : Extends s { s with conn := s.conn.enableEvent ev } := by
      refine extends_of_ev ?_ ?_ (by simp) ?_
      · exact Connecter.updateEvent_centre _ _ _
      · exact curEv_enableEvent _ _
      · rw [Connecter.meets_enableEvent, hev, Bool.and_false, Bool.false_or]
        exact id
    unfold IocpConnecter.enableEvent
    dsimp only
    rw [if_neg (by rw [hev]; decide)]
    split
    · exact h.extends (hconn.trans extends_startRead)
    · exact h.extends hconn

theorem Driven.registerEvent (h : Driven s) (centre : ℕ) (regist : Bool) :
    Driven (s.registerEvent centre regist recv) := by
  unfold IocpConnecter.registerEvent
  split
  · have hconn : Framed { s with conn := { s.conn with centre := some centre } } := h.framed.of_frames rfl rfl
    exact .push (hconn.extends extends_startRead)
  · exact h

theorem Driven.writeBuffer (h : Driven s) (data : List UInt8) (room : Bool) : Driven (s.writeBuffer data room) := by
  unfold IocpConnecter.writeBuffer
  cases room with
  | false => exact h
  | true =>
    simp only [if_true, not_true_eq_false, false_or]
    split
    · next hnil =>
      subst hnil
      exact h.extends ⟨fun ht => ⟨ht.centre, ht.connected, ht.ev, by simpa using ht.queue, ht.idle⟩, rfl,
        List.prefix_rfl⟩
    · split
      · next hnone =>
        refine ⟨h.framed.of_frames rfl rfl, fun ht => ?_⟩
        have hsome : s.conn.centre.isSome = true := ht.centre
        rw [Option.isNone_iff_eq_none] at hnone
        simp [hnone] at hsome
      · have hqueued : Framed { s with
            conn := { s.conn with writeBuffer := s.conn.writeBuffer ++ data }, written := s.written ++ data } :=
          h.framed.of_frames rfl rfl
        exact hqueued.driven_enableEvent (by decide)

theorem Driven.connectDone (h : Driven s) (ok : Bool) : Driven (s.connectDone ok recv) := by
  unfold IocpConnecter.connectDone
  split
  · have hframed : Framed { s with connected := true } := h.framed.of_frames rfl rfl
    exact hframed.driven_enableEvent (by decide)
  · exact h

theorem Driven.connectComplete (h : Driven s) (bOk : Bool) : Driven (s.connectComplete bOk recv) := by
  unfold IocpConnecter.connectComplete
  split
  · exact h.extends (.of_conn rfl rfl (by simp [delete]) rfl)
  · have hpost : Extends s (s.setPost .connect false) := .of_conn rfl rfl (by simp [setPost]) rfl
    exact (h.extends hpost).connectDone bOk

theorem Driven.asyncConnect (h : Driven s) (bind : Bool) (ret : ConnectExResult) : Driven (s.asyncConnect bind ret) := by
  unfold IocpConnecter.asyncConnect
  split
  · exact h
  · split
    · exact h
    · cases ret with
      | failed => exact h
      | pending => exact h.extends (.of_conn rfl rfl rfl rfl)
      | done pending =>
        have hpost : Driven (s.post .connect [] (some ([], true))) := h.extends (.of_conn rfl rfl rfl rfl)
        cases pending with
        | true => exact hpost.extends (.of_conn rfl rfl (by simp [setPost]) rfl)
        | false => exact hpost.connectComplete false

theorem Driven.call (h : Driven s) (c : IocpCall) : Driven (s.call c) := by
  cases c with
  | register centre regist recv => exact h.registerEvent centre regist
  | cancel => exact h.extends extends_cancel
  | setErrCallback errcb =>
    exact h.extends ⟨fun ht => ⟨ht.centre, ht.connected, ht.ev, ht.queue, ht.idle⟩, rfl, List.prefix_rfl⟩
  | write data room => exact h.writeBuffer data room
  | read size => exact h.extends ⟨fun ht => ⟨ht.centre, ht.connected, ht.ev, ht.queue, ht.idle⟩, rfl, List.prefix_rfl⟩
  | enable ev recv => exact h.enableEvent ev
  | disable ev =>
    apply h.extends
    refine extends_of_ev (Connecter.updateEvent_centre _ _ _) ?_ (by simp) ?_
    · simp only [Connecter.disableEvent, Connecter.updateEvent]
      split <;> rfl
    · rw [Connecter.meets_disableEvent, Bool.and_eq_true]
      exact And.right
  | connect ok recv => exact h.connectDone ok
  | asyncConnect bind ret => exact h.asyncConnect bind ret

/-- The activation that is handled goes over into the write half of `Handle`. -/
theorem Driven.handle {ev : EvMask} {evs : List EvMask} (h : Driven s) (hframes : s.frames = [])
    (hcur : s.conn.curEv = ev :: evs) : Driven (s.handle ev recv) := by
  unfold IocpConnecter.handle
  split
  · exact h
  · dsimp only
    have hread : Extends s (if ev.meets evIoread then s.asynRead recv else s) := by
      split
      · exact extends_asynRead
      · exact .refl s
    generalize (if ev.meets evIoread then s.asynRead recv else s) = u at hread
    obtain ⟨rest, hrest⟩ := hread.curEv
    rw [hcur] at hrest
    constructor
    · constructor
      · cases ev.meets evIowrite <;> simp
      · intro _ hnil
        rw [hnil] at hrest
        cases hrest
    · intro ht
      have hs : Waits s := hread.waits ⟨ht.centre, ht.connected, ht.ev, ht.queue, ht.idle⟩
      have hdue := h.due hs
      simp only [Due, hframes, List.not_mem_nil, false_or, pendingEv, if_false, hcur, List.exists_mem_cons_iff] at hdue
      cases hev : ev.meets evIowrite with
      | true => exact .inl (by simp)
      | false =>
        rw [hev] at hdue
        obtain ⟨e, hmem, he⟩ := hdue.resolve_left (by decide)
        refine .inr (.inr ⟨e, ?_, he⟩)
        simp only [pendingEv, Bool.false_eq_true, if_false, List.mem_singleton, if_true, ← hrest, List.cons_append,
          List.tail_cons]
        exact List.mem_append_left _ hmem

/-! ## Steps that send -/

/-- A `WSASend` fails, at once or with its packet. -/
def failsSend (s : IocpConnecter) : IocpOp → Bool
  | .resume none => s.frames.head? != some .popCurEv
  | .complete k _ => match s.posted[k]? with
    | some ⟨.write, _, some (_, false)⟩ => true
    | _ => false
  | _ => false

/-- None fails while there is a callback for errors. -/
def SendsOk (s : IocpConnecter) (op : IocpOp) : Prop := s.failsSend op = true → s.conn.errcb = false

instance (s : IocpConnecter) (op : IocpOp) : Decidable (SendsOk s op) := inferInstanceAs (Decidable (_ → _))

/-- Without a callback an error cancels the event. -/
theorem not_waits_callErr (h : s.conn.errcb = false) : ¬ Waits s.callErr := by
  intro hw
  have := hw.centre
  simp [callErr, Connecter.callErr, h] at this

theorem Framed.setPost {k : OverlappedKind} (h : Framed s) (isPost : Bool) : Framed (s.setPost k isPost) :=
  h.of_frames rfl rfl

theorem due_pushEvent (hpop : .popCurEv ∉ s.frames) (hw : Waits s) : Due (s.pushEvent evIowrite) := by
  have hpush : s.pushEvent evIowrite = { s with conn := { s.conn with curEv := s.conn.curEv ++ [evIowrite] } } :=
    if_pos ⟨hw.centre, hw.ev⟩
  rw [hpush]
  refine .inr (.inr ⟨evIowrite, ?_, by decide⟩)
  rw [pendingEv, if_neg hpop]
  exact List.mem_append_right _ (List.mem_singleton_self _)

/-- What is left in the queue after a packet is pushed on, unless the packet failed. -/
theorem Framed.driven_writeComplete {bytes : ℕ} {bOk : Bool} (h : Framed s) (hpop : .popCurEv ∉ s.frames ∨ bOk = false)
    (hlive : (s.overlapped .write).eventDestroy = false) (hok : bOk = false → s.conn.errcb = false) :
    Driven (s.writeComplete bytes bOk) := by
  unfold writeComplete
  rw [if_neg (by rw [hlive]; decide)]
  cases bOk with
  | false =>
    have hnot : ¬ Waits (s.setPost .write false).callErr := not_waits_callErr (hok rfl)
    exact ⟨(h.setPost false).extends extends_callErr, fun hw => absurd hw hnot⟩
  | true =>
    have hpop : .popCurEv ∉ s.frames := hpop.resolve_right (by decide)
    have hdropped : Framed { s.setPost .write false with
      conn := { s.conn with writeBuffer := s.conn.writeBuffer.drop bytes } } := h.of_frames rfl rfl
    simp only [Bool.not_true, Bool.false_eq_true, if_false]
    split
    · next hempty => exact ⟨hdropped, fun hw => absurd hempty hw.queue⟩
    · refine ⟨hdropped.extends (extends_pushEvent _), fun hw => ?_⟩
      have hs := (extends_pushEvent _).waits hw
      exact due_pushEvent hpop hs

theorem Framed.driven_asynWrite (h : Framed s) (hlive : (s.overlapped .write).eventDestroy = false) {send : Option ℕ}
    (hsend : send = none → s.conn.errcb = false) : Driven (s.asynWrite send) := by
  unfold asynWrite
  split
  · next hpost => exact ⟨h, fun hw => absurd hw.idle (by simp [hpost])⟩
  · split
    · next hempty => exact ⟨h, fun hw => absurd hempty hw.queue⟩
    · split
      · next hev => exact ⟨h, fun hw => absurd hw.ev (by simpa using hev)⟩
      · cases send with
        | none => exact h.driven_writeComplete (.inr rfl) hlive fun _ => hsend rfl
        | some covered =>
          have hframed : Framed ((s.post .write ((s.conn.writeBuffer.take maxSingleWriteDefault).take covered)
            none).setPost .write true) := h.of_frames rfl rfl
          exact ⟨hframed, fun hw => absurd hw.idle (by simp [IocpConnecter.setPost])⟩

theorem Framed.tail {f : IocpFrame} {frames : List IocpFrame} (h : Framed s) (hframes : s.frames = f :: frames) :
    Framed { s with frames := frames } := by
  constructor
  · intro hmem
    apply h.last
    rw [hframes]
    cases frames with
    | nil => cases hmem
    | cons g gs => exact List.mem_cons_of_mem _ hmem
  · intro hmem
    exact h.cur (hframes ▸ List.mem_cons_of_mem _ hmem)

theorem Driven.resume {f : IocpFrame} {frames : List IocpFrame} (h : Driven s) (hframes : s.frames = f :: frames)
    (hlive : (s.overlapped .write).eventDestroy = false) {send : Option ℕ}
    (hsend : f ≠ .popCurEv → send = none → s.conn.errcb = false) : Driven ({ s with frames := frames }.resume send f) := by
  have hframed := h.framed.tail hframes
  cases f with
  | asynWrite => exact hframed.driven_asynWrite hlive (hsend (by decide))
  | enableWrite =>
    show Driven (IocpConnecter.startWrite { s with frames := frames } send)
    unfold startWrite
    split
    · exact hframed.driven_asynWrite hlive (hsend (by decide))
    · next hnot => exact ⟨hframed, fun hw => absurd ⟨by simpa using hw.idle, hw.connected⟩ hnot⟩
  | popCurEv =>
    -- `PopCurEv` is the bottom of the stack
    have hbottom : frames = [] := by
      by_contra hne
      have hlast := h.framed.last
      rw [hframes, List.dropLast_cons_of_ne_nil hne] at hlast
      exact hlast List.mem_cons_self
    subst hbottom
    refine ⟨⟨List.not_mem_nil, fun hmem => by cases hmem⟩, fun hw => ?_⟩
    have hdue := h.due ⟨hw.centre, hw.connected, hw.ev, hw.queue, hw.idle⟩
    simpa [Due, pendingEv, hframes, IocpConnecter.resume, Connecter.popCurEv] using hdue

theorem Driven.complete {k : ℕ} {p : PostedIo} {data : List UInt8} {bOk : Bool} (h : Driven s) (hframes : s.frames = [])
    (hlive : (s.overlapped .write).eventDestroy = false)
    (hok : p.kind = .write → bOk = false → s.conn.errcb = false) : Driven ((s.unpost k).complete p data bOk recv) := by
  have hunpost : Driven (s.unpost k) := h.extends (.of_conn rfl rfl rfl rfl)
  unfold IocpConnecter.complete
  cases hkind : p.kind with
  | read => exact hunpost.extends (extends_readComplete _ _)
  | connect => exact hunpost.connectComplete bOk
  | write =>
    apply hunpost.framed.driven_writeComplete (.inl ?_) hlive (hok hkind)
    have hnil : (s.unpost k).frames = [] := hframes
    rw [hnil]
    exact List.not_mem_nil

theorem driven_pass (hclosed : Closed s) (h : Driven s) (hok : SendsOk s op) (hpass : Pass s op t)
    (halive : t.alive = true) : Driven t := by
  have hlive (hop : op ≠ .destroy) : (s.overlapped .write).eventDestroy = false := by
    apply hclosed.not_eventDestroy
    rwa [(eventDestroy_pass hclosed hpass hop .read).2] at halive
  cases hpass with
  | call _ c => exact h.call c
  | handle _ hframes _ hcur recv => exact h.handle hframes hcur
  | resume hframes send =>
    apply h.resume hframes (hlive (by simp))
    rintro hf rfl
    apply hok
    simpa [failsSend, hframes] using hf
  | kernel => exact h.extends (.of_conn rfl rfl rfl rfl)
  | complete hframes hp recv =>
    apply h.complete hframes (hlive (by simp))
    rintro rfl rfl
    apply hok
    simp [failsSend, hp]
  | destroy => cases halive

/-! ## Runs -/

/-- Nothing brings a connecter back. -/
theorem alive_of_pass (h : Closed s) (hpass : Pass s op t) (halive : t.alive = true) : s.alive = true := by
  by_cases hop : op = .destroy
  · subst hop
    cases hpass
    cases halive
  · rwa [(eventDestroy_pass h hpass hop .read).2] at halive

/-- What holds along every run of a living connecter. -/
structure SendInv (s : IocpConnecter) : Prop where
  closed : Closed s
  write : (s.io .write).Tracked
  inOrder : s.alive = true → s.sendIo.InOrder

theorem sendInv_pass (h : SendInv s) (hpass : Pass s op t) : SendInv t := by
  refine ⟨closed_pass h.closed hpass, tracked_pass h.closed (by decide) h.write hpass, fun halive => ?_⟩
  have hstep := sendIo_pass h.closed h.write hpass halive
  exact (h.inOrder (alive_of_pass h.closed hpass halive)).step hstep

theorem sendInv_new (connected : Bool) : SendInv (new connected) :=
  ⟨closed_new connected, tracked_new connected .write, fun _ => .inl ⟨rfl, rfl⟩⟩

theorem driven_new (connected : Bool) : Driven (new connected) :=
  ⟨⟨List.not_mem_nil, fun hmem => by cases hmem⟩, fun hw => absurd rfl hw.queue⟩

theorem driven_of_guarded {connected : Bool} {ops : List IocpOp} (h : exec step (new connected) ops = some s)
    (hok : Guarded step SendsOk (new connected) ops) (halive : s.alive = true) : Driven s := by
  have hinv : SendInv s ∧ (s.alive = true → Driven s) := by
    apply @invariant_of_guarded _ _ step SendsOk (fun s => SendInv s ∧ (s.alive = true → Driven s)) _ _ _ _ _ hok h
    · intro s op t hs hop hstep
      have hpass := pass_of_step hstep
      refine ⟨sendInv_pass hs.1 hpass, fun ht => ?_⟩
      exact driven_pass hs.1.closed (hs.2 (alive_of_pass hs.1.closed hpass ht)) hop hpass ht
    · exact ⟨sendInv_new connected, fun _ => driven_new connected⟩
  exact hinv.2 halive

/-- Nothing is under way: no call, no activation and no `WSASend`. -/
structure Quiet (s : IocpConnecter) : Prop where
  frames : s.frames = []
  curEv : s.conn.curEv = []
  write : s.inFlight .write = 0

/-- Two pieces of data, the second one while the first is sent. -/
def writeTwice : List IocpOp :=
  [.call (.register 0 true true), .resume none, .call (.write [1, 2] true), .resume (some 2),
    .call (.write [3] true), .resume none, .kernel 1 [1, 2] true, .complete 1 true, .handle true,
    .resume (some 1), .resume none, .kernel 1 [3] true, .complete 1 true]

theorem writeTwice_isSome : (exec step (new true) writeTwice).isSome = true := by decide

def afterWriteTwice : IocpConnecter := (exec step (new true) writeTwice).get writeTwice_isSome

end Chaos.IocpConnecter
