import Chaos.Connecter
import Chaos.EdgeQueues
import Chaos.Epoll
import Chaos.GuardedRuns

/-!
# The handlers behind an edge-triggered poller

`Listener::Handle` and `Connecter::HandleRead` of `net/Event.cpp` on the epoll backend, which registers with
`EPOLLET`, with the kernel's queue of connections and of bytes. Connections and bytes arrive at any time, the
handler goes through its calls one at a time, and a report covers what waits when `epoll_wait` returns.
-/
namespace Chaos.EdgeHandlers

open GuardedRuns EdgeQueues Connecter

/-! ## The listener -/

def econnaborted : ℕ := 103

/-- What `Accept` returns, with `errno` for -1. -/
inductive AcceptResult where
  | accepted (fd : ℕ)
  | failed (errno : ℕ)
  deriving DecidableEq, Repr

/-- `EAGAIN` is for an empty queue only. -/
def acceptFits (waiting : List ℕ) : AcceptResult → Prop
  | .accepted fd => waiting.head? = some fd
  | .failed e => (e = eagain → waiting = []) ∧ (e = econnaborted → waiting ≠ [])

/-- An aborted connection leaves the queue too. -/
def acceptTakes : AcceptResult → ℕ
  | .accepted _ => 1
  | .failed e => if e = econnaborted then 1 else 0

inductive ListenPhase where
  | idle
  | reported
  | handling
  deriving DecidableEq, Repr

/-- `accepted` is what `DoneAccept` was called with. A return of `Handle` that leaves covered connections
to a registered listener is noted in `stranded`. -/
structure ListenerRun where
  queue : EdgeQueue ℕ
  phase : ListenPhase
  registered : Bool
  accepted : List ℕ
  stranded : Bool

inductive ListenerOp where
  | arrive (fds : List ℕ)
  | report
  | handle
  | accept (r : AcceptResult)
  | cancel

def ListenerRun.start (backlog : List ℕ) : ListenerRun := ⟨.start backlog, .idle, true, [], false⟩

instance (waiting : List ℕ) (r : AcceptResult) : Decidable (acceptFits waiting r) := by
  cases r <;> unfold acceptFits <;> infer_instance

/-- A pass of the loop of `Listener::Handle`, which breaks at any error. -/
def acceptPass (s : ListenerRun) (r : AcceptResult) : ListenerRun :=
  let s := { s with queue := s.queue.take (acceptTakes r) }
  match r with
  | .accepted fd => { s with accepted := s.accepted ++ [fd] }
  | .failed _ =>
    { s with phase := .idle, stranded := s.stranded || (s.registered && !decide s.queue.Settled) }

def listenerStep (s : ListenerRun) : ListenerOp → Option ListenerRun
  | .arrive fds => some { s with queue := s.queue.arrive fds }
  | .report =>
    if s.phase = .idle ∧ s.registered = true ∧ s.queue.edge = true then
      some { s with queue := s.queue.report, phase := .reported }
    else none
  | .handle =>
    if s.phase = .reported then some { s with phase := if s.registered then .handling else .idle } else none
  | .accept r =>
    if s.phase = .handling ∧ acceptFits s.queue.waiting r then some (acceptPass s r) else none
  | .cancel => some { s with registered := false }

/-- The call that fails does so with `EAGAIN`, or with no covered connection left. -/
def listenerOk (s : ListenerRun) : ListenerOp → Prop
  | .accept (.failed e) => s.registered = true →
      e = eagain ∨ s.queue.covered.length ≤ acceptTakes (.failed e)
  | _ => True

instance (s : ListenerRun) (op : ListenerOp) : Decidable (listenerOk s op) := by
  unfold listenerOk
  split <;> infer_instance

/-- The listener does not arm its descriptor again. Between two calls of `Handle` its report is done with,
unless a return has been noted. -/
structure ListenerInv (s : ListenerRun) : Prop where
  rearmed : s.queue.rearmed = false
  settled : s.stranded = false → s.phase = .idle → s.registered = true → s.queue.Settled

theorem listenerInv_start (backlog : List ℕ) : ListenerInv (.start backlog) :=
  ⟨rfl, fun _ _ _ => EdgeQueue.settled_start backlog⟩

theorem listenerInv_step {s t : ListenerRun} {op : ListenerOp} (h : ListenerInv s)
    (ht : listenerStep s op = some t) : ListenerInv t := by
  cases op with
  | arrive fds =>
    obtain rfl := Option.some.inj ht
    exact ⟨h.rearmed, h.settled⟩
  | report =>
    simp only [listenerStep, Option.ite_none_right_eq_some, Option.some.injEq] at ht
    obtain ⟨_, rfl⟩ := ht
    exact ⟨rfl, fun _ hidle => by cases hidle⟩
  | handle =>
    simp only [listenerStep, Option.ite_none_right_eq_some, Option.some.injEq] at ht
    obtain ⟨_, rfl⟩ := ht
    refine ⟨h.rearmed, fun _ hidle hreg => ?_⟩
    simp [show s.registered = true from hreg] at hidle
  | accept r =>
    simp only [listenerStep, Option.ite_none_right_eq_some, Option.some.injEq] at ht
    obtain ⟨⟨hphase, _⟩, rfl⟩ := ht
    cases r with
    | accepted fd =>
      refine ⟨h.rearmed, fun _ hidle => ?_⟩
      have hidle : s.phase = .idle := hidle
      rw [hphase] at hidle
      cases hidle
    | failed e =>
      refine ⟨h.rearmed, fun hstranded _ hreg => ?_⟩
      have hreg : s.registered = true := hreg
      simp only [acceptPass, Bool.or_eq_false_iff, hreg, Bool.true_and, Bool.not_eq_false',
        decide_eq_true_eq] at hstranded
      exact hstranded.2
  | cancel =>
    obtain rfl := Option.some.inj ht
    exact ⟨h.rearmed, fun _ _ hreg => by cases hreg⟩

/-- The step lemma of the listener: a return strands connections just when it does not meet `listenerOk`. -/
theorem listenerStep_stranded {s t : ListenerRun} {op : ListenerOp} (h : ListenerInv s)
    (ht : listenerStep s op = some t) :
    ListenerInv t ∧ (t.stranded = false ↔ s.stranded = false ∧ listenerOk s op) := by
  refine ⟨listenerInv_step h ht, ?_⟩
  cases op with
  | accept r =>
    simp only [listenerStep, Option.ite_none_right_eq_some, Option.some.injEq] at ht
    obtain ⟨⟨_, hfits⟩, rfl⟩ := ht
    cases r with
    | accepted fd => exact (and_iff_left trivial).symm
    | failed e =>
      have hempty : e = eagain → s.queue.covered.length ≤ acceptTakes (.failed e) := by
        intro he
        have hcovered : s.queue.covered = [] := (List.append_eq_nil_iff.mp (hfits.1 he)).1
        rw [hcovered]
        exact Nat.zero_le _
      have hok : listenerOk s (.accept (.failed e)) ↔
          (s.registered = true → (s.queue.take (acceptTakes (.failed e))).Settled) := by
        rw [listenerOk, or_iff_right_of_imp hempty, s.queue.settled_take_iff h.rearmed]
      rw [hok]
      simp only [acceptPass, Bool.or_eq_false_iff]
      cases s.registered <;> simp
  | arrive fds =>
    obtain rfl := Option.some.inj ht
    exact (and_iff_left trivial).symm
  | report =>
    simp only [listenerStep, Option.ite_none_right_eq_some, Option.some.injEq] at ht
    obtain ⟨_, rfl⟩ := ht
    exact (and_iff_left trivial).symm
  | handle =>
    simp only [listenerStep, Option.ite_none_right_eq_some, Option.some.injEq] at ht
    obtain ⟨_, rfl⟩ := ht
    exact (and_iff_left trivial).symm
  | cancel =>
    obtain rfl := Option.some.inj ht
    exact (and_iff_left trivial).symm

/-! ## The connecter -/

/-- In `sized` the handler has asked for the unread bytes. -/
inductive ReadPhase where
  | idle
  | reported
  | handling
  | sized (unreadByte : ℤ)
  deriving DecidableEq, Repr

/-- A return of the handler that leaves covered bytes to a registered connecter without arming its descriptor
again is noted in `stranded`. -/
structure ReadRun where
  conn : Connecter
  queue : EdgeQueue UInt8
  phase : ReadPhase
  stranded : Bool

/-- `room` is the size of the iovecs of `GetWriteBuffer`; `cancels` is whether the callback that the handler
ends with cancels the connecter. -/
inductive ReadOp where
  | arrive (data : List UInt8)
  | report
  | handle
  | ioctl (fails : Bool)
  | recv (room : ℕ) (recv : SocketResult (List UInt8)) (cancels : Bool)
  | cancel

def ReadRun.start (c : Connecter) (data : List UInt8) : ReadRun := ⟨c, .start data, .idle, false⟩

/-- What `HandleRead` asks `GetWriteBuffer` for. -/
def unreadOf (unreadByte : ℤ) : ℤ := if unreadByte ≤ 0 then maxSingleReadDefault else unreadByte

/-- `readv` fills the iovecs in order; it gives nothing at the end of the stream or without iovecs, and
`EAGAIN` for an empty queue only. -/
def recvFits (waiting : List UInt8) (unread : ℤ) (room : ℕ) : SocketResult (List UInt8) → Prop
  | .done data => room ≤ unread ∧ data = waiting.take data.length ∧ data.length ≤ room ∧
      (data = [] → room = 0 ∨ waiting = [])
  | .failed e => e = eagain → waiting = []

instance (waiting : List UInt8) (unread : ℤ) (room : ℕ) :
    (recv : SocketResult (List UInt8)) → Decidable (recvFits waiting unread room recv)
  | .done _ => inferInstanceAs (Decidable (_ ∧ _))
  | .failed e => inferInstanceAs (Decidable (e = eagain → waiting = []))

/-- The end of `HandleRead` with the queue: the `EnableEvent` of a registered connecter is an
`EPOLL_CTL_MOD`. -/
def finishReadEdge (c : Connecter) (q : EdgeQueue UInt8) (unread readBytes : ℤ) (data : List UInt8) :
    (Connecter × Option Callback) × EdgeQueue UInt8 :=
  (c.finishRead unread readBytes data,
    if unread - readBytes > 0 ∧ c.centre.isSome = true then q.rearm else q)

/-- `HandleRead` from `Recv` on, with the queue. -/
def handleReadEdge (c : Connecter) (q : EdgeQueue UInt8) (unreadByte : ℤ)
    (recv : SocketResult (List UInt8)) : (Connecter × Option Callback) × EdgeQueue UInt8 :=
  let unread := unreadOf unreadByte
  match recv with
  | .failed e => if socketErrNotTryAgain e then (c.callErr e, q) else finishReadEdge c q unread (-1) []
  | .done [] => (c.callErr 0, q)
  | .done (a :: data) =>
    finishReadEdge c (q.take (data.length + 1)) unread (data.length + 1) (a :: data)

theorem handleReadEdge_conn (c : Connecter) (q : EdgeQueue UInt8) (unreadByte : ℤ)
    (recv : SocketResult (List UInt8)) :
    (handleReadEdge c q unreadByte recv).1 = c.handleRead unreadByte recv := by
  cases recv with
  | failed e =>
    simp only [handleReadEdge, handleRead, finishReadEdge, unreadOf]
    split_ifs <;> rfl
  | done data => cases data <;> rfl

/-- The callback at the end may cancel the connecter. -/
def afterCallback (r : Connecter × Option Callback) (cancels : Bool) : Connecter :=
  if r.2.isSome && cancels then r.1.cancelEvent else r.1

def readStep (s : ReadRun) : ReadOp → Option ReadRun
  | .arrive data => some { s with queue := s.queue.arrive data }
  | .report =>
    if s.phase = .idle ∧ s.conn.centre.isSome = true ∧ s.queue.edge = true then
      some { s with queue := s.queue.report, phase := .reported }
    else none
  | .handle =>
    if s.phase = .reported then
      some { s with phase := if s.conn.centre.isSome then .handling else .idle }
    else none
  | .ioctl fails =>
    if s.phase = .handling then
      some { s with phase := .sized (if fails then -1 else s.queue.waiting.length) }
    else none
  | .recv room recv cancels =>
    match s.phase with
    | .sized unreadByte =>
      if recvFits s.queue.waiting (unreadOf unreadByte) room recv then
        let r := handleReadEdge s.conn s.queue unreadByte recv
        let c := afterCallback r.1 cancels
        some ⟨c, r.2, .idle, s.stranded || (c.centre.isSome && !decide r.2.Settled)⟩
      else none
    | _ => none
  | .cancel => some { s with conn := s.conn.cancelEvent }

/-- A connecter that was registered is registered after the callback. -/
def staysRegistered (c : Connecter) (recv : SocketResult (List UInt8)) (cancels : Bool) : Bool :=
  c.centre.isSome && match recv with
    | .failed e => if socketErrNotTryAgain e then c.errcb && !cancels else !(c.readcb && cancels)
    | .done [] => c.errcb && !cancels
    | .done (_ :: _) => !(c.readcb && cancels)

/-- An error, or a read that got nothing, finds no covered bytes; and after an `ioctl` that failed a read of
the whole default size takes them all. -/
def recvSettles (unreadByte : ℤ) (covered : ℕ) : SocketResult (List UInt8) → Prop
  | .failed e => socketErrNotTryAgain e = true → covered = 0
  | .done [] => covered = 0
  | .done (_ :: data) => unreadByte < 0 → maxSingleReadDefault ≤ data.length + 1 → covered ≤ data.length + 1

def readOk (s : ReadRun) : ReadOp → Prop
  | .recv _ recv cancels => match s.phase with
    | .sized unreadByte => staysRegistered s.conn recv cancels = true →
        recvSettles unreadByte s.queue.covered.length recv
    | _ => True
  | _ => True

instance (unreadByte : ℤ) (covered : ℕ) :
    (recv : SocketResult (List UInt8)) → Decidable (recvSettles unreadByte covered recv)
  | .failed e => inferInstanceAs (Decidable (socketErrNotTryAgain e = true → covered = 0))
  | .done [] => inferInstanceAs (Decidable (covered = 0))
  | .done (_ :: _) => inferInstanceAs (Decidable (_ → _ → _))

instance (s : ReadRun) (op : ReadOp) : Decidable (readOk s op) := by
  unfold readOk
  split
  · split <;> infer_instance
  · infer_instance

theorem unreadOf_pos (unreadByte : ℤ) : 0 < unreadOf unreadByte := by
  rw [unreadOf, maxSingleReadDefault]
  split_ifs <;> omega

theorem settled_iff_of_rearmed {q : EdgeQueue UInt8} (h : q.rearmed = false) :
    q.Settled ↔ q.covered.length = 0 := by
  rw [List.length_eq_zero_iff]
  exact ⟨fun hs => hs h, fun hs _ => hs⟩

/-- What a call of `HandleRead` on a registered connecter leaves of the covered bytes, which were all there
when it asked for the unread bytes. -/
theorem handleReadEdge_settled_iff {c : Connecter} {q : EdgeQueue UInt8} {unreadByte : ℤ}
    (hc : c.centre.isSome = true) (hq : q.rearmed = false)
    (hsized : 0 ≤ unreadByte → (q.covered.length : ℤ) ≤ unreadByte) (recv : SocketResult (List UInt8)) :
    (handleReadEdge c q unreadByte recv).2.Settled ↔ recvSettles unreadByte q.covered.length recv := by
  have hpos := unreadOf_pos unreadByte
  cases recv with
  | failed e =>
    simp only [handleReadEdge, recvSettles]
    cases socketErrNotTryAgain e with
    | true => simpa using settled_iff_of_rearmed hq
    | false =>
      have hrearm : unreadOf unreadByte - -1 > 0 ∧ c.centre.isSome = true := ⟨by omega, hc⟩
      simp only [Bool.false_eq_true, if_false, finishReadEdge, if_pos hrearm]
      exact iff_of_true q.settled_rearm fun h => by cases h
  | done data =>
    cases data with
    | nil => exact settled_iff_of_rearmed hq
    | cons a data =>
      simp only [handleReadEdge, finishReadEdge, recvSettles, hc, and_true]
      split_ifs with hshort
      · -- a short read arms the descriptor again
        refine iff_of_true (EdgeQueue.settled_rearm _) fun hneg hfull => ?_
        rw [unreadOf, if_pos (by omega)] at hshort
        omega
      · rw [q.settled_take_iff hq]
        refine ⟨fun h _ _ => h, fun h => ?_⟩
        rcases lt_trichotomy unreadByte 0 with hneg | rfl | hsome
        · rw [unreadOf, if_pos (by omega)] at hshort
          exact h hneg (by omega)
        · have hcovered := hsized le_rfl
          omega
        · have hcovered := hsized hsome.le
          rw [unreadOf, if_neg (by omega)] at hshort
          omega

theorem afterCallback_registered (c : Connecter) (unreadByte : ℤ) (recv : SocketResult (List UInt8))
    (cancels : Bool) : (afterCallback (c.handleRead unreadByte recv) cancels).centre.isSome =
      staysRegistered c recv cancels := by
  have herr (e : ℤ) : (afterCallback (c.callErr e) cancels).centre.isSome =
      (c.centre.isSome && (c.errcb && !cancels)) := by
    cases hcb : c.errcb <;> cases cancels <;> simp [afterCallback, callErr, hcb]
  have hfinish (unread readBytes : ℤ) (data : List UInt8) :
      (afterCallback (c.finishRead unread readBytes data) cancels).centre.isSome =
        (c.centre.isSome && !(c.readcb && cancels)) := by
    cases hcb : c.readcb <;> cases cancels <;> simp [afterCallback, finishRead_call, hcb]
  cases recv with
  | failed e =>
    simp only [handleRead, staysRegistered]
    cases socketErrNotTryAgain e with
    | true => exact herr e
    | false => exact hfinish _ _ _
  | done data =>
    cases data with
    | nil => exact herr 0
    | cons a data => exact hfinish _ _ _

structure ReadInv (s : ReadRun) : Prop where
  rearmed : s.phase ≠ .idle → s.queue.rearmed = false
  sized : ∀ unreadByte, s.phase = .sized unreadByte → 0 ≤ unreadByte →
    (s.queue.covered.length : ℤ) ≤ unreadByte
  settled : s.stranded = false → s.phase = .idle → s.conn.centre.isSome = true → s.queue.Settled

theorem readInv_start (c : Connecter) (data : List UInt8) : ReadInv (.start c data) :=
  ⟨fun _ => rfl, fun _ h => (by cases h), fun _ _ _ => EdgeQueue.settled_start data⟩

theorem readInv_step {s t : ReadRun} {op : ReadOp} (h : ReadInv s) (ht : readStep s op = some t) :
    ReadInv t := by
  cases op with
  | arrive data =>
    obtain rfl := Option.some.inj ht
    exact ⟨h.rearmed, h.sized, h.settled⟩
  | report =>
    simp only [readStep, Option.ite_none_right_eq_some, Option.some.injEq] at ht
    obtain ⟨_, rfl⟩ := ht
    exact ⟨fun _ => rfl, fun _ hphase => (by cases hphase), fun _ hidle => by cases hidle⟩
  | handle =>
    simp only [readStep, Option.ite_none_right_eq_some, Option.some.injEq] at ht
    obtain ⟨hphase, rfl⟩ := ht
    refine ⟨fun _ => h.rearmed (by simp [hphase]), fun u hsized => ?_, fun _ hidle hc => ?_⟩
    · split_ifs at hsized
    · simp [show s.conn.centre.isSome = true from hc] at hidle
  | ioctl fails =>
    simp only [readStep, Option.ite_none_right_eq_some, Option.some.injEq] at ht
    obtain ⟨hphase, rfl⟩ := ht
    refine ⟨fun _ => h.rearmed (by simp [hphase]), fun u hsized hu => ?_, fun _ hidle => by cases hidle⟩
    obtain rfl := ReadPhase.sized.inj hsized
    cases fails with
    | true => simp at hu
    | false => simp [EdgeQueue.waiting]
  | recv room recv cancels =>
    simp only [readStep] at ht
    cases hp : s.phase <;>
      simp only [hp, Option.ite_none_right_eq_some, Option.some.injEq, reduceCtorEq] at ht
    obtain ⟨_, rfl⟩ := ht
    refine ⟨fun hidle => absurd rfl hidle, fun _ hphase => (by cases hphase), fun hstranded _ hc => ?_⟩
    simp only [Bool.or_eq_false_iff, show _ = true from hc, Bool.true_and, Bool.not_eq_false',
      decide_eq_true_eq] at hstranded
    exact hstranded.2
  | cancel =>
    obtain rfl := Option.some.inj ht
    refine ⟨h.rearmed, h.sized, fun _ _ hc => ?_⟩
    simp at hc

/-- The step lemma of the connecter. -/
theorem readStep_stranded {s t : ReadRun} {op : ReadOp} (h : ReadInv s) (ht : readStep s op = some t) :
    ReadInv t ∧ (t.stranded = false ↔ s.stranded = false ∧ readOk s op) := by
  refine ⟨readInv_step h ht, ?_⟩
  cases op with
  | recv room recv cancels =>
    simp only [readStep] at ht
    cases hp : s.phase with
    | sized u =>
      simp only [hp, Option.ite_none_right_eq_some, Option.some.injEq] at ht
      obtain ⟨_, rfl⟩ := ht
      simp only [readOk, hp, Bool.or_eq_false_iff, handleReadEdge_conn, afterCallback_registered]
      cases hstays : staysRegistered s.conn recv cancels with
      | false => simp
      | true =>
        have hc : s.conn.centre.isSome = true := by
          unfold staysRegistered at hstays
          exact (Bool.and_eq_true_iff.mp hstays).1
        have hsettled := handleReadEdge_settled_iff hc (h.rearmed (by simp [hp])) (h.sized u hp) recv
        simp [hsettled]
    | _ => simp [hp] at ht
  | arrive data =>
    obtain rfl := Option.some.inj ht
    exact (and_iff_left trivial).symm
  | cancel =>
    obtain rfl := Option.some.inj ht
    exact (and_iff_left trivial).symm
  | _ =>
    simp only [readStep, Option.ite_none_right_eq_some, Option.some.injEq] at ht
    obtain ⟨_, rfl⟩ := ht
    exact (and_iff_left trivial).symm

/-! ## Runs -/

/-- The `EnableEvent` of a connecter whose descriptor is in the epoll instance comes to an `EPOLL_CTL_MOD`
that succeeds, since the `EPOLL_CTL_ADD` before it answers `EEXIST`. -/
theorem registFd_mods {κ : Type*} {K : Epoll.Kernel κ} (hK : K.Documented) {k : κ} {fd : ℕ}
    (hfd : K.interest k fd ≠ none) (mask ev : EvMask) : ∃ k', K.interest k' = K.interest k ∧
      Epoll.registFd K k (some mask) fd ev =
        ((K.epollCtl k' (.mod (Epoll.setEpollEvent (mask ||| ev))) fd).1, true) := by
  obtain ⟨hret, hint⟩ := hK.add_present (Epoll.setEpollEvent (mask ||| ev)) hfd
  refine ⟨(K.epollCtl k (.add (Epoll.setEpollEvent (mask ||| ev))) fd).1, hint, ?_⟩
  have hmod := (hK.mod_present (k := (K.epollCtl k (.add (Epoll.setEpollEvent (mask ||| ev))) fd).1)
    (Epoll.setEpollEvent (mask ||| ev)) (hint ▸ hfd)).1
  simp only [Epoll.registFd, hret, hmod]
  rfl

/-- In every run of a listener and in every run of a connecter: no return of the handler leaves covered
connections or bytes to a registered event whose descriptor it has not armed again, if and only if every
step of the run meets `listenerOk` or `readOk`. -/
theorem edge_handlers_settle_iff {backlog : List ℕ} {listenerOps : List ListenerOp} {l : ListenerRun}
    {c : Connecter} {data : List UInt8} {readOps : List ReadOp} {r : ReadRun}
    (hl : exec listenerStep (.start backlog) listenerOps = some l)
    (hr : exec readStep (.start c data) readOps = some r) :
    (l.stranded = false ↔ Guarded listenerStep listenerOk (.start backlog) listenerOps) ∧
      (r.stranded = false ↔ Guarded readStep readOk (.start c data) readOps) :=
  ⟨(good_iff_guarded (fun _ _ _ => listenerStep_stranded) (listenerInv_start backlog) hl).trans
      (and_iff_right rfl),
    (good_iff_guarded (fun _ _ _ => readStep_stranded) (readInv_start c data) hr).trans
      (and_iff_right rfl)⟩

/-- A connection arrives in the loop, and an interrupted call finds none of the report left. -/
def listenerSample : List ListenerOp :=
  [.report, .handle, .accept (.accepted 5), .arrive [7], .accept (.accepted 6), .accept (.accepted 7),
    .accept (.failed eagain), .arrive [8], .report, .handle, .accept (.accepted 8), .accept (.failed eintr)]

/-- A short read arms the descriptor again, and the next read takes what was asked for. -/
def readSample : List ReadOp :=
  [.report, .handle, .ioctl false, .arrive [4], .recv 3 (.done [1, 2]) false, .report, .handle, .ioctl false,
    .recv 2 (.done [3, 4]) false]

def readSampleConn : Connecter := { Connecter.new with centre := some 0, readcb := true, errcb := true }

def listenerSampleEnd : ListenerRun :=
  (exec listenerStep (.start [5, 6]) listenerSample).get (by decide +kernel)

def readSampleEnd : ReadRun :=
  (exec readStep (.start readSampleConn [1, 2, 3]) readSample).get (by decide +kernel)

theorem edge_handlers_settle_iff_sample :
    listenerSampleEnd.stranded = false ∧ readSampleEnd.stranded = false := by
  obtain ⟨hl, hr⟩ := edge_handlers_settle_iff (l := listenerSampleEnd) (r := readSampleEnd)
    (Option.some_get _).symm (Option.some_get _).symm
  exact ⟨hl.mpr (by decide +kernel), hr.mpr (by decide +kernel)⟩

/-- An `accept` that is interrupted ends the loop with both connections in the queue. -/
theorem not_edge_handlers_settle : ¬ ∀ (backlog : List ℕ) (ops : List ListenerOp) (s : ListenerRun),
    exec listenerStep (.start backlog) ops = some s → s.stranded = false := by
  intro h
  have hrun := h [5, 6] [.report, .handle, .accept (.failed eintr)] _
    (Option.some_get (by decide +kernel)).symm
  revert hrun
  decide +kernel

/-- In a run that meets the conditions whatever waits between two calls of the handler of a registered event
has its edge. -/
theorem listener_edge_pending {backlog : List ℕ} {ops : List ListenerOp} {s : ListenerRun}
    (hs : exec listenerStep (.start backlog) ops = some s)
    (hg : Guarded listenerStep listenerOk (.start backlog) ops) (hidle : s.phase = .idle)
    (hreg : s.registered = true) (hwaiting : s.queue.waiting ≠ []) : s.queue.edge = true := by
  have hinv := invariant_of_exec (fun _ _ _ => listenerInv_step) (listenerInv_start backlog) hs
  have hgood : s.stranded = false :=
    (good_iff_guarded (fun _ _ _ => listenerStep_stranded) (listenerInv_start backlog) hs).mpr ⟨rfl, hg⟩
  exact s.queue.edge_of_settled (hinv.settled hgood hidle hreg) hwaiting

theorem connecter_edge_pending {c : Connecter} {data : List UInt8} {ops : List ReadOp} {s : ReadRun}
    (hs : exec readStep (.start c data) ops = some s) (hg : Guarded readStep readOk (.start c data) ops)
    (hidle : s.phase = .idle) (hc : s.conn.centre.isSome = true) (hwaiting : s.queue.waiting ≠ []) :
    s.queue.edge = true := by
  have hinv := invariant_of_exec (fun _ _ _ => readInv_step) (readInv_start c data) hs
  have hgood : s.stranded = false :=
    (good_iff_guarded (fun _ _ _ => readStep_stranded) (readInv_start c data) hs).mpr ⟨rfl, hg⟩
  exact s.queue.edge_of_settled (hinv.settled hgood hidle hc) hwaiting

end Chaos.EdgeHandlers
