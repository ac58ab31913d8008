import Chaos.IocpConnecter
import Mathlib.Data.List.Perm.Basic

/-!
# Who has the overlapped structures of a connecter

The destructor deletes an overlapped that is not posted and leaves a posted one to the completion. `AsynRead` and
`AsynWrite` set their flags with the posting. `AsyncConnect` sets its flag only where `ConnectEx` answers `TRUE`, so a
pending `ConnectEx` is not known to the destructor and not to the next `AsyncConnect`.
-/
namespace Chaos

open GuardedRuns

/-- What there is to say about one overlapped: its fields, how often the kernel has it, and whether the connecter is
alive. -/
structure OverlappedIo where
  overlapped : CompletionOverlapped
  inFlight : ℕ
  alive : Bool

namespace OverlappedIo

/-- A living connecter has its overlapped, and the kernel has it at most once. After the destructor the kernel has it
or it was deleted, once. -/
def Sound (o : OverlappedIo) : Prop :=
  if o.alive then o.overlapped.deleted = 0 ∧ o.inFlight ≤ 1 else o.overlapped.deleted + o.inFlight = 1

/-- `eventDestroy` tells of the destructor, and a flag that is set tells of an operation. -/
structure Owned (o : OverlappedIo) : Prop where
  eventDestroy : o.overlapped.eventDestroy = !o.alive
  sound : o.Sound
  posted : o.alive = true → o.overlapped.isPost = true → o.inFlight = 1

/-- The flag also tells where there is none. -/
structure Tracked (o : OverlappedIo) : Prop extends Owned o where
  flagged : o.alive = true → o.inFlight = 1 → o.overlapped.isPost = true

/-- What a step does to an overlapped, other than the destructor and `ConnectEx`. -/
inductive IoStep (k : OverlappedKind) (o : OverlappedIo) : OverlappedIo → Prop where
  | same : IoStep k o o
  | takes (hk : k ≠ .connect) (halive : o.alive = true) (hpost : o.overlapped.isPost = false) :
      IoStep k o ⟨{ o.overlapped with isPost := true }, o.inFlight + 1, o.alive⟩
  | completes {n : ℕ} (hn : o.inFlight = n + 1) (hlive : o.overlapped.eventDestroy = false) :
      IoStep k o ⟨{ o.overlapped with isPost := false }, n, o.alive⟩
  | deletes {n : ℕ} (hn : o.inFlight = n + 1) (hgone : o.overlapped.eventDestroy = true) :
      IoStep k o ⟨{ o.overlapped with deleted := o.overlapped.deleted + 1 }, n, o.alive⟩

/-- The destructor. -/
def destroy (o : OverlappedIo) : OverlappedIo := ⟨IocpConnecter.destroyed o.overlapped, o.inFlight, false⟩

variable {k : OverlappedKind} {o p : OverlappedIo}

theorem sound_of_alive (h : o.alive = true) : o.Sound ↔ o.overlapped.deleted = 0 ∧ o.inFlight ≤ 1 := by
  rw [Sound, if_pos h]

theorem sound_of_dead (h : o.alive = false) : o.Sound ↔ o.overlapped.deleted + o.inFlight = 1 := by
  rw [Sound, h]
  exact Iff.rfl

theorem Owned.alive_iff (h : o.Owned) : o.alive = true ↔ o.overlapped.eventDestroy = false := by
  rw [h.eventDestroy]
  cases o.alive <;> decide

theorem Owned.dead_iff (h : o.Owned) : o.alive = false ↔ o.overlapped.eventDestroy = true := by
  rw [h.eventDestroy]
  cases o.alive <;> decide

/-- An operation is taken only where the kernel has none. -/
theorem Owned.step (h : o.Owned) (hp : IoStep k o p)
    (hfree : k ≠ .connect → o.alive = true → o.overlapped.isPost = false → o.inFlight = 0) : p.Owned := by
  cases hp with
  | same => exact h
  | takes hk halive hpost =>
    have hzero := hfree hk halive hpost
    obtain ⟨hdel, -⟩ := (sound_of_alive halive).mp h.sound
    refine ⟨h.eventDestroy, ?_, fun _ _ => by simp [hzero]⟩
    simp [Sound, halive, hdel, hzero]
  | completes hn hlive =>
    have halive := h.alive_iff.mpr hlive
    obtain ⟨hdel, hle⟩ := (sound_of_alive halive).mp h.sound
    refine ⟨h.eventDestroy, ?_, fun _ hpost => by cases hpost⟩
    simp only [Sound, halive, if_true]
    exact ⟨hdel, by omega⟩
  | deletes hn hgone =>
    have hdead := h.dead_iff.mpr hgone
    have hone := (sound_of_dead hdead).mp h.sound
    refine ⟨h.eventDestroy, ?_, fun halive => absurd (hdead.symm.trans halive) (by decide)⟩
    simp only [Sound, hdead, Bool.false_eq_true, if_false]
    omega

theorem Tracked.step (h : o.Tracked) (hp : IoStep k o p) : p.Tracked := by
  have hfree : o.alive = true → o.overlapped.isPost = false → o.inFlight = 0 := by
    intro halive hpost
    obtain ⟨-, hle⟩ := (sound_of_alive halive).mp h.sound
    by_contra hne
    have := h.flagged halive (by omega)
    rw [hpost] at this
    cases this
  refine ⟨h.toOwned.step hp fun _ => hfree, ?_⟩
  cases hp with
  | same => exact h.flagged
  | takes => exact fun _ _ => rfl
  | completes hn hlive =>
    obtain ⟨-, hle⟩ := (sound_of_alive (h.alive_iff.mpr hlive)).mp h.sound
    intro _ hone
    dsimp only at hone
    omega
  | deletes hn hgone => exact fun halive => absurd ((h.dead_iff.mpr hgone).symm.trans halive) (by decide)

/-- The destructor keeps account of an overlapped where the flag tells of its operation. -/
theorem Owned.sound_destroy_iff (h : o.Owned) (halive : o.alive = true) :
    o.destroy.Sound ↔ (o.inFlight = 1 → o.overlapped.isPost = true) := by
  obtain ⟨hdel, hle⟩ := (sound_of_alive halive).mp h.sound
  have hposted := h.posted halive
  rw [sound_of_dead rfl]
  simp only [destroy, IocpConnecter.destroyed, hdel]
  cases hpost : o.overlapped.isPost with
  | false => simp; omega
  | true => simp [hposted hpost]

theorem Owned.destroy (hs : o.destroy.Sound) : o.destroy.Owned := ⟨rfl, hs, fun halive => by cases halive⟩

end OverlappedIo

namespace IocpConnecter

open OverlappedIo

variable {s t : IocpConnecter} {op : IocpOp} {k : OverlappedKind} {recv : Bool}

def inFlight (s : IocpConnecter) (k : OverlappedKind) : ℕ := s.posted.countP (fun p => p.kind = k)

def io (s : IocpConnecter) (k : OverlappedKind) : OverlappedIo := ⟨s.overlapped k, s.inFlight k, s.alive⟩

/-- `eventDestroy` is set by the destructor, which comes when no handler is running. -/
structure Closed (s : IocpConnecter) : Prop where
  eventDestroy : ∀ k, (s.overlapped k).eventDestroy = !s.alive
  frames : s.alive = false → s.frames = []

/-- `AsyncConnect` comes to `ConnectEx`, and the kernel takes it. -/
def PostsConnect (s : IocpConnecter) (bind : Bool) (ret : ConnectExResult) : Prop :=
  (s.overlapped .connect).isPost = false ∧ s.connected = false ∧ bind = true ∧ ret ≠ .failed

/-! ## The operations -/

theorem io_setPost (isPost : Bool) : (s.setPost k isPost).io k =
    ⟨{ s.overlapped k with isPost := isPost }, s.inFlight k, s.alive⟩ := by
  simp [io, setPost, inFlight]

theorem io_setPost_ne {j : OverlappedKind} (h : k ≠ j) (isPost : Bool) : (s.setPost j isPost).io k = s.io k := by
  simp [io, setPost, inFlight, h]

theorem io_delete : (s.delete k).io k =
    ⟨{ s.overlapped k with deleted := (s.overlapped k).deleted + 1 }, s.inFlight k, s.alive⟩ := by
  simp [io, delete, inFlight]

theorem io_delete_ne {j : OverlappedKind} (h : k ≠ j) : (s.delete j).io k = s.io k := by
  simp [io, delete, inFlight, h]

theorem io_post {j : OverlappedKind} {wsabufs : List UInt8} {packet : Option (List UInt8 × Bool)} :
    (s.post j wsabufs packet).io k = ⟨s.overlapped k, s.inFlight k + if j = k then 1 else 0, s.alive⟩ := by
  simp [io, post, inFlight, List.countP_singleton]

theorem io_pushEvent (ev : EvMask) : (s.pushEvent ev).io k = s.io k := by
  rw [pushEvent]
  split <;> rfl

theorem io_push_if {P : Prop} [Decidable P] (f : IocpFrame) : (if P then s.push f else s).io k = s.io k := by
  split <;> rfl

theorem io_readComplete (data : List UInt8) (bOk : Bool) : (s.readComplete data bOk).io k =
    if (s.overlapped .read).eventDestroy then (s.delete .read).io k else (s.setPost .read false).io k := by
  rw [readComplete]
  split
  · rfl
  · cases bOk with
    | false => rfl
    | true =>
      simp only [Bool.not_true, Bool.false_eq_true, if_false]
      split
      · rfl
      · exact io_pushEvent _

theorem io_writeComplete (bytes : ℕ) (bOk : Bool) : (s.writeComplete bytes bOk).io k =
    if (s.overlapped .write).eventDestroy then (s.delete .write).io k else (s.setPost .write false).io k := by
  rw [writeComplete]
  split
  · rfl
  · cases bOk with
    | false => rfl
    | true =>
      simp only [Bool.not_true, Bool.false_eq_true, if_false]
      split
      · rfl
      · exact io_pushEvent _

/-- A flag that is not set is not cleared. -/
theorem io_setPost_false {j : OverlappedKind} (h : (s.overlapped j).isPost = false) :
    (s.setPost j false).io k = s.io k := by
  by_cases hk : k = j
  · subst hk
    rw [io_setPost, ← h]
    rfl
  · exact io_setPost_ne hk false

/-- What is posted is flagged. -/
theorem io_post_setPost (hk : k ≠ .connect) (halive : s.alive = true) (hpost : (s.overlapped k).isPost = false) (wsabufs : List UInt8)
    (packet : Option (List UInt8 × Bool)) :
    IoStep k (s.io k) (((s.post k wsabufs packet).setPost k true).io k) := by
  have hio : ((s.post k wsabufs packet).setPost k true).io k =
      ⟨{ s.overlapped k with isPost := true }, s.inFlight k + 1, s.alive⟩ := by
    rw [io_setPost]
    have := @io_post s k k wsabufs packet
    rw [if_pos rfl] at this
    injection this with _ hcount _
    rw [hcount]
    rfl
  rw [hio]
  exact .takes hk halive hpost

theorem io_post_setPost_ne {j : OverlappedKind} (h : k ≠ j) (wsabufs : List UInt8)
    (packet : Option (List UInt8 × Bool)) (isPost : Bool) :
    ((s.post j wsabufs packet).setPost j isPost).io k = s.io k := by
  rw [io_setPost_ne h, io_post, if_neg (Ne.symm h)]
  rfl

section Alive
variable (h : Closed s) (halive : s.alive = true)
include h halive

theorem Closed.not_eventDestroy (k : OverlappedKind) : (s.overlapped k).eventDestroy = false := by
  rw [h.eventDestroy, halive]
  rfl

theorem io_asynRead_ne (hk : k ≠ .read) : (s.asynRead recv).io k = s.io k := by
  unfold asynRead
  split
  · rfl
  · split
    · rfl
    · split
      · rw [io_readComplete, h.not_eventDestroy halive, if_neg Bool.false_ne_true, io_setPost_ne hk]
      · exact io_post_setPost_ne hk _ _ _

theorem io_asynRead : IoStep k (s.io k) ((s.asynRead recv).io k) := by
  by_cases hk : k = .read
  · subst hk
    unfold asynRead
    split
    · exact .same
    · next hpost =>
      rw [Bool.not_eq_true] at hpost
      split
      · exact .same
      · split
        · rw [io_readComplete, h.not_eventDestroy halive, if_neg Bool.false_ne_true, io_setPost_false hpost]
          exact .same
        · exact io_post_setPost (by decide) halive hpost _ _
  · rw [io_asynRead_ne h halive hk]
    exact .same

theorem io_asynWrite (send : Option ℕ) : IoStep k (s.io k) ((s.asynWrite send).io k) := by
  unfold asynWrite
  split
  · exact .same
  · next hpost =>
    rw [Bool.not_eq_true] at hpost
    split
    · exact .same
    · split
      · exact .same
      · cases send with
        | none =>
          dsimp only
          rw [io_writeComplete, h.not_eventDestroy halive, if_neg Bool.false_ne_true, io_setPost_false hpost]
          exact .same
        | some covered =>
          by_cases hk : k = .write
          · subst hk
            exact io_post_setPost (by decide) halive hpost _ _
          · dsimp only
            rw [io_post_setPost_ne hk]
            exact .same

theorem io_startRead_ne (hk : k ≠ .read) : (s.startRead recv).io k = s.io k := by
  unfold startRead
  split
  · exact io_asynRead_ne h halive hk
  · rfl

theorem io_startRead : IoStep k (s.io k) ((s.startRead recv).io k) := by
  unfold startRead
  split
  · exact io_asynRead h halive
  · exact .same

theorem io_enableEvent_ne (ev : EvMask) (hk : k ≠ .read) : (s.enableEvent ev recv).io k = s.io k := by
  have hclosed : Closed { s with conn := s.conn.enableEvent ev } := ⟨h.eventDestroy, h.frames⟩
  unfold enableEvent
  dsimp only
  rw [io_push_if]
  split
  · exact io_startRead_ne hclosed halive hk
  · rfl

theorem io_enableEvent (ev : EvMask) : IoStep k (s.io k) ((s.enableEvent ev recv).io k) := by
  have hclosed : Closed { s with conn := s.conn.enableEvent ev } := ⟨h.eventDestroy, h.frames⟩
  unfold enableEvent
  dsimp only
  rw [io_push_if]
  split
  · exact io_startRead hclosed halive
  · exact .same

theorem io_connectDone_ne (ok : Bool) (hk : k ≠ .read) : (s.connectDone ok recv).io k = s.io k := by
  have hclosed : Closed { s with connected := true } := ⟨h.eventDestroy, h.frames⟩
  unfold connectDone
  split
  · exact io_enableEvent_ne hclosed halive _ hk
  · rfl

theorem io_connectDone (ok : Bool) : IoStep k (s.io k) ((s.connectDone ok recv).io k) := by
  have hclosed : Closed { s with connected := true } := ⟨h.eventDestroy, h.frames⟩
  unfold connectDone
  split
  · exact io_enableEvent hclosed halive _
  · exact .same

theorem io_registerEvent (centre : ℕ) (regist : Bool) : IoStep k (s.io k) ((s.registerEvent centre regist recv).io k) := by
  have hclosed : Closed { s with conn := { s.conn with centre := some centre } } := ⟨h.eventDestroy, h.frames⟩
  unfold registerEvent
  split
  · exact io_startRead hclosed halive
  · exact .same

theorem io_writeBuffer (data : List UInt8) (room : Bool) : IoStep k (s.io k) ((s.writeBuffer data room).io k) := by
  have hclosed : Closed { s with
      conn := { s.conn with writeBuffer := s.conn.writeBuffer ++ data }, written := s.written ++ data } :=
    ⟨h.eventDestroy, h.frames⟩
  unfold writeBuffer
  cases room with
  | false => exact .same
  | true =>
    simp only [if_true, not_true_eq_false, false_or]
    split
    · exact .same
    · split
      · exact .same
      · exact io_enableEvent hclosed halive _

theorem io_handle (ev : EvMask) : IoStep k (s.io k) ((s.handle ev recv).io k) := by
  unfold handle
  split
  · exact .same
  · dsimp only
    split
    · exact io_asynRead h halive
    · exact .same

theorem io_resume (send : Option ℕ) (f : IocpFrame) : IoStep k (s.io k) ((s.resume send f).io k) := by
  cases f with
  | asynWrite => exact io_asynWrite h halive send
  | enableWrite =>
    show IoStep k (s.io k) ((s.startWrite send).io k)
    unfold startWrite
    split
    · exact io_asynWrite h halive send
    · exact .same
  | popCurEv => exact .same

/-- `AsyncConnect` leaves the other two alone. -/
theorem io_asyncConnect_ne (bind : Bool) (ret : ConnectExResult) (hk : k ≠ .connect) :
    (s.asyncConnect bind ret).io k = s.io k := by
  have hpost (packet : Option (List UInt8 × Bool)) : (s.post .connect [] packet).io k = s.io k := by
    rw [io_post, if_neg (Ne.symm hk)]
    rfl
  unfold asyncConnect
  split
  · rfl
  · split
    · rfl
    · cases ret with
      | failed => rfl
      | pending => exact hpost none
      | done pending =>
        cases pending with
        | true => exact io_post_setPost_ne hk _ _ _
        | false =>
          have hlive : ((s.post .connect [] (some ([], true))).overlapped .connect).eventDestroy = false :=
            h.not_eventDestroy halive .connect
          simp only [Bool.not_false, if_true, connectComplete, hlive, Bool.false_eq_true, if_false]
          exact io_post_setPost_ne hk _ _ _

/-- Where it gets so far `AsyncConnect` gives the kernel a `ConnectEx`. -/
theorem io_asyncConnect {bind : Bool} {ret : ConnectExResult} (hposts : s.PostsConnect bind ret) :
    ∃ isPost, (s.asyncConnect bind ret).io .connect =
      ⟨{ s.overlapped .connect with isPost := isPost }, s.inFlight .connect + 1, s.alive⟩ := by
  obtain ⟨hpost, hconnected, rfl, hret⟩ := hposts
  have hset (packet : Option (List UInt8 × Bool)) (isPost : Bool) :
      ((s.post .connect [] packet).setPost .connect isPost).io .connect =
        ⟨{ s.overlapped .connect with isPost := isPost }, s.inFlight .connect + 1, s.alive⟩ := by
    rw [io_setPost]
    have hcount := congrArg OverlappedIo.inFlight (@io_post s .connect .connect [] packet)
    rw [if_pos rfl] at hcount
    exact congrArg (fun n => OverlappedIo.mk { s.overlapped .connect with isPost := isPost } n s.alive) hcount
  unfold asyncConnect
  rw [if_neg (by simp [hpost, hconnected]), if_neg (by decide)]
  cases ret with
  | failed => exact absurd rfl hret
  | pending =>
    have hsame : ((s.post .connect [] none).setPost .connect false).io .connect =
      (s.post .connect [] none).io .connect := io_setPost_false hpost
    exact ⟨false, hsame.symm.trans (hset none false)⟩
  | done pending =>
    cases pending with
    | true => exact ⟨true, hset _ true⟩
    | false =>
      have hlive : ((s.post .connect [] (some ([], true))).overlapped .connect).eventDestroy = false :=
        h.not_eventDestroy halive .connect
      refine ⟨false, ?_⟩
      simp only [Bool.not_false, if_true, connectComplete, hlive, Bool.false_eq_true, if_false]
      exact hset _ false

end Alive

theorem asyncConnect_eq_self {bind : Bool} {ret : ConnectExResult} (h : ¬ s.PostsConnect bind ret) :
    s.asyncConnect bind ret = s := by
  unfold asyncConnect
  split
  · rfl
  · next hidle =>
    simp only [not_or, Bool.not_eq_true] at hidle
    cases bind with
    | false => rfl
    | true =>
      cases ret with
      | failed => rfl
      | pending => exact absurd ⟨hidle.1, hidle.2, rfl, by decide⟩ h
      | done pending => exact absurd ⟨hidle.1, hidle.2, rfl, by simp⟩ h

/-! ## Packets -/

theorem countP_eraseIdx_add {α : Type*} {l : List α} {n : ℕ} {a : α} (h : l[n]? = some a) (P : α → Bool) :
    l.countP P = (l.eraseIdx n).countP P + if P a then 1 else 0 := by
  obtain ⟨hn, rfl⟩ := List.getElem?_eq_some_iff.mp h
  rw [← (List.getElem_cons_eraseIdx_perm hn).countP_eq, List.countP_cons]

/-- The end of an operation leaves it with the kernel. -/
theorem io_kernel {n : ℕ} {p q : PostedIo} {wire : List UInt8} (hp : s.posted[n]? = some p) (hq : q.kind = p.kind) :
    IoStep k (s.io k) (IocpConnecter.io { s with posted := s.posted.eraseIdx n ++ [q], wire := wire } k) := by
  have hsame : IocpConnecter.io { s with posted := s.posted.eraseIdx n ++ [q], wire := wire } k = s.io k := by
    simp only [io, inFlight, List.countP_append, List.countP_singleton, hq, countP_eraseIdx_add hp]
  rw [hsame]
  exact .same

/-- A packet is one operation less. -/
theorem io_unpost {n : ℕ} {p : PostedIo} (hp : s.posted[n]? = some p) :
    s.inFlight k = (s.unpost n).inFlight k + if p.kind = k then 1 else 0 := by
  have hcount := countP_eraseIdx_add hp (fun p => p.kind = k)
  simpa only [inFlight, unpost, decide_eq_true_eq] using hcount

theorem Closed.unpost {n : ℕ} (h : Closed s) : Closed (s.unpost n) := ⟨h.eventDestroy, h.frames⟩

theorem Closed.setPost {j : OverlappedKind} {isPost : Bool} (h : Closed s) : Closed (s.setPost j isPost) := by
  refine ⟨fun k => ?_, h.frames⟩
  by_cases hk : k = j
  · subst hk
    simpa [IocpConnecter.setPost] using h.eventDestroy k
  · simpa [IocpConnecter.setPost, hk] using h.eventDestroy k

section Packet
variable {n : ℕ} {p : PostedIo} {data : List UInt8} {bOk : Bool}

/-- The completion of an operation ends it or deletes its overlapped, and leaves the others alone. -/
theorem io_completion (hp : s.posted[n]? = some p) (ht : t.io k =
    if (s.overlapped p.kind).eventDestroy then ((s.unpost n).delete p.kind).io k
    else ((s.unpost n).setPost p.kind false).io k) : IoStep k (s.io k) (t.io k) := by
  have hcount := io_unpost (k := k) hp
  rw [ht]
  by_cases hk : k = p.kind
  · subst hk
    rw [if_pos rfl] at hcount
    split
    · next hgone =>
      rw [io_delete]
      exact .deletes hcount hgone
    · next hlive =>
      rw [io_setPost]
      exact .completes hcount (Bool.eq_false_iff.mpr hlive)
  · rw [if_neg (Ne.symm hk), Nat.add_zero] at hcount
    rw [io_delete_ne hk, io_setPost_ne hk, ite_id]
    have hsame : (s.unpost n).io k = s.io k := by
      rw [io, ← hcount]
      rfl
    rw [hsame]
    exact .same

/-- `ConnectComplete` may go on with a `WSARecv`. -/
theorem io_complete (h : Closed s) (hp : s.posted[n]? = some p) :
    IoStep k (s.io k) (((s.unpost n).complete p data bOk recv).io k) := by
  obtain ⟨kind, wsabufs, packet⟩ := p
  cases kind with
  | read => exact io_completion hp (io_readComplete data bOk)
  | write => exact io_completion hp (io_writeComplete data.length bOk)
  | connect =>
    by_cases hgone : (s.overlapped .connect).eventDestroy = true
    · apply io_completion hp
      rw [if_pos hgone]
      simp only [complete, connectComplete]
      exact congrArg (fun t => io t k) (if_pos hgone)
    · have hlive : s.alive = true := by
        rw [h.eventDestroy] at hgone
        simpa using hgone
      have hclosed : Closed ((s.unpost n).setPost .connect false) := h.unpost.setPost
      have hcall : (s.unpost n).complete ⟨.connect, wsabufs, packet⟩ data bOk recv =
          ((s.unpost n).setPost .connect false).connectDone bOk recv := if_neg hgone
      rw [hcall]
      by_cases hk : k = .read
      · subst hk
        have hread : IoStep .read _ ((((s.unpost n).setPost .connect false).connectDone bOk recv).io .read) :=
          io_connectDone hclosed hlive bOk
        have hsame : ((s.unpost n).setPost .connect false).io .read = s.io .read := by
          rw [io_setPost_ne (by decide), io, io, io_unpost hp]
          rfl
        rwa [hsame] at hread
      · apply io_completion hp
        rw [if_neg hgone, io_connectDone_ne hclosed hlive bOk hk]

end Packet

/-! ## Steps -/

theorem io_call (h : Closed s) (halive : s.alive = true) {c : IocpCall}
    (hconnect : k = .connect → ∀ bind ret, c ≠ .asyncConnect bind ret) : IoStep k (s.io k) ((s.call c).io k) := by
  cases c with
  | register centre regist recv => exact io_registerEvent h halive centre regist
  | write data room => exact io_writeBuffer h halive data room
  | enable ev recv => exact io_enableEvent h halive ev
  | connect ok recv => exact io_connectDone h halive ok
  | asyncConnect bind ret =>
    rw [call, io_asyncConnect_ne h halive bind ret fun hk => hconnect hk bind ret rfl]
    exact .same
  | cancel | setErrCallback | read | disable => exact .same

theorem Closed.alive_of_frames (h : Closed s) (hframes : s.frames ≠ []) : s.alive = true := by
  by_contra hdead
  exact hframes (h.frames (Bool.eq_false_iff.mpr hdead))

theorem io_pass (h : Closed s) (hpass : Pass s op t) (hdestroy : op ≠ .destroy)
    (hconnect : k = .connect → ∀ bind ret, op ≠ .call (.asyncConnect bind ret)) : IoStep k (s.io k) (t.io k) := by
  cases hpass with
  | call halive c =>
    apply io_call h halive
    intro hk bind ret hc
    exact hconnect hk bind ret (congrArg IocpOp.call hc)
  | handle halive hframes hcentre hcur recv => exact io_handle h halive _
  | @resume f frames hframes send =>
    have halive := h.alive_of_frames (by rw [hframes]; exact List.cons_ne_nil _ _)
    have hclosed : Closed { s with frames := frames } :=
      ⟨h.eventDestroy, fun hdead => absurd (halive.symm.trans hdead) (by decide)⟩
    exact io_resume hclosed halive send f
  | kernel hp hmove => exact io_kernel hp rfl
  | complete hframes hp recv => exact io_complete h hp
  | destroy => exact absurd rfl hdestroy

theorem eventDestroy_ioStep {o p : OverlappedIo} (h : IoStep k o p) :
    p.overlapped.eventDestroy = o.overlapped.eventDestroy ∧ p.alive = o.alive := by
  cases h <;> exact ⟨rfl, rfl⟩

/-- After the destructor a completion only deletes. -/
theorem Closed.complete_dead {p : PostedIo} {data : List UInt8} {bOk : Bool} (h : Closed s) (hdead : s.alive = false) :
    s.complete p data bOk recv = s.delete p.kind := by
  have hgone (k : OverlappedKind) : (s.overlapped k).eventDestroy = true := by
    rw [h.eventDestroy, hdead]
    rfl
  unfold complete
  cases p.kind with
  | read => exact if_pos (hgone .read)
  | write => exact if_pos (hgone .write)
  | connect => exact if_pos (hgone .connect)

/-- Only the destructor sets `eventDestroy`. -/
theorem eventDestroy_pass (h : Closed s) (hpass : Pass s op t) (hdestroy : op ≠ .destroy) (k : OverlappedKind) :
    (t.overlapped k).eventDestroy = (s.overlapped k).eventDestroy ∧ t.alive = s.alive := by
  by_cases hconnect : k = .connect ∧ ∃ bind ret, op = .call (.asyncConnect bind ret)
  · obtain ⟨rfl, bind, ret, rfl⟩ := hconnect
    cases hpass with
    | call halive =>
      by_cases hposts : s.PostsConnect bind ret
      · obtain ⟨isPost, hio⟩ := io_asyncConnect h halive hposts
        have heq := congrArg (fun o => (o.overlapped.eventDestroy, o.alive)) hio
        exact Prod.mk.inj heq
      · rw [call, asyncConnect_eq_self hposts]
        exact ⟨rfl, rfl⟩
  · apply eventDestroy_ioStep (io_pass h hpass hdestroy ?_)
    intro hk bind ret hop
    exact hconnect ⟨hk, bind, ret, hop⟩

theorem closed_pass (h : Closed s) (hpass : Pass s op t) : Closed t := by
  by_cases hdestroy : op = .destroy
  · subst hdestroy
    cases hpass with
    | destroy halive hframes hcentre => exact ⟨fun _ => rfl, fun _ => hframes⟩
  · have hevent := eventDestroy_pass h hpass hdestroy
    have halive := (hevent .read).2
    refine ⟨fun k => by rw [(hevent k).1, halive, h.eventDestroy k], fun hdead => ?_⟩
    rw [halive] at hdead
    have hframes := h.frames hdead
    have hdead' : s.alive ≠ true := by simp [hdead]
    cases hpass with
    | call hlive => exact absurd hlive hdead'
    | handle hlive => exact absurd hlive hdead'
    | resume hsome => exact absurd (hsome.symm.trans hframes) (List.cons_ne_nil _ _)
    | kernel => exact hframes
    | complete =>
      rw [h.unpost.complete_dead hdead]
      exact hframes
    | destroy => exact absurd rfl hdestroy

theorem closed_new (connected : Bool) : Closed (new connected) := ⟨fun _ => rfl, fun hdead => by cases hdead⟩

/-! ## Runs -/

theorem tracked_pass (h : Closed s) (hk : k ≠ .connect) (ht : (s.io k).Tracked) (hpass : Pass s op t) :
    (t.io k).Tracked := by
  by_cases hdestroy : op = .destroy
  · subst hdestroy
    cases hpass with
    | destroy halive hframes hcentre =>
      have howned := Owned.destroy ((ht.toOwned.sound_destroy_iff halive).mpr (ht.flagged halive))
      exact ⟨howned, fun hdead => by cases hdead⟩
  · exact ht.step (io_pass h hpass hdestroy fun heq => absurd heq hk)

theorem tracked_new (connected : Bool) (k : OverlappedKind) : ((new connected).io k).Tracked :=
  ⟨⟨rfl, ⟨rfl, Nat.zero_le 1⟩, fun _ hpost => by cases hpost⟩, fun _ hone => by cases hone⟩

/-- No `ConnectEx` is in flight where another one is posted, nor where the destructor runs with `m_isPostConnect` not
set. -/
def ConnectFlagged (s : IocpConnecter) : IocpOp → Prop
  | .call (.asyncConnect bind ret) => s.PostsConnect bind ret → s.inFlight .connect = 0
  | .destroy => s.inFlight .connect = 1 → (s.overlapped .connect).isPost = true
  | _ => True

/-- What holds of the overlapped of `ConnectEx` where its operations were known. -/
structure ConnectInv (s : IocpConnecter) : Prop where
  closed : Closed s
  owned : (s.io .connect).Owned

theorem connectInv_pass (h : ConnectInv s) (hpass : Pass s op t) :
    ((t.io .connect).Sound → ConnectFlagged s op) ∧ (ConnectFlagged s op → ConnectInv t) := by
  have hclosed := closed_pass h.closed hpass
  by_cases hdestroy : op = .destroy
  · subst hdestroy
    cases hpass with
    | destroy halive hframes hcentre =>
      have hiff := h.owned.sound_destroy_iff halive
      exact ⟨hiff.mp, fun hflag => ⟨hclosed, .destroy (hiff.mpr hflag)⟩⟩
  · by_cases hconnect : ∃ bind ret, op = .call (.asyncConnect bind ret)
    · obtain ⟨bind, ret, rfl⟩ := hconnect
      cases hpass with
      | call halive =>
        by_cases hposts : s.PostsConnect bind ret
        · obtain ⟨isPost, hio⟩ := io_asyncConnect h.closed halive hposts
          have hcall : (s.call (.asyncConnect bind ret)).io .connect = _ := hio
          obtain ⟨hdel, -⟩ := (sound_of_alive halive).mp h.owned.sound
          constructor
          · intro hsound _
            rw [hcall] at hsound
            obtain ⟨-, hle⟩ := (sound_of_alive halive).mp hsound
            dsimp only at hle
            omega
          · intro hflag
            have hzero : s.inFlight .connect = 0 := hflag hposts
            refine ⟨hclosed, ?_⟩
            rw [hcall]
            refine ⟨h.owned.eventDestroy, ?_, fun _ _ => by simp [hzero]⟩
            simp only [Sound, halive, hzero, if_true]
            exact ⟨hdel, Nat.le_refl 1⟩
        · have hcall : s.call (.asyncConnect bind ret) = s := asyncConnect_eq_self hposts
          refine ⟨fun _ hyes => absurd hyes hposts, fun _ => ?_⟩
          rw [hcall]
          exact h
    · have hio := io_pass (k := .connect) h.closed hpass hdestroy fun _ bind ret hop => hconnect ⟨bind, ret, hop⟩
      have hflag : ConnectFlagged s op := by
        cases hpass with
        | call halive c =>
          cases c with
          | asyncConnect bind ret => exact absurd ⟨bind, ret, rfl⟩ hconnect
          | _ => trivial
        | destroy => exact absurd rfl hdestroy
        | _ => trivial
      exact ⟨fun _ => hflag, fun _ => ⟨hclosed, h.owned.step hio fun hne => absurd rfl hne⟩⟩

/-- The overlapped of `WSARecv` and the one of `WSASend` are in flight once at most and deleted once, and never both,
in every run. For the one of `ConnectEx` it is so exactly where none is posted, or left by the destructor, while one is
in flight that `m_isPostConnect` does not tell of. -/
theorem overlapped_sound_iff {connected : Bool} {ops : List IocpOp} (h : exec step (new connected) ops = some s) :
    (∀ k, k ≠ .connect → Always step (fun s => (s.io k).Sound) (new connected) ops) ∧
      (Always step (fun s => (s.io .connect).Sound) (new connected) ops ↔
        Guarded step ConnectFlagged (new connected) ops) := by
  constructor
  · intro k hk
    apply @always_of_guarded _ _ step (fun _ _ => True) (fun s => Closed s ∧ (s.io k).Tracked)
    · exact fun s hs => hs.2.sound
    · intro s op t hs _ hstep
      have hpass := pass_of_step hstep
      exact ⟨closed_pass hs.1 hpass, tracked_pass hs.1 hk hs.2 hpass⟩
    · exact ⟨closed_new connected, tracked_new connected k⟩
    · exact guarded_of_forall (fun _ _ => trivial) _ _
  · have hstart : ConnectInv (new connected) := ⟨closed_new connected, (tracked_new connected .connect).toOwned⟩
    exact always_iff_guarded_of_inv (fun _ hs => hs.owned.sound)
      (fun _ _ _ hs hstep => connectInv_pass hs (pass_of_step hstep)) hstart h

/-- A connecter that connects, reads and is destroyed with a `WSARecv` in flight. -/
def connectAndDrop : List IocpOp :=
  [.call (.register 0 true true), .resume none, .call (.asyncConnect true .pending), .kernel 0 [] true,
    .complete 0 true, .resume none, .call .cancel, .destroy, .kernel 0 [] false, .complete 0 true]

theorem connectAndDrop_isSome : (exec step (new false) connectAndDrop).isSome = true := by decide

theorem overlapped_sound_iff_connectAndDrop :
    (∀ k, k ≠ .connect → Always step (fun s => (s.io k).Sound) (new false) connectAndDrop) ∧
      (Always step (fun s => (s.io .connect).Sound) (new false) connectAndDrop ↔
        Guarded step ConnectFlagged (new false) connectAndDrop) :=
  overlapped_sound_iff (Option.some_get connectAndDrop_isSome).symm

end IocpConnecter

end Chaos
