import Chaos.IocpOverlappeds

/-!
# The send path of a connecter on a completion port

The bytes of a `WSASend` stay in the write buffer until `WriteComplete` drops those that were sent, and no other one is
posted before, so the kernel gets the data in the order of `WriteBuffer` and once.
-/
namespace Chaos

open GuardedRuns

/-- What there is to say about the data to send. `writes` are the operations of it that the kernel has. -/
structure SendIo where
  queue : List UInt8
  writes : List PostedIo
  wire : List UInt8
  written : List UInt8

namespace SendIo

/-- The kernel has none of the queue, a part at the front, or has sent a part at the front. -/
def InOrder (o : SendIo) : Prop :=
  o.writes = [] ∧ o.wire ++ o.queue = o.written ∨
    (∃ w, o.writes = [⟨.write, w, none⟩] ∧ w <+: o.queue ∧ o.wire ++ o.queue = o.written) ∨
      ∃ w data bOk, o.writes = [⟨.write, w, some (data, bOk)⟩] ∧ (bOk = false → data = []) ∧ data <+: o.queue ∧
        o.wire ++ o.queue.drop data.length = o.written

inductive SendStep (o : SendIo) : SendIo → Prop where
  | same : SendStep o o
  | queues (data : List UInt8) : SendStep o { o with queue := o.queue ++ data, written := o.written ++ data }
  | posts {w : List UInt8} (hidle : o.writes = []) (hw : w <+: o.queue) :
      SendStep o { o with writes := [⟨.write, w, none⟩] }
  | moves {w data : List UInt8} {bOk : Bool} (h : o.writes = [⟨.write, w, none⟩]) (hdata : data <+: w)
      (hfail : bOk = false → data = []) :
      SendStep o { o with writes := [⟨.write, w, some (data, bOk)⟩], wire := o.wire ++ data }
  | completes {w data : List UInt8} {bOk : Bool} (h : o.writes = [⟨.write, w, some (data, bOk)⟩]) :
      SendStep o { o with queue := if bOk then o.queue.drop data.length else o.queue, writes := [] }

variable {o p : SendIo}

theorem InOrder.sent (h : o.InOrder) : o.wire <+: o.written := by
  obtain ⟨-, h⟩ | ⟨_, -, -, h⟩ | ⟨_, _, _, -, -, -, h⟩ := h <;> exact ⟨_, h⟩

theorem InOrder.of_idle (h : o.InOrder) (hidle : o.writes = []) : o.wire ++ o.queue = o.written := by
  obtain ⟨-, h⟩ | ⟨_, hone, -⟩ | ⟨_, _, _, hone, -⟩ := h
  · exact h
  · cases hidle.symm.trans hone
  · cases hidle.symm.trans hone

theorem InOrder.of_posted {w : List UInt8} (h : o.InOrder) (hone : o.writes = [⟨.write, w, none⟩]) :
    w <+: o.queue ∧ o.wire ++ o.queue = o.written := by
  obtain ⟨hidle, -⟩ | ⟨_, hw, h⟩ | ⟨_, _, _, hdone, -⟩ := h
  · cases hidle.symm.trans hone
  · cases hw.symm.trans hone
    exact h
  · cases hdone.symm.trans hone

theorem InOrder.of_sent {w data : List UInt8} {bOk : Bool} (h : o.InOrder)
    (hone : o.writes = [⟨.write, w, some (data, bOk)⟩]) :
    (bOk = false → data = []) ∧ data <+: o.queue ∧ o.wire ++ o.queue.drop data.length = o.written := by
  obtain ⟨hidle, -⟩ | ⟨_, hw, -⟩ | ⟨_, _, _, hdone, h⟩ := h
  · cases hidle.symm.trans hone
  · cases hw.symm.trans hone
  · cases hdone.symm.trans hone
    exact h

theorem InOrder.step (h : o.InOrder) (hp : o.SendStep p) : p.InOrder := by
  cases hp with
  | same => exact h
  | queues data =>
    obtain ⟨hidle, h⟩ | ⟨w, hone, hw, h⟩ | ⟨w, sent, bOk, hone, hfail, hsent, h⟩ := h
    · refine .inl ⟨hidle, ?_⟩
      rw [← List.append_assoc, h]
    · refine .inr (.inl ⟨w, hone, hw.trans (List.prefix_append _ _), ?_⟩)
      rw [← List.append_assoc, h]
    · refine .inr (.inr ⟨w, sent, bOk, hone, hfail, hsent.trans (List.prefix_append _ _), ?_⟩)
      rw [List.drop_append_of_le_length hsent.length_le, ← List.append_assoc, h]
  | posts hidle hw => exact .inr (.inl ⟨_, rfl, hw, h.of_idle hidle⟩)
  | @moves w data bOk hone hdata hfail =>
    obtain ⟨hw, h⟩ := h.of_posted hone
    obtain ⟨rest, hrest⟩ := hdata.trans hw
    refine .inr (.inr ⟨w, data, bOk, rfl, hfail, ⟨rest, hrest⟩, ?_⟩)
    rw [← h, ← hrest, List.drop_left, List.append_assoc]
  | @completes w data bOk hone =>
    obtain ⟨hfail, -, h⟩ := h.of_sent hone
    refine .inl ⟨rfl, ?_⟩
    cases bOk with
    | true => exact h
    | false =>
      obtain rfl := hfail rfl
      exact h

end SendIo

namespace IocpConnecter

open OverlappedIo SendIo

variable {s t : IocpConnecter} {op : IocpOp} {recv : Bool}

def sendIo (s : IocpConnecter) : SendIo :=
  ⟨s.conn.writeBuffer, s.posted.filter (fun p => p.kind = .write), s.wire, s.written⟩

/-! ## The operations -/

theorem sendIo_pushEvent (ev : EvMask) : (s.pushEvent ev).sendIo = s.sendIo := by
  rw [pushEvent]
  split <;> rfl

theorem sendIo_callErr : s.callErr.sendIo = s.sendIo := by
  simp [sendIo, callErr]

theorem sendIo_post {k : OverlappedKind} (hk : k ≠ .write) (wsabufs : List UInt8)
    (packet : Option (List UInt8 × Bool)) : (s.post k wsabufs packet).sendIo = s.sendIo := by
  simp [sendIo, post, hk]

theorem sendIo_readComplete (data : List UInt8) (bOk : Bool) : (s.readComplete data bOk).sendIo = s.sendIo := by
  unfold readComplete
  split
  · rfl
  · cases bOk with
    | false => exact sendIo_callErr
    | true =>
      simp only [Bool.not_true, Bool.false_eq_true, if_false]
      split
      · rfl
      · exact sendIo_pushEvent _

theorem sendIo_asynRead : (s.asynRead recv).sendIo = s.sendIo := by
  unfold asynRead
  split
  · rfl
  · split
    · rfl
    · split
      · exact sendIo_readComplete _ _
      · have hpost : (s.post .read [] none).sendIo = s.sendIo := sendIo_post (by decide) _ _
        exact hpost

theorem sendIo_startRead : (s.startRead recv).sendIo = s.sendIo := by
  unfold startRead
  split
  · exact sendIo_asynRead
  · rfl

theorem sendIo_enableEvent (ev : EvMask) : (s.enableEvent ev recv).sendIo = s.sendIo := by
  have hconn : IocpConnecter.sendIo { s with conn := s.conn.enableEvent ev } = s.sendIo := by simp [sendIo]
  unfold enableEvent
  dsimp only
  split <;> split
  · exact (sendIo_startRead (s := { s with conn := s.conn.enableEvent ev })).trans hconn
  · exact hconn
  · exact (sendIo_startRead (s := { s with conn := s.conn.enableEvent ev })).trans hconn
  · exact hconn

theorem sendIo_connectDone (ok : Bool) : (s.connectDone ok recv).sendIo = s.sendIo := by
  unfold connectDone
  split
  · exact sendIo_enableEvent _
  · rfl

theorem sendIo_connectComplete (bOk : Bool) : (s.connectComplete bOk recv).sendIo = s.sendIo := by
  unfold connectComplete
  split
  · rfl
  · exact sendIo_connectDone _

theorem sendIo_asyncConnect (bind : Bool) (ret : ConnectExResult) : (s.asyncConnect bind ret).sendIo = s.sendIo := by
  unfold asyncConnect
  split
  · rfl
  · split
    · rfl
    · cases ret with
      | failed => rfl
      | pending => exact sendIo_post (by decide) _ _
      | done pending =>
        have hpost : (s.post .connect [] (some ([], true))).sendIo = s.sendIo := sendIo_post (by decide) _ _
        cases pending with
        | true => exact hpost
        | false => exact (sendIo_connectComplete false).trans hpost

theorem sendIo_writeBuffer (data : List UInt8) (room : Bool) :
    SendStep s.sendIo (s.writeBuffer data room).sendIo := by
  have hqueues : SendStep s.sendIo (IocpConnecter.sendIo { s with
      conn := { s.conn with writeBuffer := s.conn.writeBuffer ++ data }, written := s.written ++ data }) :=
    .queues data
  unfold writeBuffer
  cases room with
  | false => exact .same
  | true =>
    simp only [if_true, not_true_eq_false, false_or]
    split
    · exact hqueues
    · split
      · exact hqueues
      · rw [sendIo_enableEvent]
        exact hqueues

/-- `AsynWrite` posts the front of the queue where the kernel has none of it. -/
theorem sendIo_asynWrite (h : Closed s) (hwrite : (s.io .write).Tracked) (halive : s.alive = true) (send : Option ℕ) :
    SendStep s.sendIo (s.asynWrite send).sendIo := by
  unfold asynWrite
  split
  · exact .same
  · next hpost =>
    split
    · exact .same
    · split
      · exact .same
      · cases send with
        | none =>
          dsimp only
          have hfail : (s.writeComplete 0 false).sendIo = s.sendIo := by
            unfold writeComplete
            rw [if_neg (by rw [h.not_eventDestroy halive]; decide)]
            exact sendIo_callErr
          rw [hfail]
          exact .same
        | some covered =>
          have hidle : s.sendIo.writes = [] := by
            by_contra hne
            have hpos : 0 < s.inFlight .write := by
              rw [inFlight, List.countP_eq_length_filter]
              exact List.length_pos_iff.mpr hne
            obtain ⟨-, hle⟩ := (sound_of_alive halive).mp hwrite.sound
            have hle : s.inFlight .write ≤ 1 := hle
            exact hpost (hwrite.flagged halive (show s.inFlight .write = 1 by omega))
          have hprefix : (s.conn.writeBuffer.take maxSingleWriteDefault).take covered <+: s.sendIo.queue :=
            (List.take_prefix _ _).trans (List.take_prefix _ _)
          have hposts := SendStep.posts hidle hprefix
          have hio : (((s.post .write ((s.conn.writeBuffer.take maxSingleWriteDefault).take covered) none).setPost
              .write true)).sendIo = { s.sendIo with
                writes := [⟨.write, (s.conn.writeBuffer.take maxSingleWriteDefault).take covered, none⟩] } := by
            have hfilter : s.posted.filter (fun p => p.kind = .write) = [] := hidle
            simp [sendIo, setPost, post, hfilter]
          rw [← hio] at hposts
          exact hposts

/-! ## Steps -/

/-- Taking an element out of a list whose filter has one element at most. -/
theorem filter_eraseIdx {α : Type*} {l : List α} {n : ℕ} {a : α} {P : α → Bool} (h : l[n]? = some a)
    (hone : l.countP P ≤ 1) : if P a then l.filter P = [a] ∧ (l.eraseIdx n).filter P = []
      else (l.eraseIdx n).filter P = l.filter P := by
  obtain ⟨hn, rfl⟩ := List.getElem?_eq_some_iff.mp h
  have hperm := (List.getElem_cons_eraseIdx_perm hn).filter P
  rw [List.countP_eq_length_filter, ← hperm.length_eq] at hone
  cases hP : P l[n] with
  | true =>
    rw [List.filter_cons_of_pos hP] at hperm hone
    obtain hnil : (l.eraseIdx n).filter P = [] := List.length_eq_zero_iff.mp (by simpa using hone)
    rw [hnil] at hperm
    exact ⟨List.perm_singleton.mp hperm.symm, hnil⟩
  | false =>
    rw [List.filter_cons_of_neg (by simp [hP])] at hperm hone
    cases hl : (l.eraseIdx n).filter P with
    | nil =>
      rw [hl] at hperm
      exact hperm.nil_eq
    | cons b rest =>
      rw [hl] at hperm hone
      obtain rfl : rest = [] := List.length_eq_zero_iff.mp (by simpa using hone)
      exact (List.perm_singleton.mp hperm.symm).symm

theorem sendIo_kernel {n : ℕ} {kind : OverlappedKind} {wsabufs data : List UInt8} {bOk : Bool}
    (hle : s.inFlight .write ≤ 1) (hp : s.posted[n]? = some ⟨kind, wsabufs, none⟩)
    (hmove : canMove ⟨kind, wsabufs, none⟩ data bOk = true) :
    SendStep s.sendIo (IocpConnecter.sendIo { s with
      posted := s.posted.eraseIdx n ++ [⟨kind, wsabufs, some (data, bOk)⟩]
      wire := if kind = .write then s.wire ++ data else s.wire }) := by
  have hfilter := filter_eraseIdx hp hle
  by_cases hkind : kind = .write
  · subst hkind
    rw [if_pos (decide_eq_true rfl)] at hfilter
    obtain ⟨hone, hnone⟩ := hfilter
    simp only [canMove, Bool.and_eq_true, List.isPrefixOf_iff_prefix, Bool.or_eq_true, List.isEmpty_iff] at hmove
    have hfail : bOk = false → data = [] := by
      intro hno
      exact hmove.2.resolve_left (by simp [hno])
    have hstep : SendStep s.sendIo _ := .moves hone hmove.1 hfail
    simpa [sendIo, hnone] using hstep
  · rw [if_neg (by simpa using hkind)] at hfilter
    have hio : IocpConnecter.sendIo { s with
        posted := s.posted.eraseIdx n ++ [⟨kind, wsabufs, some (data, bOk)⟩]
        wire := if kind = .write then s.wire ++ data else s.wire } = s.sendIo := by
      simp [sendIo, hfilter, hkind]
    rw [hio]
    exact .same

theorem sendIo_complete {n : ℕ} {kind : OverlappedKind} {wsabufs data : List UInt8} {bOk : Bool} (h : Closed s)
    (hle : s.inFlight .write ≤ 1) (halive : s.alive = true)
    (hp : s.posted[n]? = some ⟨kind, wsabufs, some (data, bOk)⟩) :
    SendStep s.sendIo ((s.unpost n).complete ⟨kind, wsabufs, some (data, bOk)⟩ data bOk recv).sendIo := by
  have hfilter := filter_eraseIdx hp hle
  have hother (hkind : kind ≠ .write) : (s.unpost n).sendIo = s.sendIo := by
    rw [if_neg (by simpa using hkind)] at hfilter
    simp only [sendIo, unpost, hfilter]
  cases kind with
  | read =>
    have hio := hother (by decide)
    rw [← sendIo_readComplete data bOk] at hio
    exact hio ▸ .same
  | connect =>
    have hio := hother (by decide)
    have hconnect : ((s.unpost n).connectComplete bOk recv).sendIo = (s.unpost n).sendIo := sendIo_connectComplete bOk
    rw [← hconnect] at hio
    exact hio ▸ .same
  | write =>
    rw [if_pos (decide_eq_true rfl)] at hfilter
    obtain ⟨hone, hnone⟩ := hfilter
    have hlive : ((s.unpost n).overlapped .write).eventDestroy = false := h.not_eventDestroy halive .write
    have hio : ((s.unpost n).writeComplete data.length bOk).sendIo = { s.sendIo with
        queue := if bOk then s.sendIo.queue.drop data.length else s.sendIo.queue, writes := [] } := by
      unfold writeComplete
      rw [if_neg (by rw [hlive]; decide)]
      cases bOk with
      | false =>
        refine sendIo_callErr.trans ?_
        simp [sendIo, setPost, unpost, hnone]
      | true =>
        simp only [Bool.not_true, Bool.false_eq_true, if_false]
        split
        · simp [sendIo, setPost, unpost, hnone]
        · rw [sendIo_pushEvent]
          simp [sendIo, setPost, unpost, hnone]
    have hstep : SendStep s.sendIo _ := .completes hone
    rw [← hio] at hstep
    exact hstep

theorem sendIo_pass (h : Closed s) (hwrite : (s.io .write).Tracked) (hpass : Pass s op t) (halive : t.alive = true) :
    SendStep s.sendIo t.sendIo := by
  have hstep (hop : op ≠ .destroy) : s.alive = true := by
    rwa [(eventDestroy_pass h hpass hop .read).2] at halive
  have hle (hop : op ≠ .destroy) : s.inFlight .write ≤ 1 := ((sound_of_alive (hstep hop)).mp hwrite.sound).2
  cases hpass with
  | call hlive c =>
    cases c with
    | register centre regist recv =>
      have hio : (s.registerEvent centre regist recv).sendIo = s.sendIo := by
        unfold registerEvent
        split
        · exact sendIo_startRead
        · rfl
      exact hio ▸ .same
    | cancel =>
      have hio : (s.call .cancel).sendIo = s.sendIo := by simp [sendIo, call]
      rw [hio]
      exact .same
    | setErrCallback errcb => exact .same
    | write data room => exact sendIo_writeBuffer data room
    | read size => exact .same
    | enable ev recv =>
      have hio : (s.call (.enable ev recv)).sendIo = s.sendIo := sendIo_enableEvent ev
      rw [hio]
      exact .same
    | disable ev =>
      have hio : (s.call (.disable ev)).sendIo = s.sendIo := by simp [sendIo, call]
      rw [hio]
      exact .same
    | connect ok recv =>
      have hio : (s.call (.connect ok recv)).sendIo = s.sendIo := sendIo_connectDone ok
      rw [hio]
      exact .same
    | asyncConnect bind ret =>
      have hio : (s.call (.asyncConnect bind ret)).sendIo = s.sendIo := sendIo_asyncConnect bind ret
      rw [hio]
      exact .same
  | @handle ev evs hlive hframes hcentre hcur recv =>
    have hio : (s.handle ev recv).sendIo = s.sendIo := by
      unfold handle
      split
      · rfl
      · dsimp only
        split
        · exact sendIo_asynRead
        · rfl
    rw [hio]
    exact .same
  | @resume f frames hframes send =>
    have hlive := hstep (by simp)
    have hclosed : Closed { s with frames := frames } :=
      ⟨h.eventDestroy, fun hdead => absurd (hlive.symm.trans hdead) (by decide)⟩
    cases f with
    | asynWrite => exact sendIo_asynWrite hclosed hwrite hlive send
    | enableWrite =>
      show SendStep _ (IocpConnecter.startWrite { s with frames := frames } send).sendIo
      unfold startWrite
      split
      · exact sendIo_asynWrite hclosed hwrite hlive send
      · exact .same
    | popCurEv => exact .same
  | kernel hp hmove => exact sendIo_kernel (hle (by simp)) hp hmove
  | complete hframes hp recv => exact sendIo_complete h (hle (by simp)) (hstep (by simp)) hp
  | destroy => cases halive

end IocpConnecter

end Chaos
