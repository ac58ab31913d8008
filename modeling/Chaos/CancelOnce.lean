import Chaos.CentreRegistry

/-!
# A cancel and its deletion

`CancelEvent` queues a marker in the event's own `m_curEv` and the pointer in `m_waittingEvs`, and clears
the centre; `ProcessActiveEvent` deletes the event at an entry that finds the marker in front. The two
queues are in step for a poller event that has no other entry. A timer is activated without a marker of
its own, so its handler pops the marker of a cancel made in it, and a timer entry left from before finds
the marker of a cancel too.
-/
namespace Chaos.CancelOnce

open GuardedRuns KeyLists Timer

/-- What became of the cancels of one event: those that took effect with the event in a registry and in
none, the entries of theirs that a round has taken, the `DeleteEvent`s that decremented `m_eventsNum`, and
those of them that took the event out of its registry. -/
structure CancelLog where
  cancels : ℕ
  stray : ℕ
  consumed : ℕ
  deletes : ℕ
  counted : ℕ

structure CancelRun where
  state : CentreState
  log : ℕ → CancelLog

def CancelRun.start (fd : ℕ) : CancelRun := ⟨.start fd, fun _ => ⟨0, 0, 0, 0, 0⟩⟩

def CancelLog.cancel (l : CancelLog) (registered : Bool) : CancelLog :=
  if registered then { l with cancels := l.cancels + 1 } else { l with stray := l.stray + 1 }

/-- The entry is taken in `s`, and `t` is the state after it. -/
def CancelLog.take (l : CancelLog) (s t : CentreState) (entry : Entry) : CancelLog :=
  let counted := s.takenCancel.isSome && t.centre.eventsNum == intAdd s.centre.eventsNum (-1)
  let gone := decide (s.centre.registered entry.ev) && decide (¬ t.centre.registered entry.ev)
  { l with
    consumed := l.consumed + entry.fromCancel.toNat
    deletes := l.deletes + (counted && gone).toNat
    counted := l.counted + counted.toNat }

def logStep (log : ℕ → CancelLog) (s t : CentreState) : CentreOp → ℕ → CancelLog
  | .cancel p => if s.cancels 0 p then
      Function.update log p ((log p).cancel (decide (s.centre.registered p))) else log
  | .take => match s.centre.activeEvs.head? with
    | none => log
    | some entry => Function.update log entry.ev ((log entry.ev).take s t entry)
  | _ => log

def cancelStep (s : CancelRun) (op : CentreOp) : Option CancelRun :=
  (centreStep 1 0 s.state op).map fun t => ⟨t, logStep s.log s.state t op⟩

/-- A registration is of an event with an empty queue. -/
def registerOk (s : CentreState) (p : ℕ) : Prop :=
  ∀ e ∈ s.objs.store p, e.centre = none → e.curEv = []

/-- A cancel that takes effect is of an event that has no entry, can still be deleted, and has nothing in
its queue but, in its own handler, what is being handled. -/
def cancelOk (s : CentreState) (p : ℕ) : Prop :=
  s.cancels 0 p = true → (∀ b, s.centre.pending ⟨p, b⟩ = 0) ∧
    ∀ e ∈ s.objs.store p, (e.ev.meets ioCareEvent = true ∨ e.ev.meets timeoutCartEvent = true) ∧
      e.curEv.length = if s.centre.pc = .handling p then 1 else 0

/-- A due timer that is activated or deleted is not cancelled, and is deleted under its own key. -/
def launchOk (s : CentreState) : Prop :=
  ∀ r ∈ s.dueRoot, (r.2.isSuspend = true → r.2.isLoop = false) → r.2.centre ≠ none ∧
    (r.2.isSuspend = true → ∀ q ∈ s.centre.timer.timerMap.lookup r.2.evKey, q = r.1)

/-- `DeleteEvent` erases no other event. -/
def takeOk (s : CentreState) : Prop :=
  ∀ entry ∈ s.centre.activeEvs.head?, ∀ e ∈ s.takenCancel, ∀ q ∈ s.underKey e, q = entry.ev

def cancelRunOk (s : CancelRun) : CentreOp → Prop
  | .register p _ _ => registerOk s.state p
  | .cancel p => cancelOk s.state p
  | .launchIter _ => launchOk s.state
  | .take => takeOk s.state
  | _ => True

instance (s : CentreState) (p : ℕ) : Decidable (registerOk s p) := by
  unfold registerOk
  infer_instance

instance (s : CentreState) (p : ℕ) : Decidable (cancelOk s p) := by
  unfold cancelOk
  infer_instance

instance (s : CentreState) : Decidable (launchOk s) := by
  unfold launchOk
  infer_instance

instance (s : CentreState) : Decidable (takeOk s) := by
  unfold takeOk
  infer_instance

instance (s : CancelRun) : (op : CentreOp) → Decidable (cancelRunOk s op)
  | .register p _ _ => inferInstanceAs (Decidable (registerOk s.state p))
  | .cancel p => inferInstanceAs (Decidable (cancelOk s.state p))
  | .launchIter _ => inferInstanceAs (Decidable (launchOk s.state))
  | .take => inferInstanceAs (Decidable (takeOk s.state))
  | .object _ | .control _ | .makeWaitting | .pushActive _ _ | .handleEnd => isTrue trivial

/-- Every cancel has its entry waiting or taken; once none waits, there was exactly one deletion for each
cancel of the registered event. Each entry taken has decremented `m_eventsNum` once, and after it the
event is in no registry. -/
def CancelledOnce (s : CancelRun) (p : ℕ) : Prop :=
  (s.log p).consumed + s.state.centre.pending ⟨p, true⟩ = (s.log p).cancels + (s.log p).stray ∧
  (s.log p).deletes ≤ (s.log p).consumed ∧
  (s.state.centre.pending ⟨p, true⟩ = 0 → (s.log p).deletes = (s.log p).cancels) ∧
  (s.log p).counted = (s.log p).consumed ∧
  (0 < (s.log p).consumed → ¬ s.state.centre.registered p)

instance (s : CancelRun) (p : ℕ) : Decidable (CancelledOnce s p) := by
  unfold CancelledOnce
  infer_instance

/-! ## The phases of an event -/

/-- The object of a cancelled event whose entry waits; `handled` is whether its handler is running. -/
structure CancelledObject (handled : Prop) (e : Event) : Prop where
  centre : e.centre = none
  mask : e.ev.meets ioCareEvent = true ∨ e.ev.meets timeoutCartEvent = true
  queue : ¬ handled → e.curEv = [evCancel]
  handled : handled → ∃ v : EvMask, v.meets evCancel = false ∧ e.curEv = [v, evCancel]

inductive CancelPhase (s : CentreState) (p : ℕ) : CancelLog → Prop
  | live (hpending : s.centre.pending ⟨p, true⟩ = 0)
    (hobj : ∀ e, s.objs.store p = some e → ∀ v ∈ e.curEv, v.meets evCancel = false) :
    CancelPhase s p ⟨0, 0, 0, 0, 0⟩
  | cancelled {cancels stray : ℕ}
    (hlog : cancels = 1 ∧ stray = 0 ∧ s.centre.registered p ∨
      cancels = 0 ∧ stray = 1 ∧ ¬ s.centre.registered p)
    (htrue : s.centre.pending ⟨p, true⟩ = 1) (hfalse : s.centre.pending ⟨p, false⟩ = 0)
    (hobj : ∀ e, s.objs.store p = some e → CancelledObject (s.centre.pc = .handling p) e) :
    CancelPhase s p ⟨cancels, stray, 0, 0, 0⟩
  | deleted {cancels stray : ℕ} (hlog : cancels = 1 ∧ stray = 0 ∨ cancels = 0 ∧ stray = 1)
    (hreg : ¬ s.centre.registered p) (hpending : ∀ b, s.centre.pending ⟨p, b⟩ = 0)
    (hpc : s.centre.pc ≠ .handling p) (hbelow : p < s.objs.fresh)
    (hobj : ∀ e, s.objs.store p = some e → e.centre = none ∧ e.curEv = [evCancel]) :
    CancelPhase s p ⟨cancels, stray, 1, cancels, 1⟩

theorem CancelPhase.unmoved {s t : CentreState} {p : ℕ} {l : CancelLog} (h : CancelPhase s p l)
    (hu : Unmoved s t p) (hfresh : s.objs.fresh ≤ t.objs.fresh) : CancelPhase t p l := by
  cases h with
  | live hpending hobj =>
    refine .live ((hu.pending true).trans hpending) fun e' he' => ?_
    obtain ⟨e, he, hsame⟩ := hu.kept e' he'
    rw [hsame.curEv]
    exact hobj e he
  | cancelled hlog htrue hfalse hobj =>
    refine .cancelled ?_ ((hu.pending true).trans htrue) ((hu.pending false).trans hfalse) ?_
    · rwa [hu.registered]
    · intro e' he'
      obtain ⟨e, he, hsame⟩ := hu.kept e' he'
      have hold := hobj e he
      refine ⟨hsame.centre.trans hold.centre, ?_, ?_, ?_⟩
      · rw [hsame.mask hold.centre]
        exact hold.mask
      · rw [hsame.curEv, hu.handling]
        exact hold.queue
      · rw [hsame.curEv, hu.handling]
        exact hold.handled
  | deleted hlog hreg hpending hpc hbelow hobj =>
    refine .deleted hlog ?_ (fun b => (hu.pending b).trans (hpending b)) ?_ (hbelow.trans_le hfresh) ?_
    · rwa [hu.registered]
    · rwa [Ne, hu.handling]
    · intro e' he'
      obtain ⟨e, he, hsame⟩ := hu.kept e' he'
      rw [hsame.centre, hsame.curEv]
      exact hobj e he

/-- An event with a centre is not cancelled. -/
theorem CancelPhase.live_of_centre {s : CentreState} {p : ℕ} {l : CancelLog} {e : Event}
    (h : CancelPhase s p l) (he : s.objs.store p = some e) (hc : e.centre ≠ none) :
    l = ⟨0, 0, 0, 0, 0⟩ ∧ s.centre.pending ⟨p, true⟩ = 0 ∧ ∀ v ∈ e.curEv, v.meets evCancel = false := by
  cases h with
  | live hpending hobj => exact ⟨rfl, hpending, hobj e he⟩
  | cancelled hlog htrue hfalse hobj => exact absurd (hobj e he).centre hc
  | deleted hlog hreg hpending hpc hbelow hobj => exact absurd (hobj e he).1 hc

/-! ## Cancels and registrations -/

section Step
variable {s t : CentreState} {p : ℕ} {l : CancelLog}

theorem CancelPhase.create (h : CancelPhase s s.objs.fresh l) (hinv : RegistryInv s) (ev : EvMask)
    (evKey timeoutMs clk : ℕ) (isLoop : Bool) :
    CancelPhase { s with objs := s.objs.create (newEvent ev evKey timeoutMs clk isLoop) }
      s.objs.fresh l := by
  cases h with
  | live hpending hobj =>
    refine .live hpending fun e he => ?_
    simp only [Objects.create, Function.update_self, Option.some.injEq] at he
    subst he
    simp [newEvent]
  | cancelled hlog htrue hfalse hobj =>
    have huse : InUse s s.objs.fresh := .entry (b := true) (by omega)
    exact absurd (hinv.below _ huse) (lt_irrefl _)
  | deleted hlog hreg hpending hpc hbelow hobj => exact absurd hbelow (lt_irrefl _)

/-- An event with an empty queue has no cancel behind it. -/
theorem CancelPhase.register {e : Event} (h : CancelPhase s p l) (he : s.objs.store p = some e)
    (hcur : e.curEv = []) (hpending : t.centre.pending ⟨p, true⟩ = s.centre.pending ⟨p, true⟩)
    (ht : ∀ e', t.objs.store p = some e' → e'.curEv = e.curEv) : CancelPhase t p l := by
  cases h with
  | live hnone hobj =>
    refine .live (hpending.trans hnone) fun e' he' => ?_
    rw [ht e' he', hcur]
    exact List.forall_mem_nil _
  | cancelled hlog htrue hfalse hobj =>
    have hold := hobj e he
    by_cases hpc : s.centre.pc = .handling p
    · obtain ⟨v, _, hqueue⟩ := hold.handled hpc
      simp [hqueue] at hcur
    · simp [hold.queue hpc] at hcur
  | deleted hlog hreg hpending hpc hbelow hobj => simp [(hobj e he).2] at hcur

theorem registered_curEv {e : Event} {keep : Bool} (he : s.objs.store p = some e) :
    (∀ e', ((s.registeredIo 0 p e).afterRegister p keep).objs.store p = some e' → e'.curEv = e.curEv) ∧
      ∀ e', ((s.registeredTimer 0 p e).afterRegister p keep).objs.store p = some e' →
        e'.curEv = e.curEv := by
  have hset (u : CentreState) (hu : u.objs.store p = some { e with centre := some 0 }) (e' : Event)
      (he' : (u.afterRegister p keep).objs.store p = some e') : e'.curEv = e.curEv := by
    obtain ⟨e₂, he₂, hsame⟩ := afterRegister_kept e' he'
    obtain rfl := Option.some.inj (hu.symm.trans he₂)
    exact hsame.curEv
  exact ⟨hset _ (registeredIo_store he), hset _ (registeredTimer_store he)⟩

theorem CancelPhase.cancel {e : Event} (h : CancelPhase s p l) (he : s.objs.store p = some e)
    (hc : e.centre = some 0) (hok : cancelOk s p) :
    CancelPhase (s.afterCancel p) p (l.cancel (decide (s.centre.registered p))) := by
  obtain ⟨rfl, _, hqueue⟩ := h.live_of_centre he (by simp [hc])
  obtain ⟨hpending, hobj⟩ := hok (CentreState.cancels_eq he hc)
  obtain ⟨hmask, hlen⟩ := hobj e he
  have hpush (b : Bool) := afterCancel_pending (s := s) p ⟨p, b⟩
  have hobj' (e' : Event) (he' : (s.afterCancel p).objs.store p = some e') :
      CancelledObject (s.centre.pc = .handling p) e' := by
    rw [CentreState.afterCancel, Objects.setCentre, Objects.modify_self, Objects.modify_self, he] at he'
    obtain rfl := Option.some.inj he'
    refine ⟨rfl, hmask, fun hpc => ?_, fun hpc => ?_⟩
    · rw [if_neg hpc] at hlen
      simp [Event.pushCurEv, List.length_eq_zero_iff.mp hlen]
    · rw [if_pos hpc] at hlen
      obtain ⟨v, hv⟩ := List.length_eq_one_iff.mp hlen
      exact ⟨v, hqueue v (by simp [hv]), by simp [Event.pushCurEv, hv]⟩
  by_cases hreg : s.centre.registered p
  · rw [CancelLog.cancel, if_pos (by simp [hreg])]
    refine .cancelled (Or.inl ⟨rfl, rfl, hreg⟩) ?_ ?_ hobj'
    · simpa [hpending true] using hpush true
    · simpa [hpending false] using hpush false
  · rw [CancelLog.cancel, if_neg (by simp [hreg])]
    refine .cancelled (Or.inr ⟨rfl, rfl, hreg⟩) ?_ ?_ hobj'
    · simpa [hpending true] using hpush true
    · simpa [hpending false] using hpush false

/-! ## Activations -/

theorem CancelPhase.pushActive {e : Event} {ev : EvMask} (h : CancelPhase s p l)
    (he : s.objs.store p = some e) (hc : e.centre = some 0) (hio : ev &&& ~~~ioCareEvent = 0#16) :
    CancelPhase (s.afterPush p ev) p l := by
  obtain ⟨rfl, hpending, hqueue⟩ := h.live_of_centre he (by simp [hc])
  have hev : ev.meets evCancel = false := meets_of_io hio
  refine .live ?_ fun e' he' => ?_
  · rw [afterPush_pending, hpending]
    simp
  · rw [CentreState.afterPush, Objects.modify_self, he] at he'
    obtain rfl := Option.some.inj he'
    intro v hv
    rcases List.mem_append.mp hv with hv | hv
    · exact hqueue v hv
    · obtain rfl := List.mem_singleton.mp hv
      exact hev

theorem CancelPhase.launch {now clk : ℕ} {m : LaunchState} {e : Event} (h : CancelPhase s p l)
    (he : s.objs.store p = some e) (hc : e.centre ≠ none)
    (hm : LaunchPass now clk ⟨s.objs, s.centre.timer, []⟩ m) : CancelPhase (s.afterPass m) p l := by
  obtain ⟨rfl, hpending, hqueue⟩ := h.live_of_centre he hc
  refine .live ?_ fun e' he' => ?_
  · have hnone : (m.active.map fun q => (⟨q, false⟩ : Entry)).count ⟨p, true⟩ = 0 := by
      apply List.count_eq_zero_of_not_mem
      simp
    rw [afterPass_pending, hpending, hnone]
  · obtain ⟨e₂, he₂, hsame⟩ := launchPass_kept hm p e' he'
    obtain rfl := Option.some.inj (he.symm.trans he₂)
    rwa [hsame.curEv]

/-! ## The round -/

/-- An event that is taken without a marker in front is not cancelled, and its entry is not a
cancel's. -/
theorem CancelPhase.taken {entry : Entry} {rest : List Entry} {e : Event} (h : CancelPhase s entry.ev l)
    (hpc : s.centre.pc = .process) (hact : s.centre.activeEvs = entry :: rest)
    (he : s.objs.store entry.ev = some e) (hfront : e.getCurEv.meets evCancel = false)
    (hpending : t.centre.pending ⟨entry.ev, true⟩ = (s.withActive rest).centre.pending ⟨entry.ev, true⟩)
    (hcur : ∀ e', t.objs.store entry.ev = some e' → ∀ v ∈ e'.curEv, v ∈ e.curEv) :
    CancelPhase t entry.ev (l.take s t entry) := by
  have hrest (b : Bool) := pending_rest hact ⟨entry.ev, b⟩
  cases h with
  | live hzero hobj =>
    have hone := hrest true
    rw [hzero] at hone
    have hsource : entry.fromCancel = false := by
      apply Bool.eq_false_iff.mpr
      intro htrue
      have heq : entry = ⟨entry.ev, true⟩ := by rw [← htrue]
      rw [if_pos heq] at hone
      omega
    have htake : CancelLog.take ⟨0, 0, 0, 0, 0⟩ s t entry = ⟨0, 0, 0, 0, 0⟩ := by
      simp [CancelLog.take, CentreState.takenCancel_eq_none hact he hfront, hsource]
    rw [htake]
    refine .live (by omega) fun e' he' v hv => ?_
    exact hobj e he v (hcur e' he' v hv)
  | cancelled hlog htrue hfalse hobj =>
    have hqueue := (hobj e he).queue (by simp [hpc])
    rw [Event.getCurEv, hqueue] at hfront
    exact absurd hfront (by decide)
  | deleted hlog hreg hnone hpc hbelow hobj =>
    have hone := hrest entry.fromCancel
    rw [hnone entry.fromCancel, if_pos rfl] at hone
    omega

/-- Its queue is as before. -/
theorem CancelPhase.takenKept {entry : Entry} {rest : List Entry} {e : Event} (h : CancelPhase s entry.ev l)
    (hpc : s.centre.pc = .process) (hact : s.centre.activeEvs = entry :: rest)
    (he : s.objs.store entry.ev = some e) (hfront : e.getCurEv.meets evCancel = false)
    (hpending : t.centre.pending ⟨entry.ev, true⟩ = (s.withActive rest).centre.pending ⟨entry.ev, true⟩)
    (hstore : t.objs.store entry.ev = s.objs.store entry.ev) : CancelPhase t entry.ev (l.take s t entry) := by
  refine h.taken hpc hact he hfront hpending fun e' he' v hv => ?_
  obtain rfl := Option.some.inj (he.symm.trans (hstore.symm.trans he'))
  exact hv

theorem deleteEvent_eventsNum {e : Event}
    (hmask : e.ev.meets ioCareEvent = true ∨ e.ev.meets timeoutCartEvent = true) :
    (s.deleteEvent e).centre.eventsNum = intAdd s.centre.eventsNum (-1) := by
  rw [CentreState.deleteEvent]
  split_ifs with hio htimeout
  · rfl
  · rfl
  · exact absurd hmask (by simp [hio, htimeout])

theorem CancelPhase.delete {entry : Entry} {rest : List Entry} {e : Event}
    (h : CancelPhase s entry.ev l) (hinv : RegistryInv s) (hpc : s.centre.pc = .process)
    (hact : s.centre.activeEvs = entry :: rest) (he : s.objs.store entry.ev = some e)
    (hfront : e.getCurEv.meets evCancel = true) :
    CancelPhase ((s.withActive rest).deleteEvent e) entry.ev
      (l.take s ((s.withActive rest).deleteEvent e) entry) := by
  have hrest (b : Bool) := pending_rest hact ⟨entry.ev, b⟩
  cases h with
  | live hpending hobj =>
    obtain ⟨v, hv, hmeets⟩ := getCurEv_meets hfront
    rw [hobj e he v hv] at hmeets
    cases hmeets
  | @cancelled cancels stray hlog htrue hfalse hobj =>
    have hold := hobj e he
    have hgone : ¬ ((s.withActive rest).deleteEvent e).centre.registered entry.ev :=
      not_registered_deleteEvent (fun k hmem => hinv.eventKey k _ hmem e he)
        (fun k hmem => hinv.timerKey k _ hmem e he) hold.mask
    have hnum : ((s.withActive rest).deleteEvent e).centre.eventsNum = intAdd s.centre.eventsNum (-1) :=
      deleteEvent_eventsNum (s := s.withActive rest) hold.mask
    have hsource : entry.fromCancel = true := by
      by_contra hne
      have heq : entry = ⟨entry.ev, false⟩ := by rw [← Bool.eq_false_iff.mpr hne]
      have hzero := hrest false
      rw [if_pos heq, hfalse] at hzero
      omega
    have heq : entry = ⟨entry.ev, true⟩ := by rw [← hsource]
    have hpending (b : Bool) :
        ((s.withActive rest).deleteEvent e).centre.pending ⟨entry.ev, b⟩ = 0 := by
      rw [CentreState.deleteEvent_pending]
      have hone := hrest b
      cases b with
      | false => omega
      | true =>
        rw [if_pos heq, htrue] at hone
        omega
    have htake : CancelLog.take ⟨cancels, stray, 0, 0, 0⟩ s ((s.withActive rest).deleteEvent e) entry =
        ⟨cancels, stray, 1, cancels, 1⟩ := by
      have htaken := CentreState.takenCancel_eq hact he hfront
      rcases hlog with ⟨rfl, rfl, hreg⟩ | ⟨rfl, rfl, hreg⟩ <;>
        simp [CancelLog.take, htaken, hnum, hgone, hreg, hsource]
    rw [htake]
    refine .deleted ?_ hgone hpending ?_ ?_ fun e' he' => ?_
    · rcases hlog with ⟨hone, hzero, _⟩ | ⟨hone, hzero, _⟩
      · exact Or.inl ⟨hone, hzero⟩
      · exact Or.inr ⟨hone, hzero⟩
    · simp [CentreState.withActive, hpc]
    · rw [deleteEvent_fresh]
      exact hinv.below _ (.alive he)
    · obtain ⟨e₂, he₂, hsame⟩ := deleteEvent_kept (s := s.withActive rest) e e' he'
      obtain rfl := Option.some.inj (he.symm.trans he₂)
      exact ⟨hsame.centre.trans hold.centre, hsame.curEv.trans (hold.queue (by simp [hpc]))⟩
  | deleted hlog hreg hpending hpc hbelow hobj =>
    have hone := hrest entry.fromCancel
    rw [hpending entry.fromCancel, if_pos rfl] at hone
    omega

theorem CancelPhase.handleEnd {e : Event} (h : CancelPhase s p l) (hpc : s.centre.pc = .handling p)
    (he : s.objs.store p = some e) :
    CancelPhase { objs := s.objs.modify p Event.popCurEv, centre := { s.centre with pc := .process } }
      p l := by
  have hpop {e' : Event} (he' : (s.objs.modify p Event.popCurEv).store p = some e') :
      e' = e.popCurEv := by
    rw [Objects.modify_self, he] at he'
    exact (Option.some.inj he').symm
  cases h with
  | live hpending hobj =>
    refine .live hpending fun e' he' v hv => ?_
    rw [hpop he'] at hv
    exact hobj e he v (List.mem_of_mem_tail hv)
  | cancelled hlog htrue hfalse hobj =>
    have hold := hobj e he
    obtain ⟨v, _, hqueue⟩ := hold.handled hpc
    refine .cancelled hlog htrue hfalse fun e' he' => ?_
    rw [hpop he']
    refine ⟨hold.centre, hold.mask, fun _ => ?_, fun hpc' => by cases hpc'⟩
    simp [Event.popCurEv, hqueue]
  | deleted hlog hreg hpending hpc' hbelow hobj => exact absurd hpc hpc'

end Step

/-! ## Runs -/

structure CancelInv (s : CancelRun) : Prop where
  registry : RegistryInv s.state
  phase : ∀ p, CancelPhase s.state p (s.log p)

theorem logStep_take {log : ℕ → CancelLog} {s t : CentreState} {entry : Entry} {rest : List Entry}
    (hact : s.centre.activeEvs = entry :: rest) :
    logStep log s t .take entry.ev = (log entry.ev).take s t entry := by
  simp [logStep, hact]

theorem logStep_of_not_aims {log : ℕ → CancelLog} {s t : CentreState} {op : CentreOp} {q : ℕ}
    (hq : ¬ Aims s q op) : logStep log s t op q = log q := by
  cases op with
  | cancel p =>
    simp only [logStep]
    split_ifs
    · exact Function.update_of_ne hq ..
    · rfl
  | take =>
    cases hact : s.centre.activeEvs with
    | nil => simp [logStep, hact]
    | cons entry rest =>
      have hne := (not_aims_take hact hq).1
      simp [logStep, hact, hne]
  | _ => rfl

theorem aims_take {s : CentreState} {entry : Entry} {rest : List Entry} {q : ℕ} (hok : takeOk s)
    (hact : s.centre.activeEvs = entry :: rest) (hq : Aims s q .take) : q = entry.ev := by
  have hhead : s.centre.activeEvs.head? = some entry := by simp [hact]
  obtain ⟨entry', hhead', rfl | ⟨e, he, hunder⟩⟩ := hq
  · rw [Option.some.inj (hhead.symm.trans hhead')]
  · exact hok entry hhead e he q hunder

/-- The event that a step aims at. -/
theorem CancelInv.aimed {s : CancelRun} {op : CentreOp} {t : CentreState} {q : ℕ} (h : CancelInv s)
    (hok : cancelRunOk s op) (ht : CentrePass 1 0 s.state op t) (hq : Aims s.state q op) :
    CancelPhase t q (logStep s.log s.state t op q) := by
  have hphase := h.phase q
  cases ht with
  | object hobj =>
    cases hobj with
    | create =>
      obtain rfl := hq
      exact hphase.create h.registry _ _ _ _ _
    | drop hp => exact hq.elim
    | modify hp hsame => exact hphase.unmoved (.of_objs (.modify hsame q)) le_rfl
  | control hc => exact hq.elim
  | @refused p keep registFd hp =>
    exact hphase.unmoved unmoved_afterRegister (afterRegister_fresh s.state p keep).ge
  | registerIo hp hheld he hc hio hkey =>
    obtain rfl := hq
    refine hphase.register he (hok _ he hc) ?_ (registered_curEv he).1
    rw [CentreState.afterRegister_centre]
    rfl
  | registerTimer hp hheld he hc htimer hkey =>
    obtain rfl := hq
    refine hphase.register he (hok _ he hc) ?_ (registered_curEv he).2
    rw [CentreState.afterRegister_centre]
    rfl
  | ignored hnot =>
    simp only [logStep, hnot, Bool.false_eq_true, if_false]
    exact hphase
  | unmarked he hm =>
    rw [h.registry.mask _ _ he] at hm
    cases hm
  | cancel hp hpc he hc =>
    obtain rfl := hq
    simp only [logStep, CentreState.cancels_eq he hc, if_true, Function.update_self]
    exact hphase.cancel he hc hok
  | makeWaitting hpc => exact hq.elim
  | notActive => exact hphase
  | pushActive hpc hio hfd he hc =>
    obtain rfl := Option.some.inj (hfd.symm.trans hq)
    exact hphase.pushActive he hc hio
  | launch hpc hl =>
    obtain ⟨r, hr, hnot, hor⟩ := hq
    obtain ⟨hc, hkey⟩ := hok r hr hnot
    obtain ⟨_, _, _, he, _⟩ := CentreState.mem_dueRoot hr
    have hroot : q = r.1 := by
      rcases hor with hroot | ⟨hsuspend, hlookup⟩
      · exact hroot
      · exact hkey hsuspend q hlookup
    subst hroot
    exact hphase.launch he hc hl
  | delete hpc hact he hfront =>
    obtain rfl := aims_take hok hact hq
    rw [logStep_take hact]
    exact hphase.delete h.registry hpc hact he hfront
  | skip hpc hact he hfront hc =>
    obtain rfl := aims_take hok hact hq
    rw [logStep_take hact]
    exact hphase.takenKept hpc hact he hfront rfl rfl
  | @wakeUp entry rest e hpc hact he hfront hself =>
    obtain rfl := aims_take hok hact hq
    rw [logStep_take hact]
    refine hphase.taken hpc hact he hfront rfl fun e' he' v hv => ?_
    rw [Objects.modify_self, he] at he'
    obtain rfl := Option.some.inj he'
    exact List.mem_of_mem_tail hv
  | handle hpc hact he hfront hc hself =>
    obtain rfl := aims_take hok hact hq
    rw [logStep_take hact]
    exact hphase.takenKept hpc hact he hfront rfl rfl
  | handleEnd hpc he =>
    obtain rfl := LoopPc.handling.inj (hpc.symm.trans hq)
    exact hphase.handleEnd hpc he

/-- The step lemma. -/
theorem cancelInv_step {s t : CancelRun} {op : CentreOp} (h : CancelInv s) (hok : cancelRunOk s op)
    (ht : cancelStep s op = some t) : CancelInv t := by
  obtain ⟨u, hu, rfl⟩ := Option.map_eq_some_iff.mp ht
  have hpass := centrePass_of_centreStep hu
  refine ⟨registryInv_step h.registry hpass, fun q => ?_⟩
  by_cases haim : Aims s.state q op
  · exact h.aimed hok hpass haim
  · have hlog : logStep s.log s.state u op q = s.log q := logStep_of_not_aims haim
    have hunmoved := unmoved_step h.registry.events h.registry.timers hpass haim
    show CancelPhase u q (logStep s.log s.state u op q)
    rw [hlog]
    exact (h.phase q).unmoved hunmoved (fresh_step hpass)

theorem cancelInv_start (fd : ℕ) : CancelInv (.start fd) := by
  refine ⟨registryInv_start fd, fun p => .live rfl fun e he => ?_⟩
  obtain ⟨_, rfl⟩ := store_start he
  exact List.forall_mem_nil _

theorem CancelPhase.once {s : CancelRun} {p : ℕ} (h : CancelPhase s.state p (s.log p)) :
    CancelledOnce s p := by
  rw [CancelledOnce]
  generalize s.log p = l at h
  cases h with
  | live hpending hobj => simp [hpending]
  | @cancelled cancels stray hlog htrue hfalse hobj =>
    have hone : cancels + stray = 1 := by
      rcases hlog with ⟨hcancels, hstray, _⟩ | ⟨hcancels, hstray, _⟩ <;> rw [hcancels, hstray]
    simp [htrue, hone]
  | deleted hlog hreg hpending hpc hbelow hobj =>
    rcases hlog with ⟨rfl, rfl⟩ | ⟨rfl, rfl⟩ <;> simp [hpending true, hreg]

/-- In a run that meets `cancelRunOk` at every step every cancel of a registered event has exactly one
deletion. -/
theorem cancelled_once {fd : ℕ} {ops : List CentreOp} {s : CancelRun}
    (hg : Guarded cancelStep cancelRunOk (.start fd) ops)
    (hs : exec cancelStep (.start fd) ops = some s) (p : ℕ) : CancelledOnce s p := by
  have hinv : CancelInv s :=
    invariant_of_guarded (fun _ _ _ => cancelInv_step) (cancelInv_start fd) hg hs
  exact (hinv.phase p).once

/-- A poller event cancels itself and a timer that is not due, and a third event is cancelled between
the rounds. -/
def cancelSample : List CentreOp :=
  [.object (.create evIoread 20 0 0 false), .register 1 true true,
    .object (.create evTimeout 1 5 0 true), .register 2 true true,
    .object (.create evIoread 21 0 0 false), .register 3 true true,
    .control .start, .makeWaitting, .control (.calcTimeout 0), .control .pollReturn,
    .pushActive 20 evIoread, .control (.launchBegin 3), .control .launchEnd, .control .processBegin,
    .take, .cancel 1, .cancel 2, .handleEnd, .control .processEnd, .cancel 3,
    .makeWaitting, .control (.calcTimeout 4), .control .pollReturn, .control (.launchBegin 4),
    .control .launchEnd, .control .processBegin, .take, .take]

def cancelSampleEnd : CancelRun := (exec cancelStep (.start 3) cancelSample).get (by decide +kernel)

theorem cancelled_once_sample : CancelledOnce cancelSampleEnd 1 ∧ CancelledOnce cancelSampleEnd 2 := by
  have hrun := cancelled_once
    (show Guarded cancelStep cancelRunOk (.start 3) cancelSample by decide +kernel)
    (show exec cancelStep (.start 3) cancelSample = some cancelSampleEnd from (Option.some_get _).symm)
  exact ⟨hrun 1, hrun 2⟩

/-- A timer that cancels itself: its handler pops the marker, and the entry finds none. -/
theorem not_cancelled_once :
    ¬ ∀ (fd : ℕ) (ops : List CentreOp) (s : CancelRun),
      exec cancelStep (.start fd) ops = some s → ∀ p, CancelledOnce s p := by
  intro h
  have hrun := h 3 [.object (.create evTimeout 1 5 0 true), .register 1 true true, .control .start,
    .makeWaitting, .control (.calcTimeout 0), .control .pollReturn, .control (.launchBegin 10),
    .launchIter 10, .control .launchEnd, .control .processBegin, .take, .cancel 1, .handleEnd,
    .control .processEnd, .makeWaitting, .control (.calcTimeout 11), .control .pollReturn,
    .control (.launchBegin 11), .control .launchEnd, .control .processBegin, .take] _
    (Option.some_get (by decide +kernel)).symm 1
  revert hrun
  decide +kernel

end Chaos.CancelOnce
