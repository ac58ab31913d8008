import Chaos.WorldRegistry
import Mathlib.Algebra.Order.BigOperators.Group.Finset

/-!
# Events that are registered again

`m_curEv` belongs to the event and not to a registration of it: the cancel branch of
`ProcessActiveEvent` leaves the marker in front, and `RegisterEvent` does not look at the queue. The
marker of a poller event stays, since its handler pops what the poller has pushed. A timer is activated
without an entry in its queue, so a handler that returns after a cancel pops the marker.
-/
namespace Chaos.EventRestarts

open GuardedRuns EventCounters Timer

/-- For one event: whether a cancel has taken effect, whether a handler of it has returned since the last
one, and what was in its queue when `RegisterEvent` last took it in. -/
structure RestartLog where
  cancelled : Bool
  returned : Bool
  left : List EvMask

structure RestartRun (n : ℕ) where
  world : World n
  log : ℕ → RestartLog

def RestartRun.start {n : ℕ} (fds : ℕ → ℕ) (pool : List (Fin n)) : RestartRun n :=
  ⟨.start fds pool, fun _ => ⟨false, false, []⟩⟩

/-- The queue of the event at `p`. -/
def queueAt (o : Objects) (p : ℕ) : List EvMask :=
  match o.store p with
  | none => []
  | some e => e.curEv

def logStep (log : ℕ → RestartLog) (s : CentreState) (self : ℕ) : CentreOp → ℕ → RestartLog
  | .register p _ registFd => if (s.registerEvent self p registFd).isSome then
      Function.update log p { log p with left := queueAt s.objs p } else log
  | .cancel p => if s.cancels self p then
      Function.update log p { log p with cancelled := true, returned := false } else log
  | .handleEnd => match s.centre.pc with
    | .handling p => Function.update log p { log p with returned := true }
    | _ => log
  | _ => log

/-- An event that was cancelled is only registered again when it is a timer of which a handler has
returned since. -/
def registerOk (log : ℕ → RestartLog) (s : CentreState) (self : ℕ) : CentreOp → Prop
  | .register p _ registFd => (s.registerEvent self p registFd).isSome = true →
      (log p).cancelled = true → ∀ e ∈ s.objs.store p, onTimer e.ev = true ∧ (log p).returned = true
  | _ => True

section
variable {n : ℕ}

def restartStep (w : RestartRun n) (op : WorldOp n) : Option (RestartRun n) :=
  (acting w.world op).bind fun r => (centreStep n r.1 (w.world.at r.1) r.2).map fun t =>
    ⟨w.world.set r.1 t, logStep w.log (w.world.at r.1) r.1 r.2⟩

def restartOk (w : RestartRun n) (op : WorldOp n) : Prop :=
  ∀ r ∈ acting w.world op, registerOk w.log (w.world.at r.1) r.1 r.2

/-- The log is beside the run. -/
theorem restartStep_world (w : RestartRun n) (op : WorldOp n) :
    (restartStep w op).map RestartRun.world = worldStep w.world op := by
  rw [worldStep_eq, restartStep]
  cases acting w.world op with
  | none => rfl
  | some r => simp only [Option.bind_some, Option.map_map, Function.comp_def]

theorem restartStep_cases {w v : RestartRun n} {op : WorldOp n} (h : restartStep w op = some v) :
    ∃ i cop t, acting w.world op = some (i, cop) ∧ centreStep n i (w.world.at i) cop = some t ∧
      v = ⟨w.world.set i t, logStep w.log (w.world.at i) i cop⟩ := by
  obtain ⟨⟨i, cop⟩, hacting, hstep⟩ := Option.bind_eq_some_iff.mp h
  obtain ⟨t, ht, rfl⟩ := Option.map_eq_some_iff.mp hstep
  exact ⟨i, cop, t, hacting, ht, rfl⟩

/-- A round of the centre `i` is about to take an entry of `p`. -/
def takesNext (w : World n) (i : Fin n) (p : ℕ) : Prop :=
  (w.centres i).pc = .process ∧ (w.centres i).activeEvs.head?.map Entry.ev = some p

/-- The centre `i` calls `Handle` of `p` next. -/
def handlesNext (w : World n) (i : Fin n) (p : ℕ) : Prop :=
  ∃ v ∈ worldStep w (.centre i .take), (v.centres i).pc = .handling p

/-- An event that was cancelled has been registered again with an empty queue, and from then to a new
cancel every entry of it that a round takes goes to `Handle`, and none to `DeleteEvent`. -/
def RestartsCleanAt (w : RestartRun n) (p : ℕ) : Prop :=
  (w.log p).cancelled = true → (w.log p).left = [] ∧
    ∀ e ∈ w.world.objs.store p, e.centre ≠ none →
      (∀ v ∈ e.curEv, v.meets evCancel = false) ∧ ∀ i, takesNext w.world i p → handlesNext w.world i p

def RestartsClean (w : RestartRun n) : Prop := ∀ p, RestartsCleanAt w p

instance (log : ℕ → RestartLog) (s : CentreState) (self : ℕ) :
    (op : CentreOp) → Decidable (registerOk log s self op)
  | .register p _ registFd => inferInstanceAs (Decidable ((s.registerEvent self p registFd).isSome = true →
      (log p).cancelled = true → ∀ e ∈ s.objs.store p, onTimer e.ev = true ∧ (log p).returned = true))
  | .object _ | .control _ | .cancel _ | .makeWaitting | .pushActive _ _ | .launchIter _ | .take
  | .handleEnd => isTrue trivial

instance (w : RestartRun n) (op : WorldOp n) : Decidable (restartOk w op) := by
  unfold restartOk
  infer_instance

instance (w : World n) (i : Fin n) (p : ℕ) : Decidable (takesNext w i p) := by
  unfold takesNext
  infer_instance

instance (w : World n) (i : Fin n) (p : ℕ) : Decidable (handlesNext w i p) := by
  unfold handlesNext
  infer_instance

instance (w : RestartRun n) (p : ℕ) : Decidable (RestartsCleanAt w p) := by
  unfold RestartsCleanAt
  infer_instance

end

/-! ## The phases of an event -/

/-- With `activations` entries in the queues of the centres or in a handler, and with `handlers` handlers
running. A poller event that is not cancelled has a mask in its queue for each of the first. -/
inductive EventPhase (activations handlers : ℕ) (e : Event) (l : RestartLog) : Prop
  | timer (hmask : onTimer e.ev = true) (hqueue : e.curEv = [])
    (hlog : e.centre = none → l.cancelled = true → l.returned = true)
  | timerCancelled (hmask : onTimer e.ev = true) (hc : e.centre = none) (hcancelled : l.cancelled = true)
    (hreturned : l.returned = false) (hqueue : e.curEv = [evCancel])
  | poller (hmask : onTimer e.ev = false) (hlog : l.cancelled = false)
    (hqueue : activations ≤ e.curEv.length) (hnew : e.centre = none → e.curEv = [])
    (hlive : ∀ v ∈ e.curEv, v.meets evCancel = false)
  | pollerCancelled (hmask : onTimer e.ev = false) (hc : e.centre = none) (hlog : l.cancelled = true)
    (hqueue : handlers < e.curEv.length)

namespace EventPhase

variable {activations handlers activations' handlers' : ℕ} {e e' : Event} {l : RestartLog}

theorem mono (h : EventPhase activations handlers e l) (hsame : SameUse e e')
    (ha : activations' ≤ activations) (hh : handlers' ≤ handlers) :
    EventPhase activations' handlers' e' l := by
  cases h with
  | timer hmask hqueue hlog =>
    refine .timer (hsame.onTimer.trans hmask) (hsame.curEv.trans hqueue) fun hc => hlog ?_
    exact hsame.centre.symm.trans hc
  | timerCancelled hmask hc hcancelled hreturned hqueue =>
    exact .timerCancelled (hsame.onTimer.trans hmask) (hsame.centre.trans hc) hcancelled hreturned
      (hsame.curEv.trans hqueue)
  | poller hmask hlog hqueue hnew hlive =>
    refine .poller (hsame.onTimer.trans hmask) hlog ?_ ?_ ?_
    · rw [hsame.curEv]
      exact ha.trans hqueue
    · rw [hsame.curEv, hsame.centre]
      exact hnew
    · rw [hsame.curEv]
      exact hlive
  | pollerCancelled hmask hc hlog hqueue =>
    refine .pollerCancelled (hsame.onTimer.trans hmask) (hsame.centre.trans hc) hlog ?_
    rw [hsame.curEv]
    exact hh.trans_lt hqueue

theorem queue_empty (h : EventPhase activations handlers e l) (hc : e.centre = none)
    (hok : l.cancelled = true → onTimer e.ev = true ∧ l.returned = true) : e.curEv = [] := by
  cases h with
  | timer hmask hqueue hlog => exact hqueue
  | timerCancelled hmask hc hcancelled hreturned hqueue =>
    rw [(hok hcancelled).2] at hreturned
    cases hreturned
  | poller hmask hlog hqueue hnew hlive => exact hnew hc
  | pollerCancelled hmask hc hlog hqueue =>
    rw [(hok hlog).1] at hmask
    cases hmask

theorem ok_of_queue_empty (h : EventPhase activations handlers e l) (hc : e.centre = none)
    (hcancelled : l.cancelled = true) (hqueue : e.curEv = []) :
    onTimer e.ev = true ∧ l.returned = true := by
  cases h with
  | timer hmask _ hlog => exact ⟨hmask, hlog hc hcancelled⟩
  | timerCancelled _ _ _ _ hmarker => simp [hqueue] at hmarker
  | poller _ hlog => simp [hlog] at hcancelled
  | pollerCancelled _ _ _ hlength => simp [hqueue] at hlength

/-- A registration leaves the queue as it is. -/
theorem register (h : EventPhase activations handlers e l)
    (hok : l.cancelled = true → onTimer e.ev = true ∧ l.returned = true) (self : ℕ) (left : List EvMask) :
    EventPhase activations handlers { e with centre := some self } { l with left := left } := by
  cases h with
  | timer hmask hqueue hlog => exact .timer hmask hqueue nofun
  | timerCancelled hmask hc hcancelled hreturned hqueue =>
    rw [(hok hcancelled).2] at hreturned
    cases hreturned
  | poller hmask hlog hqueue hnew hlive => exact .poller hmask hlog hqueue nofun hlive
  | pollerCancelled hmask hc hlog hqueue =>
    rw [(hok hlog).1] at hmask
    cases hmask

/-- The marker comes after what the running handlers will pop. -/
theorem cancel {self : ℕ} (h : EventPhase activations handlers e l) (hc : e.centre = some self)
    (hle : handlers ≤ activations) : EventPhase activations' handlers
      { e.pushCurEv evCancel with centre := none } { l with cancelled := true, returned := false } := by
  cases h with
  | timer hmask hqueue hlog =>
    exact .timerCancelled hmask rfl rfl rfl (by simp [Event.pushCurEv, hqueue])
  | poller hmask hlog hqueue hnew hlive =>
    refine .pollerCancelled hmask rfl rfl ?_
    simp only [Event.pushCurEv, List.length_append, List.length_singleton]
    omega
  | timerCancelled hmask hc' => simp [hc] at hc'
  | pollerCancelled hmask hc' => simp [hc] at hc'

theorem pushActive {self : ℕ} {ev : EvMask} (h : EventPhase activations handlers e l)
    (hmask : onTimer e.ev = false) (hc : e.centre = some self) (hev : ev.meets evCancel = false) :
    EventPhase (activations + 1) handlers (e.pushCurEv ev) l := by
  cases h with
  | timer htimer => simp [hmask] at htimer
  | timerCancelled htimer => simp [hmask] at htimer
  | poller _ hlog hqueue hnew hlive =>
    refine .poller hmask hlog ?_ (fun hnone => by simp [Event.pushCurEv, hc] at hnone) ?_
    · simpa [Event.pushCurEv] using hqueue
    · intro v hv
      rcases List.mem_append.mp hv with hv | hv
      · exact hlive v hv
      · exact List.mem_singleton.mp hv ▸ hev
  | pollerCancelled _ hc' => simp [hc] at hc'

/-- An entry that is taken is in a handler instead. -/
theorem handle (h : EventPhase activations handlers e l) (hc : e.centre ≠ none) :
    EventPhase activations (handlers + 1) e l := by
  cases h with
  | timer hmask hqueue hlog => exact .timer hmask hqueue hlog
  | timerCancelled hmask hnone => exact absurd hnone hc
  | poller hmask hlog hqueue hnew hlive => exact .poller hmask hlog hqueue hnew hlive
  | pollerCancelled hmask hnone => exact absurd hnone hc

theorem handleEnd (h : EventPhase (activations + 1) (handlers + 1) e l) :
    EventPhase activations handlers e.popCurEv { l with returned := true } := by
  cases h with
  | timer hmask hqueue hlog => exact .timer hmask (by simp [Event.popCurEv, hqueue]) fun _ _ => rfl
  | timerCancelled hmask hc hcancelled hreturned hqueue =>
    exact .timer hmask (by simp [Event.popCurEv, hqueue]) fun _ _ => rfl
  | poller hmask hlog hqueue hnew hlive =>
    refine .poller hmask hlog ?_ (fun hc => ?_) fun v hv => hlive v (List.mem_of_mem_tail hv)
    · simp only [Event.popCurEv, List.length_tail]
      omega
    · simp [Event.popCurEv, hnew hc]
  | pollerCancelled hmask hc hlog hqueue =>
    refine .pollerCancelled hmask hc hlog ?_
    simp only [Event.popCurEv, List.length_tail]
    omega

end EventPhase

/-! ## One centre -/

def handlers (c : EventCentre) (p : ℕ) : ℕ := if c.pc = .handling p then 1 else 0

def activations (c : EventCentre) (p : ℕ) : ℕ :=
  c.pending ⟨p, false⟩ + c.pending ⟨p, true⟩ + handlers c p

/-- The phase of `p` where the other centres have `a` activations and `b` handlers of it. -/
def EventOk (a b : ℕ) (s : CentreState) (p : ℕ) (l : RestartLog) : Prop :=
  ∀ e, s.objs.store p = some e →
    EventPhase (a + activations s.centre p) (b + handlers s.centre p) e l

section Step
variable {n self a b p q : ℕ} {s t : CentreState} {op : CentreOp} {l : RestartLog}
  {log : ℕ → RestartLog}

theorem EventOk.mono (h : EventOk a b s q l) (hkept : Kept SameUse s.objs t.objs q)
    (hentries : ∀ b, t.centre.pending ⟨q, b⟩ ≤ s.centre.pending ⟨q, b⟩)
    (hpc : t.centre.pc = .handling q → s.centre.pc = .handling q) : EventOk a b t q l := by
  intro e' he'
  obtain ⟨e, he, hsame⟩ := hkept e' he'
  have hhandlers : handlers t.centre q ≤ handlers s.centre q := by
    rw [handlers, handlers]
    split_ifs with ht hs
    · exact le_rfl
    · exact absurd (hpc ht) hs
    · exact Nat.zero_le _
    · exact le_rfl
  have hfalse := hentries false
  have htrue := hentries true
  refine (h e he).mono hsame ?_ ?_
  · simp only [activations]
    omega
  · omega

theorem EventOk.unmoved (h : EventOk a b s q l) (hu : Unmoved s t q) : EventOk a b t q l :=
  h.mono hu.kept (fun b => (hu.pending b).le) hu.handling.mp

theorem logStep_register {keep registFd : Bool} (h : (s.registerEvent self p registFd).isSome = true) :
    logStep log s self (.register p keep registFd) p = { log p with left := queueAt s.objs p } := by
  rw [logStep, if_pos h, Function.update_self]

theorem logStep_refused {keep registFd : Bool} (h : ¬ (s.registerEvent self p registFd).isSome = true) :
    logStep log s self (.register p keep registFd) p = log p := by
  rw [logStep, if_neg h]

theorem logStep_cancel (h : s.cancels self p = true) :
    logStep log s self (.cancel p) p = { log p with cancelled := true, returned := false } := by
  rw [logStep, if_pos h, Function.update_self]

theorem logStep_ignored (h : ¬ s.cancels self p = true) : logStep log s self (.cancel p) p = log p := by
  rw [logStep, if_neg h]

theorem logStep_handleEnd (h : s.centre.pc = .handling q) :
    logStep log s self .handleEnd q = { log q with returned := true } := by
  simp only [logStep, h, Function.update_self]

theorem logStep_of_not_aims (hq : ¬ Aims s q op) : logStep log s self op q = log q := by
  cases op with
  | register p keep registFd =>
    simp only [logStep]
    split_ifs
    · exact Function.update_of_ne hq ..
    · rfl
  | cancel p =>
    simp only [logStep]
    split_ifs
    · exact Function.update_of_ne hq ..
    · rfl
  | handleEnd =>
    simp only [logStep]
    cases hpc : s.centre.pc with
    | handling p =>
      have hne : q ≠ p := by
        rintro rfl
        exact hq hpc
      exact Function.update_of_ne hne ..
    | _ => rfl
  | _ => rfl

theorem activations_fresh (h : RegistryInv s) : activations s.centre s.objs.fresh = 0 := by
  have hentries (b : Bool) : s.centre.pending ⟨s.objs.fresh, b⟩ = 0 := by
    by_contra hne
    exact absurd (h.below _ (.entry hne)) (lt_irrefl _)
  have hpc : s.centre.pc ≠ .handling s.objs.fresh := by
    intro hpc
    exact absurd (h.below _ (.handling hpc)) (lt_irrefl _)
  simp [activations, handlers, hentries, hpc]

theorem EventOk.create {ev : EvMask} {evKey timeoutMs clk : ℕ} {isLoop : Bool} (hinv : RegistryInv s)
    (ha : a = 0) (hlog : l.cancelled = false) : EventOk a b
      { s with objs := s.objs.create (newEvent ev evKey timeoutMs clk isLoop) } s.objs.fresh l := by
  intro e he
  simp only [Objects.create, Function.update_self, Option.some.injEq] at he
  subst he
  cases hmask : onTimer (newEvent ev evKey timeoutMs clk isLoop).ev with
  | true => exact .timer hmask rfl fun _ hcancelled => by simp [hlog] at hcancelled
  | false =>
    refine .poller hmask hlog ?_ (fun _ => rfl) (List.forall_mem_nil _)
    show a + activations s.centre s.objs.fresh ≤ 0
    rw [ha, activations_fresh hinv]

theorem EventOk.register {keep registFd : Bool} (h : EventOk a b s p (log p))
    (hok : registerOk log s self (.register p keep registFd)) :
    EventOk a b (((s.registerEvent self p registFd).getD s).afterRegister p keep) p
      (logStep log s self (.register p keep registFd) p) := by
  cases hreg : s.registerEvent self p registFd with
  | none =>
    rw [logStep_refused (by simp [hreg])]
    exact h.unmoved unmoved_afterRegister
  | some u =>
    rw [logStep_register (by simp [hreg])]
    obtain ⟨e, he, hc, hcases⟩ := registerEvent_cases hreg
    have hphase := (h e he).register (fun hcancelled => hok (by simp [hreg]) hcancelled e he) self
      (queueAt s.objs p)
    suffices hu : EventOk a b u p { log p with left := queueAt s.objs p } by
      simpa using hu.unmoved unmoved_afterRegister
    intro e' he'
    rcases hcases with ⟨_, _, rfl⟩ | ⟨_, _, rfl⟩
    · obtain rfl := Option.some.inj ((registeredIo_store he).symm.trans he')
      exact hphase
    · obtain rfl := Option.some.inj ((registeredTimer_store he).symm.trans he')
      exact hphase

theorem EventOk.cancel {e : Event} (h : EventOk a b s p l) (hle : b ≤ a) (he : s.objs.store p = some e)
    (hc : e.centre = some self) :
    EventOk a b (s.afterCancel p) p { l with cancelled := true, returned := false } := by
  intro e' he'
  rw [CentreState.afterCancel, Objects.setCentre, Objects.modify_self, Objects.modify_self, he] at he'
  obtain rfl := Option.some.inj he'
  refine (h e he).cancel hc ?_
  simp only [activations]
  omega

theorem EventOk.pushActive {e : Event} {ev : EvMask} (h : EventOk a b s p l)
    (he : s.objs.store p = some e) (hmask : onTimer e.ev = false) (hc : e.centre = some self)
    (hev : ev.meets evCancel = false) : EventOk a b (s.afterPush p ev) p l := by
  intro e' he'
  rw [CentreState.afterPush, Objects.modify_self, he] at he'
  obtain rfl := Option.some.inj he'
  have hentries : a + activations (s.afterPush p ev).centre p = a + activations s.centre p + 1 := by
    have hhandlers : handlers (s.afterPush p ev).centre p = handlers s.centre p := rfl
    have htrue : [(⟨p, false⟩ : Entry)].count ⟨p, true⟩ = 0 := List.count_eq_zero_of_not_mem (by simp)
    rw [activations, activations, afterPush_pending, afterPush_pending, List.count_singleton_self, htrue,
      hhandlers]
    omega
  rw [hentries]
  exact (h e he).pushActive hmask hc hev

/-- A pass of `Launch` only aims at timers. -/
theorem onTimer_of_aims_launch {clk : ℕ} {e : Event} (hinv : RegistryInv s) (hheap : HeapTimers s)
    (haim : Aims s q (.launchIter clk)) (he : s.objs.store q = some e) : onTimer e.ev = true := by
  obtain ⟨r, hr, _, rfl | ⟨_, hunder⟩⟩ := haim
  · obtain ⟨now, _, hfront, _, _⟩ := CentreState.mem_dueRoot hr
    obtain ⟨xs, hxs⟩ := front_eq hfront
    exact hheap r.1 (hxs ▸ List.mem_cons_self) e he
  · exact (hinv.timerKey _ q (KeyLists.mem_of_lookup hunder) e he).2

theorem EventOk.launch {now clk : ℕ} {m : LaunchState} (h : EventOk a b s q l) (hinv : RegistryInv s)
    (hheap : HeapTimers s) (haim : Aims s q (.launchIter clk))
    (hm : LaunchPass now clk ⟨s.objs, s.centre.timer, []⟩ m) : EventOk a b (s.afterPass m) q l := by
  intro e' he'
  obtain ⟨e, he, hsame⟩ := launchPass_kept hm q e' he'
  have hmask := onTimer_of_aims_launch hinv hheap haim he
  -- what a timer has in its queue does not depend on its entries
  cases (h e he).mono hsame le_rfl le_rfl with
  | timer hmask' hqueue hlog => exact .timer hmask' hqueue hlog
  | timerCancelled hmask' hc hcancelled hreturned hqueue =>
    exact .timerCancelled hmask' hc hcancelled hreturned hqueue
  | poller hmask' => simp [hsame.onTimer, hmask] at hmask'
  | pollerCancelled hmask' => simp [hsame.onTimer, hmask] at hmask'

/-- `DeleteEvent` leaves the queue of the event alone. -/
theorem EventOk.delete {entry : Entry} {rest : List Entry} {e : Event} (h : EventOk a b s q l)
    (hact : s.centre.activeEvs = entry :: rest) :
    EventOk a b ((s.withActive rest).deleteEvent e) q l := by
  refine h.mono (deleteEvent_kept (s := s.withActive rest) e) (fun b => ?_) ?_
  · rw [CentreState.deleteEvent_pending, pending_rest hact ⟨q, b⟩]
    exact Nat.le_add_right _ _
  · rw [CentreState.deleteEvent_pc]
    exact id

theorem EventOk.take (h : EventOk a b s q l) (hn : n ≤ q) (hself : self < n) (haim : Aims s q .take)
    (ht : CentrePass n self s .take t) : EventOk a b t q l := by
  cases ht with
  | delete hpc hact he hfront => exact h.delete hact
  | skip hpc hact he hfront hc =>
    refine h.mono (.refl _ q) (fun b => ?_) id
    rw [pending_rest hact ⟨q, b⟩]
    exact Nat.le_add_right _ _
  | wakeUp hpc hact he hfront hentry =>
    obtain rfl := aims_take_of_front hact he hfront haim
    omega
  | @handle entry rest e hpc hact he hfront hc hentry =>
    obtain rfl := aims_take_of_front hact he hfront haim
    intro e' he'
    obtain rfl := Option.some.inj (he.symm.trans he')
    have hphase := (h e he).handle (by simpa [Option.isSome_iff_ne_none] using hc)
    have hfalse := pending_rest hact ⟨entry.ev, false⟩
    have htrue := pending_rest hact ⟨entry.ev, true⟩
    -- the entry of either kind is in the handler instead
    have hone : (if entry = ⟨entry.ev, false⟩ then 1 else 0) + (if entry = ⟨entry.ev, true⟩ then 1 else 0)
        = 1 := by
      obtain ⟨p, fromCancel⟩ := entry
      cases fromCancel <;> simp
    have hbefore : handlers s.centre entry.ev = 0 := by simp [handlers, hpc]
    have hafter : handlers { s.centre with activeEvs := rest, pc := .handling entry.ev } entry.ev = 1 :=
      if_pos rfl
    refine hphase.mono (.refl e) ?_ ?_
    · rw [activations, activations, hafter]
      show a + ((s.withActive rest).centre.pending _ + (s.withActive rest).centre.pending _ + 1) ≤ _
      omega
    · rw [hafter]
      omega

theorem EventOk.handleEnd {e : Event} (h : EventOk a b s p l) (hpc : s.centre.pc = .handling p)
    (he : s.objs.store p = some e) :
    EventOk a b { objs := s.objs.modify p Event.popCurEv, centre := { s.centre with pc := .process } } p
      { l with returned := true } := by
  intro e' he'
  rw [Objects.modify_self, he] at he'
  obtain rfl := Option.some.inj he'
  refine EventPhase.handleEnd ?_
  have hphase := h e he
  simp only [activations, handlers, hpc, if_true] at hphase
  exact hphase

/-- The event that a step aims at. -/
theorem EventOk.aimed (h : EventOk a b s q (log q)) (hinv : RegistryInv s) (hheap : HeapTimers s)
    (hn : n ≤ q) (hself : self < n) (hle : b ≤ a) (hfresh : q = s.objs.fresh → a = 0)
    (hlog : q = s.objs.fresh → (log q).cancelled = false) (hok : registerOk log s self op)
    (ht : centreStep n self s op = some t) (haim : Aims s q op) :
    EventOk a b t q (logStep log s self op q) := by
  have hpass := centrePass_of_centreStep ht
  cases op with
  | object op =>
    cases hpass with
    | object hobj =>
      cases hobj with
      | create =>
        obtain rfl := haim
        exact .create hinv (hfresh rfl) (hlog rfl)
      | drop hp => exact haim.elim
      | modify hp hsame => exact h.unmoved (.of_objs (.modify hsame q))
  | control op => exact haim.elim
  | register p keep registFd =>
    obtain rfl := haim
    simp only [centreStep, Option.ite_none_right_eq_some, Option.some.injEq] at ht
    obtain ⟨_, rfl⟩ := ht
    exact h.register hok
  | cancel p =>
    obtain rfl := haim
    cases hpass with
    | ignored hnot =>
      rw [logStep_ignored (Bool.eq_false_iff.mp hnot)]
      exact h
    | unmarked he hm =>
      rw [hinv.mask _ _ he] at hm
      cases hm
    | cancel hp hpc he hc =>
      rw [logStep_cancel (CentreState.cancels_eq he hc)]
      exact h.cancel hle he hc
  | makeWaitting => exact haim.elim
  | pushActive fd ev =>
    cases hpass with
    | notActive => exact h
    | pushActive hpc hio hfd he hc =>
      obtain rfl := Option.some.inj (hfd.symm.trans haim)
      exact h.pushActive he (hinv.eventKey fd _ (KeyLists.mem_of_lookup hfd) _ he).2 hc (meets_of_io hio)
  | launchIter clk =>
    cases hpass with
    | launch hpc hl => exact h.launch hinv hheap haim hl
  | take => exact h.take hn hself haim hpass
  | handleEnd =>
    cases hpass with
    | handleEnd hpc he =>
      obtain rfl := LoopPc.handling.inj (hpc.symm.trans haim)
      rw [logStep_handleEnd hpc]
      exact h.handleEnd hpc he

/-- The step lemma for one centre and one event. -/
theorem EventOk.step (h : EventOk a b s q (log q)) (hinv : RegistryInv s) (hheap : HeapTimers s)
    (hn : n ≤ q) (hself : self < n) (hle : b ≤ a) (hfresh : q = s.objs.fresh → a = 0)
    (hlog : q = s.objs.fresh → (log q).cancelled = false) (hok : registerOk log s self op)
    (ht : centreStep n self s op = some t) : EventOk a b t q (logStep log s self op q) := by
  by_cases haim : Aims s q op
  · exact h.aimed hinv hheap hn hself hle hfresh hlog hok ht haim
  · rw [logStep_of_not_aims haim]
    exact h.unmoved (unmoved_step hinv.events hinv.timers (centrePass_of_centreStep ht) haim)

/-- Only a cancel that takes effect marks an event as cancelled. -/
theorem logStep_cancelled (ht : centreStep n self s op = some t)
    (hq : (logStep log s self op q).cancelled = true) :
    (log q).cancelled = true ∨ n ≤ q ∧ (s.objs.store q).isSome = true := by
  by_cases haim : Aims s q op
  · cases op with
    | register p keep registFd =>
      obtain rfl := haim
      by_cases hreg : (s.registerEvent self q registFd).isSome = true
      · rw [logStep_register hreg] at hq
        exact Or.inl hq
      · rw [logStep_refused hreg] at hq
        exact Or.inl hq
    | cancel p =>
      obtain rfl := haim
      simp only [centreStep, Option.ite_none_right_eq_some] at ht
      exact Or.inr ⟨ht.1.1, ht.1.2.1⟩
    | handleEnd =>
      rw [logStep_handleEnd haim] at hq
      exact Or.inl hq
    | _ => exact Or.inl hq
  · rw [logStep_of_not_aims haim] at hq
    exact Or.inl hq

/-- A step changes what is noted of the queue at a registration only. -/
theorem logStep_left (log : ℕ → RestartLog) (s : CentreState) (self : ℕ) (op : CentreOp) (q : ℕ) :
    (logStep log s self op q).left = (log q).left ∨ ∃ keep registFd, op = .register q keep registFd ∧
      (s.registerEvent self q registFd).isSome = true ∧ (logStep log s self op q).left = queueAt s.objs q := by
  by_cases haim : Aims s q op
  · cases op with
    | register p keep registFd =>
      obtain rfl := haim
      by_cases hreg : (s.registerEvent self q registFd).isSome = true
      · exact Or.inr ⟨keep, registFd, rfl, hreg, by rw [logStep_register hreg]⟩
      · exact Or.inl (by rw [logStep_refused hreg])
    | cancel p =>
      obtain rfl := haim
      by_cases hcancels : s.cancels self q = true
      · exact Or.inl (by rw [logStep_cancel hcancels])
      · exact Or.inl (by rw [logStep_ignored hcancels])
    | handleEnd => exact Or.inl (by rw [logStep_handleEnd haim])
    | _ => exact Or.inl rfl
  · exact Or.inl (by rw [logStep_of_not_aims haim])

end Step

/-! ## Runs -/

structure RestartInv {n : ℕ} (w : RestartRun n) : Prop where
  registries : WorldRegistry w.world
  logged : ∀ p, (w.log p).cancelled = true → n ≤ p ∧ p < w.world.objs.fresh
  left : ∀ p, (w.log p).left = []
  phase : ∀ p, n ≤ p → ∀ e, w.world.objs.store p = some e →
    EventPhase (∑ i, activations (w.world.centres i) p) (∑ i, handlers (w.world.centres i) p) e (w.log p)

section
variable {n : ℕ} {w v : RestartRun n}

theorem RestartInv.eventOk (h : RestartInv w) (i : Fin n) {p : ℕ} (hp : n ≤ p) :
    EventOk (elsewhere w.world i (activations · p)) (elsewhere w.world i (handlers · p)) (w.world.at i) p
      (w.log p) := by
  intro e he
  have hphase := h.phase p hp e he
  rwa [sum_eq_elsewhere w.world i (activations · p), sum_eq_elsewhere w.world i (handlers · p)] at hphase

theorem elsewhere_fresh (h : WorldRegistry w.world) (i : Fin n) :
    elsewhere w.world i (activations · w.world.objs.fresh) = 0 := by
  apply Finset.sum_eq_zero
  intro j _
  exact activations_fresh (h.registry j)

theorem restartInv_start (fds : ℕ → ℕ) (pool : List (Fin n)) : RestartInv (.start fds pool) := by
  refine ⟨worldRegistry_start fds pool, nofun, fun _ => rfl, fun p hp e he => ?_⟩
  obtain ⟨hlt, _⟩ := store_startObjects he
  omega

/-- The step lemma. -/
theorem restartInv_step {op : WorldOp n} (h : RestartInv w) (hok : restartOk w op)
    (hv : restartStep w op = some v) : RestartInv v := by
  obtain ⟨i, cop, t, hacting, ht, rfl⟩ := restartStep_cases hv
  have hok : registerOk w.log (w.world.at i) i cop := hok _ hacting
  have hinv := h.registries.registry i
  have hpass := centrePass_of_centreStep ht
  refine ⟨h.registries.set hpass, ?_, ?_, ?_⟩
  · intro p hp
    have hfresh : w.world.objs.fresh ≤ t.objs.fresh := fresh_step hpass
    rcases logStep_cancelled ht hp with hold | ⟨hn, hsome⟩
    · exact ⟨(h.logged p hold).1, (h.logged p hold).2.trans_le hfresh⟩
    · obtain ⟨e, he⟩ := Option.isSome_iff_exists.mp hsome
      exact ⟨hn, (hinv.below p (.alive he)).trans_le hfresh⟩
  · intro p
    rcases logStep_left w.log (w.world.at i) i cop p with hold | ⟨keep, registFd, rfl, hreg, hleft⟩
    · exact hold.trans (h.left p)
    · refine hleft.trans ?_
      obtain ⟨u, hu⟩ := Option.isSome_iff_exists.mp hreg
      obtain ⟨e, he, hc, _⟩ := registerEvent_cases hu
      simp only [centreStep, Option.ite_none_right_eq_some] at ht
      rw [queueAt, he]
      exact (h.phase p ht.1.1 e he).queue_empty hc fun hcancelled => hok hreg hcancelled e he
  · intro p hp e he
    have hstep := (h.eventOk i hp).step hinv (h.registries.heap i) hp i.isLt ?_ ?_ ?_ hok ht e he
    · rwa [← sum_set w.world i t (activations · p), ← sum_set w.world i t (handlers · p)] at hstep
    · exact Finset.sum_le_sum fun j _ => Nat.le_add_left _ _
    · rintro rfl
      exact elsewhere_fresh h.registries i
    · rintro rfl
      apply Bool.eq_false_iff.mpr
      intro hcancelled
      exact absurd (h.logged _ hcancelled).2 (lt_irrefl _)

/-- An event that is registered has no marker in its queue. -/
theorem RestartInv.live {p : ℕ} {e : Event} (h : RestartInv w) (hp : n ≤ p)
    (he : w.world.objs.store p = some e) (hc : e.centre ≠ none) : ∀ v ∈ e.curEv, v.meets evCancel = false := by
  cases h.phase p hp e he with
  | timer _ hqueue =>
    rw [hqueue]
    exact List.forall_mem_nil _
  | timerCancelled _ hnone => exact absurd hnone hc
  | poller _ _ _ _ hlive => exact hlive
  | pollerCancelled _ hnone => exact absurd hnone hc

/-- `ProcessActiveEvent` calls `Handle` of an event with a centre and without a marker. -/
theorem handlesNext_of_live {u : World n} {i : Fin n} {p : ℕ} {e : Event} (hp : n ≤ p)
    (he : u.objs.store p = some e) (hc : e.centre ≠ none) (hlive : ∀ v ∈ e.curEv, v.meets evCancel = false)
    (htake : takesNext u i p) : handlesNext u i p := by
  obtain ⟨hpc, hhead⟩ := htake
  obtain ⟨entry, hentry, rfl⟩ := Option.map_eq_some_iff.mp hhead
  obtain ⟨rest, hact⟩ := List.head?_eq_some_iff.mp hentry
  have hfront : e.getCurEv.meets evCancel = false := by
    apply Bool.eq_false_iff.mpr
    intro hmeets
    obtain ⟨v, hv, hmarker⟩ := getCurEv_meets hmeets
    rw [hlive v hv] at hmarker
    cases hmarker
  have hself : entry.ev ≠ i := by omega
  have hstep : centreStep n i (u.at i) .take =
      some ⟨u.objs, { u.centres i with activeEvs := rest, pc := .handling entry.ev }⟩ := by
    simp [centreStep, World.at, hact, hpc, CentreState.takeEvent, he, hfront, hc, hself]
  refine ⟨_, Option.map_eq_some_iff.mpr ⟨_, hstep, rfl⟩, ?_⟩
  simp [World.set]

theorem RestartInv.clean (h : RestartInv w) : RestartsClean w := by
  intro p hcancelled
  have hp := (h.logged p hcancelled).1
  refine ⟨h.left p, fun e he hc => ?_⟩
  have hlive := h.live hp he hc
  exact ⟨hlive, fun i htake => handlesNext_of_live hp he hc hlive htake⟩

/-- A step that does not meet the condition registers an event with a queue that is not empty. -/
theorem RestartInv.ok_of_clean {op : WorldOp n} (h : RestartInv w) (hv : restartStep w op = some v)
    (hclean : RestartsClean v) : restartOk w op := by
  intro ⟨i, cop⟩ hacting
  obtain ⟨i', cop', t, hacting', ht, rfl⟩ := restartStep_cases hv
  obtain ⟨rfl, rfl⟩ := Prod.mk.inj (Option.some.inj (hacting.symm.trans hacting'))
  cases cop with
  | register p keep registFd =>
    intro hreg hcancelled e he
    obtain ⟨u, hu⟩ := Option.isSome_iff_exists.mp hreg
    obtain ⟨e₂, he₂, hc, _⟩ := registerEvent_cases hu
    obtain rfl := Option.some.inj (he₂.symm.trans he)
    simp only [centreStep, Option.ite_none_right_eq_some] at ht
    have hlog : logStep w.log (w.world.at i) i (.register p keep registFd) p =
        { w.log p with left := queueAt w.world.objs p } := logStep_register hreg
    have hleft := hclean p
    simp only [RestartsCleanAt, hlog] at hleft
    have hqueue : e₂.curEv = [] := by
      have hempty := (hleft hcancelled).1
      rw [queueAt, show w.world.objs.store p = some e₂ from he₂] at hempty
      exact hempty
    exact (h.phase p ht.1.1 e₂ he₂).ok_of_queue_empty hc hcancelled hqueue
  | _ => trivial

end

/-- In a run that meets `restartOk` at every step every event that was cancelled is registered again with
an empty queue, and is then handed to `Handle` until it is cancelled again; and the next step keeps it so
just when it meets `restartOk`. -/
theorem restarts_clean_iff {n : ℕ} {fds : ℕ → ℕ} {pool : List (Fin n)} {ops : List (WorldOp n)}
    {w : RestartRun n} (hg : Guarded restartStep restartOk (.start fds pool) ops)
    (hw : exec restartStep (.start fds pool) ops = some w) :
    RestartsClean w ∧ ∀ op v, restartStep w op = some v → (RestartsClean v ↔ restartOk w op) := by
  have hinv : RestartInv w :=
    invariant_of_guarded (fun _ _ _ => restartInv_step) (restartInv_start fds pool) hg hw
  refine ⟨hinv.clean, fun op v hv => ⟨hinv.ok_of_clean hv, fun hok => ?_⟩⟩
  exact (restartInv_step hinv hok hv).clean

def home : Fin 2 := ⟨0, Nat.two_pos⟩

def other : Fin 2 := ⟨1, Nat.one_lt_two⟩

/-- A timer cancels itself, and the other centre registers it once its handler has returned. -/
def restartSample : List (WorldOp 2) :=
  [.centre home (.object (.create evTimeout 1 5 0 true)), .centre home (.register 2 true true),
    .centre home (.control .start), .centre home .makeWaitting, .centre home (.control (.calcTimeout 0)),
    .centre home (.control .pollReturn), .centre home (.control (.launchBegin 10)), .centre home (.launchIter 10),
    .centre home (.control .launchEnd), .centre home (.control .processBegin), .centre home .take,
    .centre home (.cancel 2), .centre home .handleEnd, .centre other (.register 2 true true),
    .centre other (.control .start), .centre other .makeWaitting, .centre other (.control (.calcTimeout 11)),
    .centre other (.control .pollReturn), .centre other (.control (.launchBegin 20)), .centre other (.launchIter 20),
    .centre other (.control .launchEnd), .centre other (.control .processBegin)]

def restartSampleStart : RestartRun 2 := .start (fun i => i + 10) []

def restartSampleEnd : RestartRun 2 := (exec restartStep restartSampleStart restartSample).get (by decide +kernel)

theorem restarts_clean_iff_sample : (restartSampleEnd.log 2).cancelled = true ∧
    takesNext restartSampleEnd.world other 2 ∧ RestartsClean restartSampleEnd :=
  ⟨by decide +kernel, by decide +kernel,
    (restarts_clean_iff (show Guarded restartStep restartOk restartSampleStart restartSample by decide +kernel)
      (Option.some_get _).symm).1⟩

/-- A poller event is cancelled, deleted and registered again: the marker is still there, and its first
activation deletes it. -/
theorem not_restarts_clean :
    ¬ ∀ (n : ℕ) (fds : ℕ → ℕ) (pool : List (Fin n)) (ops : List (WorldOp n)) (w : RestartRun n),
      exec restartStep (.start fds pool) ops = some w → RestartsClean w := by
  intro h
  have hrun := h 1 (fun _ => 10) []
    [.centre 0 (.object (.create evIoread 20 0 0 false)), .centre 0 (.register 1 true true),
      .centre 0 (.cancel 1), .centre 0 (.control .start), .centre 0 .makeWaitting,
      .centre 0 (.control (.calcTimeout 0)), .centre 0 (.control .pollReturn),
      .centre 0 (.control (.launchBegin 0)), .centre 0 (.control .launchEnd),
      .centre 0 (.control .processBegin), .centre 0 .take, .centre 0 (.control .processEnd),
      .centre 0 (.register 1 true true), .centre 0 .makeWaitting, .centre 0 (.control (.calcTimeout 1)),
      .centre 0 (.control .pollReturn), .centre 0 (.pushActive 20 evIoread),
      .centre 0 (.control (.launchBegin 1)), .centre 0 (.control .launchEnd),
      .centre 0 (.control .processBegin)] _ (Option.some_get (by decide +kernel)).symm 1
  revert hrun
  decide +kernel

end Chaos.EventRestarts
