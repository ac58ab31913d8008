import Chaos.CentreRegistry
import Mathlib.Algebra.BigOperators.Fin

/-!
# The counters and the registries

Runs of `n` centres and of a pool on some of them. `m_eventsNum` goes up with a registration and down with
a `DeleteEvent`, `Timer::s_curTimers` up with `AddTimer` and down with `DelTimer`, in both cases without a
look at the registry. They agree with the registries as long as `Launch` deletes no timer by itself and
`DeleteEvent` finds the key that it erases.
-/
namespace Chaos.EventCounters

open GuardedRuns KeyLists Timer Word32

/-- `pool` is `m_centres` of the pool. -/
structure World (n : ℕ) where
  objs : Objects
  centres : Fin n → EventCentre
  pool : List (Fin n)

inductive WorldOp (n : ℕ) where
  | centre (i : Fin n) (op : CentreOp)
  | poolRegister (p : ℕ) (keep registFd : Bool)

def World.start {n : ℕ} (fds : ℕ → ℕ) (pool : List (Fin n)) : World n :=
  ⟨startObjects n fds, fun i => .new i (fds i), pool⟩

section
variable {n : ℕ} (w : World n)

/-- The choice of `EventCentrePool::RegisterEvent`. -/
def leastLoaded : Option (Fin n) :=
  w.pool.foldl (fun best i => match best with
    | none => some i
    | some b => if (w.centres i).eventsNum < (w.centres b).eventsNum then some i else some b) none

def World.at (i : Fin n) : CentreState := ⟨w.objs, w.centres i⟩

def World.set (i : Fin n) (s : CentreState) : World n :=
  { w with objs := s.objs, centres := Function.update w.centres i s.centre }

def worldStep : WorldOp n → Option (World n)
  | .centre i op => (centreStep n i (w.at i) op).map (w.set i)
  | .poolRegister p keep registFd => match leastLoaded w with
    | none => none
    | some i => (centreStep n i (w.at i) (.register p keep registFd)).map (w.set i)

end

/-- `DeleteEvent` of `e` finds its key. -/
def keyThere (c : EventCentre) (e : Event) : Prop :=
  if e.ev.meets ioCareEvent then (c.events.lookup e.evKey).isSome = true
  else e.ev.meets timeoutCartEvent → (c.timer.timerMap.lookup e.evKey).isSome = true

instance (c : EventCentre) (e : Event) : Decidable (keyThere c e) := by
  unfold keyThere
  infer_instance

/-- A registration has room in the counters, `Launch` does not delete a suspended one-shot timer, and
`DeleteEvent` finds its key. -/
def counterOk (s : CentreState) : CentreOp → Prop
  | .register _ _ _ => s.centre.eventsNum + 1 < 2147483648 ∧ s.objs.curTimers + 1 < word32
  | .launchIter _ => ∀ r ∈ s.dueRoot, r.2.isSuspend = true → r.2.isLoop = true
  | .take => ∀ e ∈ s.takenCancel, keyThere s.centre e
  | _ => True

instance (s : CentreState) : (op : CentreOp) → Decidable (counterOk s op)
  | .register _ _ _ => inferInstanceAs
      (Decidable (s.centre.eventsNum + 1 < 2147483648 ∧ s.objs.curTimers + 1 < word32))
  | .launchIter _ => inferInstanceAs
      (Decidable (∀ r ∈ s.dueRoot, r.2.isSuspend = true → r.2.isLoop = true))
  | .take => inferInstanceAs (Decidable (∀ e ∈ s.takenCancel, keyThere s.centre e))
  | .object _ | .control _ | .cancel _ | .makeWaitting | .pushActive _ _ | .handleEnd => isTrue trivial

def worldOk {n : ℕ} (w : World n) : WorldOp n → Prop
  | .centre i op => counterOk (w.at i) op
  | .poolRegister p keep registFd => ∀ i ∈ leastLoaded w, counterOk (w.at i) (.register p keep registFd)

instance {n : ℕ} (w : World n) : (op : WorldOp n) → Decidable (worldOk w op)
  | .centre i op => inferInstanceAs (Decidable (counterOk (w.at i) op))
  | .poolRegister p keep registFd => inferInstanceAs
      (Decidable (∀ i ∈ leastLoaded w, counterOk (w.at i) (.register p keep registFd)))

/-! ## One centre -/

structure CountInv (c : EventCentre) : Prop extends KeysInv c where
  num : c.eventsNum = (c.events.length : ℤ) + c.timer.timerMap.length
  room : c.eventsNum < 2147483648

/-- A step moves the counter of timers with the size of the centre's own map. -/
def TimersMove (s t : CentreState) : Prop :=
  t.objs.curTimers + s.centre.timer.timerMap.length = s.objs.curTimers + t.centre.timer.timerMap.length

theorem intAdd_one {a : ℤ} (ha : 0 ≤ a) (h : a + 1 < 2147483648) : intAdd a 1 = a + 1 :=
  Int.bmod_eq_of_le (by norm_num; omega) (by norm_num; omega)

theorem intAdd_neg_one {a : ℤ} (ha : 1 ≤ a) (h : a < 2147483648) : intAdd a (-1) = a - 1 :=
  Int.bmod_eq_of_le (by norm_num; omega) (by norm_num; omega)

@[simp] theorem releaseErased_curTimers (o : Objects) (erased : Option ℕ) :
    (o.releaseErased erased).curTimers = o.curTimers := by
  cases erased with
  | none => rfl
  | some q => exact o.release_curTimers q

@[simp] theorem afterRegister_curTimers (s : CentreState) (p : ℕ) (keep : Bool) :
    (s.afterRegister p keep).objs.curTimers = s.objs.curTimers := by
  rw [CentreState.afterRegister]
  split_ifs
  · rfl
  · exact Objects.release_curTimers { s.objs with held := _ } p

theorem objectPass_curTimers {n : ℕ} {o o' : Objects} {op : ObjectOp} (h : ObjectPass n o op o') :
    o'.curTimers = o.curTimers := by
  cases h with
  | create => rfl
  | @drop p _ => exact Objects.release_curTimers { o with held := _ } p
  | modify _ _ => rfl

theorem delTimer_curTimers (o : Objects) (t : Timer) (e : Event) :
    (delTimer o t e).1.curTimers = sub32 o.curTimers 1 := by
  rw [delTimer]
  cases t.timerMap.lookup e.evKey <;> rfl

theorem length_eraseKey {m : List (ℕ × ℕ)} {k : ℕ} (hm : KeysNodup m)
    (h : (m.lookup k).isSome) : m.length = (eraseKey m k).length + 1 := by
  obtain ⟨v, hv⟩ := Option.isSome_iff_exists.mp h
  simpa using (perm_eraseKey hm hv).length_eq

/-- One more entry is counted. -/
theorem CountInv.counted {c c' : EventCentre} (h : CountInv c) (hkeys : KeysInv c')
    (hroom : c.eventsNum + 1 < 2147483648) (hnum : c'.eventsNum = intAdd c.eventsNum 1)
    (hlength : c'.events.length + c'.timer.timerMap.length = c.events.length + c.timer.timerMap.length + 1) :
    CountInv c' := by
  have hcount := h.num
  rw [intAdd_one (by omega) hroom] at hnum
  refine ⟨hkeys, ?_, ?_⟩
  · omega
  · omega

theorem CountInv.deleteEvent {s : CentreState} {e : Event} (h : CountInv s.centre)
    (hcur : s.centre.timer.timerMap.length ≤ s.objs.curTimers) (hkey : keyThere s.centre e) :
    CountInv (s.deleteEvent e).centre ∧ TimersMove s (s.deleteEvent e) := by
  have hnum := h.num
  have hroom := h.room
  rw [keyThere] at hkey
  rw [CentreState.deleteEvent]
  split_ifs with hio htimeout
  · rw [if_pos hio] at hkey
    have hlen := length_eraseKey h.events hkey
    have hsub := intAdd_neg_one (by omega) hroom
    refine ⟨⟨⟨h.events.eraseKey _, h.timers⟩, ?_, ?_⟩, ?_⟩
    · show intAdd s.centre.eventsNum (-1) = _
      rw [hsub]
      simp only [CentreState.delEvent, CentreState.countDeleted]
      omega
    · show intAdd s.centre.eventsNum (-1) < _
      omega
    · simp only [TimersMove, CentreState.delEvent, CentreState.countDeleted, releaseErased_curTimers]
      cases s.centre.events.lookup e.evKey <;> rfl
  · rw [if_neg hio] at hkey
    have hlen := length_eraseKey h.timers (hkey htimeout)
    have hsub := intAdd_neg_one (by omega) hroom
    have hcurSub := sub32_of_le (a := s.objs.curTimers) (b := 1) (by omega)
    refine ⟨⟨⟨h.events, h.timers.eraseKey _⟩, ?_, ?_⟩, ?_⟩
    · show intAdd s.centre.eventsNum (-1) = _ + ((eraseKey s.centre.timer.timerMap e.evKey).length : ℤ)
      rw [hsub]
      simp only [CentreState.delTimer, CentreState.countDeleted]
      omega
    · show intAdd s.centre.eventsNum (-1) < _
      omega
    · simp only [TimersMove, CentreState.delTimer, CentreState.countDeleted, releaseErased_curTimers,
        delTimer_curTimers, hcurSub]
      show _ = s.objs.curTimers + (eraseKey s.centre.timer.timerMap e.evKey).length
      omega
  · exact ⟨h, rfl⟩

/-- The step lemma for one centre. -/
theorem countInv_step {n self : ℕ} {s t : CentreState} {op : CentreOp} (h : CountInv s.centre)
    (hcur : s.centre.timer.timerMap.length ≤ s.objs.curTimers) (hok : counterOk s op)
    (ht : CentrePass n self s op t) : CountInv t.centre ∧ TimersMove s t := by
  have hkeys := keysInv_step h.toKeysInv ht
  cases ht with
  | object hobj => exact ⟨h, by simp [TimersMove, objectPass_curTimers hobj]⟩
  | control hc =>
    obtain ⟨running, eventFd, pc, rfl, _⟩ := controlStep_eq hc
    exact ⟨⟨hkeys, h.num, h.room⟩, rfl⟩
  | refused hp => exact ⟨by simpa using h, by simp [TimersMove]⟩
  | registerIo hp hheld he hc hio hkey =>
    refine ⟨?_, ?_⟩
    · rw [CentreState.afterRegister_centre] at hkeys ⊢
      refine h.counted hkeys hok.1 rfl ?_
      simp only [CentreState.registeredIo, List.length_cons]
      omega
    · simp only [TimersMove, afterRegister_curTimers, CentreState.afterRegister_centre]
      rfl
  | registerTimer hp hheld he hc htimer hkey =>
    refine ⟨?_, ?_⟩
    · rw [CentreState.afterRegister_centre] at hkeys ⊢
      refine h.counted hkeys hok.1 rfl ?_
      simp only [CentreState.registeredTimer, List.length_cons]
      omega
    · simp only [TimersMove, afterRegister_curTimers, CentreState.afterRegister_centre,
        CentreState.registeredTimer, Objects.setCentre, Objects.modify, List.length_cons,
        add32_of_lt hok.2]
      omega
  | ignored hnot => exact ⟨h, rfl⟩
  | unmarked he hm => exact ⟨h, rfl⟩
  | cancel hp hpc he hc => exact ⟨⟨hkeys, h.num, h.room⟩, rfl⟩
  | makeWaitting hpc => exact ⟨⟨hkeys, h.num, h.room⟩, rfl⟩
  | notActive => exact ⟨h, rfl⟩
  | pushActive hpc hio hfd he hc => exact ⟨⟨hkeys, h.num, h.room⟩, rfl⟩
  | launch hpc hl =>
    cases hl with
    | expired hfront hp => exact ⟨⟨hkeys, h.num, h.room⟩, rfl⟩
    | rearm hfront hp hdue hloop => exact ⟨⟨hkeys, h.num, h.room⟩, rfl⟩
    | delete hfront hp hdue hloop hsuspend =>
      have hroot := CentreState.dueRoot_eq hpc hfront hp hdue
      have hloop' := hok _ hroot hsuspend
      rw [hloop] at hloop'
      cases hloop'
    | once hfront hp hdue hloop hsuspend => exact ⟨⟨hkeys, h.num, h.room⟩, rfl⟩
  | @delete entry rest e hpc hact he hfront =>
    have hkey : keyThere s.centre e := hok e (CentreState.takenCancel_eq hact he hfront)
    have hrest : CountInv (s.withActive rest).centre := ⟨⟨h.events, h.timers⟩, h.num, h.room⟩
    exact hrest.deleteEvent hcur hkey
  | skip hpc hact he hfront hc => exact ⟨⟨hkeys, h.num, h.room⟩, rfl⟩
  | wakeUp hpc hact he hfront hself => exact ⟨⟨hkeys, h.num, h.room⟩, rfl⟩
  | handle hpc hact he hfront hc hself => exact ⟨⟨hkeys, h.num, h.room⟩, rfl⟩
  | handleEnd hpc he => exact ⟨⟨hkeys, h.num, h.room⟩, rfl⟩

/-! ## Runs -/

structure WorldInv {n : ℕ} (w : World n) : Prop where
  counts : ∀ i, CountInv (w.centres i)
  timers : w.objs.curTimers = ∑ i, (w.centres i).timer.timerMap.length

theorem worldInv_start {n : ℕ} (fds : ℕ → ℕ) (pool : List (Fin n)) : WorldInv (World.start fds pool) := by
  constructor
  · intro i
    exact ⟨⟨List.nodup_singleton _, List.nodup_nil⟩, rfl, show (1 : ℤ) < 2147483648 by decide⟩
  · exact (Finset.sum_const_zero).symm

/-- What the other centres add to a sum over all of them. -/
def elsewhere {n : ℕ} (w : World n) (i : Fin n) (f : EventCentre → ℕ) : ℕ :=
  ∑ j ∈ Finset.univ.erase i, f (w.centres j)

theorem sum_eq_elsewhere {n : ℕ} (w : World n) (i : Fin n) (f : EventCentre → ℕ) :
    ∑ j, f (w.centres j) = elsewhere w i f + f (w.centres i) :=
  (Finset.sum_erase_add _ (fun j => f (w.centres j)) (Finset.mem_univ i)).symm

theorem sum_set {n : ℕ} (w : World n) (i : Fin n) (s : CentreState) (f : EventCentre → ℕ) :
    ∑ j, f ((w.set i s).centres j) = elsewhere w i f + f s.centre := by
  have hrest : elsewhere (w.set i s) i f = elsewhere w i f := by
    apply Finset.sum_congr rfl
    intro j hj
    have hne : j ≠ i := (Finset.mem_erase.mp hj).1
    simp [World.set, hne]
  rw [sum_eq_elsewhere (w.set i s) i f, hrest]
  simp [World.set]

theorem WorldInv.set {n : ℕ} {w : World n} {i : Fin n} {s : CentreState} (h : WorldInv w)
    (hs : CountInv s.centre) (hmove : TimersMove (w.at i) s) : WorldInv (w.set i s) := by
  constructor
  · intro j
    rcases eq_or_ne j i with rfl | hne
    · simpa [World.set] using hs
    · simpa [World.set, hne] using h.counts j
  · have hold := sum_eq_elsewhere w i fun c => c.timer.timerMap.length
    have hnew := sum_set w i s fun c => c.timer.timerMap.length
    have hcur := h.timers
    have hobjs : (w.set i s).objs.curTimers = s.objs.curTimers := rfl
    simp only [TimersMove, World.at] at hmove
    omega

theorem worldInv_centre {n : ℕ} {w v : World n} {i : Fin n} {op : CentreOp} (h : WorldInv w)
    (hok : counterOk (w.at i) op) (hv : (centreStep n i (w.at i) op).map (w.set i) = some v) :
    WorldInv v := by
  obtain ⟨s, hs, rfl⟩ := Option.map_eq_some_iff.mp hv
  have hcur : (w.centres i).timer.timerMap.length ≤ w.objs.curTimers := by
    have hsum := Finset.add_sum_erase Finset.univ
      (fun j => (w.centres j).timer.timerMap.length) (Finset.mem_univ i)
    have htimers := h.timers
    omega
  obtain ⟨hcount, hmove⟩ := countInv_step (h.counts i) hcur hok (centrePass_of_centreStep hs)
  exact h.set hcount hmove

/-- The step lemma. -/
theorem worldInv_step {n : ℕ} {w v : World n} {op : WorldOp n} (h : WorldInv w) (hok : worldOk w op)
    (hv : worldStep w op = some v) : WorldInv v := by
  cases op with
  | centre i op => exact worldInv_centre h hok hv
  | poolRegister p keep registFd =>
    simp only [worldStep] at hv
    cases hi : leastLoaded w with
    | none => simp [hi] at hv
    | some i =>
      simp only [hi] at hv
      exact worldInv_centre h (hok i hi) hv

/-- The counters say how many events there are. -/
def CountersAgree {n : ℕ} (w : World n) : Prop :=
  (∀ i, (w.centres i).eventsNum =
    ((w.centres i).events.length : ℤ) + (w.centres i).timer.timerMap.length) ∧
    w.objs.curTimers = ∑ i, (w.centres i).timer.timerMap.length

def betweenRounds {n : ℕ} (w : World n) : Prop :=
  ∀ i, (w.centres i).pc = .stopped ∨ (w.centres i).pc = .top

instance {n : ℕ} (w : World n) : Decidable (CountersAgree w) := by
  unfold CountersAgree
  infer_instance

instance {n : ℕ} (w : World n) : Decidable (betweenRounds w) := by
  unfold betweenRounds
  infer_instance

/-- In a run that meets `worldOk` at every step the counters agree with the registries, between the
rounds and in them. -/
theorem counters_agree {n : ℕ} {fds : ℕ → ℕ} {pool : List (Fin n)} {ops : List (WorldOp n)}
    {w : World n} (hg : Guarded worldStep worldOk (.start fds pool) ops)
    (hw : exec worldStep (.start fds pool) ops = some w) : CountersAgree w := by
  have hinv : WorldInv w :=
    invariant_of_guarded (fun _ _ _ => worldInv_step) (worldInv_start fds pool) hg hw
  exact ⟨fun i => (hinv.counts i).num, hinv.timers⟩

/-- Two centres in a pool: an event that is cancelled and deleted, and a timer that cancels itself. -/
def worldSample : List (WorldOp 2) :=
  [.centre 0 (.object (.create evIoread 20 0 0 false)), .poolRegister 2 true true,
    .centre 0 (.object (.create evTimeout 1 5 0 true)), .poolRegister 3 true true,
    .centre 0 (.cancel 2), .centre 0 (.control .start), .centre 0 .makeWaitting,
    .centre 0 (.control (.calcTimeout 0)), .centre 0 (.control .pollReturn),
    .centre 0 (.control (.launchBegin 0)), .centre 0 (.control .launchEnd),
    .centre 0 (.control .processBegin), .centre 0 .take, .centre 0 (.control .processEnd),
    .centre 1 (.control .start), .centre 1 .makeWaitting, .centre 1 (.control (.calcTimeout 1)),
    .centre 1 (.control .pollReturn), .centre 1 (.control (.launchBegin 6)), .centre 1 (.launchIter 6),
    .centre 1 (.control .launchEnd), .centre 1 (.control .processBegin), .centre 1 .take,
    .centre 1 (.cancel 3), .centre 1 .handleEnd, .centre 1 (.control .processEnd)]

def worldSampleStart : World 2 := .start (fun i => i + 10) [0, 1]

def worldSampleEnd : World 2 := (exec worldStep worldSampleStart worldSample).get (by decide +kernel)

theorem counters_agree_sample : CountersAgree worldSampleEnd :=
  counters_agree (show Guarded worldStep worldOk worldSampleStart worldSample by decide +kernel)
    (Option.some_get _).symm

/-- `Launch` deletes a suspended one-shot timer, and `m_eventsNum` still counts it after the round. -/
theorem counters_disagree :
    ¬ ∀ (n : ℕ) (fds : ℕ → ℕ) (pool : List (Fin n)) (ops : List (WorldOp n)) (w : World n),
      exec worldStep (.start fds pool) ops = some w → betweenRounds w → CountersAgree w := by
  intro h
  have hrun := h 1 (fun _ => 10) []
    [.centre 0 (.object (.create evTimeout 1 5 0 false)), .centre 0 (.register 1 true true),
      .centre 0 (.object (.suspend 1 true)), .centre 0 (.control .start), .centre 0 .makeWaitting,
      .centre 0 (.control (.calcTimeout 1)), .centre 0 (.control .pollReturn),
      .centre 0 (.control (.launchBegin 10)), .centre 0 (.launchIter 10),
      .centre 0 (.control .launchEnd), .centre 0 (.control .processBegin),
      .centre 0 (.control .processEnd)] _ (Option.some_get (by decide +kernel)).symm
  revert hrun
  decide +kernel

end Chaos.EventCounters
