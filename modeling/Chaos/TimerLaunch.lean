import Chaos.GuardedRuns
import Chaos.MinHeapOrder
import Chaos.Timer

/-!
# Launch and the order of the deadlines

Runs of `AddTimer`, `DelTimer`, the end of timer objects and `Launch`. As long as every `Push` and `Pop`
meets the conditions of the heap and a re-armed timer has no other entry that its new deadline puts out
of order, a live root is the earliest live entry, and a `Launch` leaves no due timer behind.
-/
namespace Chaos.Timer

open ExpiringHeap MinHeap GuardedRuns

/-- The deadline behind a weak pointer. -/
def deadline (o : Objects) (p : ℕ) : Option ℕ := (o.store p).map Event.nextTime

theorem timerCmp_eq (o : Objects) : timerCmp o = cmpKey (deadline o) := by
  funext l r
  simp only [timerCmp, cmpKey, liveLt, deadline]
  cases o.store l <;> cases o.store r <;> rfl

/-- The entries of `p` other than the root are in order with the entries above and below them. -/
def otherEntriesOk (o : Objects) (heap : List ℕ) (p : ℕ) : Prop :=
  ∀ i ≤ heap.length, 2 ≤ i → heap[i - 1]? = some p →
    noneLaterAbove (deadline o) 2 heap i (deadline o p) ∧
      noneEarlierBelow (deadline o) heap i (deadline o p)

instance (o : Objects) (heap : List ℕ) (p : ℕ) : Decidable (otherEntriesOk o heap p) := by
  unfold otherEntriesOk
  infer_instance

/-- What `SetNextTime`, `Push` and `Pop` of the root `p` ask for. -/
def rearmOk (o : Objects) (t : Timer) (p : ℕ) : Prop :=
  otherEntriesOk o t.heap.heap p ∧ pushOk (deadline o) 2 t.heap.heap p ∧
    popOk (deadline o) (t.push o p).heap.heap

instance (o : Objects) (t : Timer) (p : ℕ) : Decidable (rearmOk o t p) := by
  unfold rearmOk
  infer_instance

/-- The conditions of the heap in one pass of `Launch`. -/
def iterOk (now : ℕ) (s : LaunchState) (clk : ℕ) : Prop :=
  match s.timer.heap.front with
  | none => True
  | some p =>
    match s.objs.store p with
    | none => popOk (deadline s.objs) s.timer.heap.heap
    | some e =>
      if now < e.nextTime then True
      else if e.isLoop then rearmOk (setNextTime s.objs p clk) s.timer p
      else if e.isSuspend then popOk (deadline (afterErase s.objs s.timer p e)) s.timer.heap.heap
      else popOk (deadline s.objs) s.timer.heap.heap

instance (now : ℕ) (s : LaunchState) (clk : ℕ) : Decidable (iterOk now s clk) := by
  unfold iterOk
  cases s.timer.heap.front with
  | none => exact isTrue trivial
  | some p =>
    dsimp only
    cases s.objs.store p <;> infer_instance

/-- `Launch` at the time `now`, with a clock reading for every pass; `none` when it is not over yet. -/
def launch (now : ℕ) (clks : List ℕ) (s : LaunchState) : Option LaunchState :=
  match exec (launchIter now) s clks with
  | none => none
  | some s => if (launchIter now s 0).isNone then some s else none

/-- The live, not suspended entries due at `now`. -/
def dueEntries (o : Objects) (t : Timer) (now : ℕ) : List ℕ :=
  t.heap.heap.filter fun p => match o.store p with
    | some e => !e.isSuspend && decide (e.nextTime ≤ now)
    | none => false

/-- `missed` collects, at every `Launch`, the timers that were due and neither activated nor destroyed,
and the entries still due after it. -/
structure TimerRun where
  objs : Objects
  timer : Timer
  missed : List ℕ

inductive TimerOp where
  | create (evKey timeoutMs clk : ℕ) (isLoop : Bool)
  | add (p : ℕ)
  | del (p : ℕ)
  | drop (p : ℕ)
  | suspend (p : ℕ) (isSuspend : Bool)
  | setLoop (p : ℕ) (isLoop : Bool)
  | launch (now : ℕ) (clks : List ℕ)

def TimerRun.start : TimerRun := ⟨.empty, .new, []⟩

def timerEvent (evKey timeoutMs clk : ℕ) (isLoop : Bool) : Event :=
  ⟨none, timeoutCartEvent ||| baseCareEvent, [], evKey, timeoutMs, clk + timeoutMs, isLoop, false⟩

def missedBy (s : TimerRun) (now : ℕ) (s' : LaunchState) : List ℕ :=
  ((dueEntries s.objs s.timer now).filter fun p => !s'.active.contains p && (s'.objs.store p).isSome) ++
    dueEntries s'.objs s'.timer now

def timerStep (s : TimerRun) : TimerOp → Option TimerRun
  | .create evKey timeoutMs clk isLoop =>
    some { s with objs := s.objs.create (timerEvent evKey timeoutMs clk isLoop) }
  | .add p => (addTimer s.objs s.timer p).map fun r => { s with objs := r.1, timer := r.2 }
  | .del p => (s.objs.store p).map fun e =>
    let r := delTimer s.objs s.timer e
    { s with
      objs := match r.2.2 with
        | some q => r.1.release q
        | none => r.1
      timer := r.2.1 }
  | .drop p => some { s with objs := s.objs.drop p }
  | .suspend p b => some { s with objs := s.objs.modify p fun e => { e with isSuspend := b } }
  | .setLoop p b => some { s with objs := s.objs.modify p fun e => { e with isLoop := b } }
  | .launch now clks => (launch now clks ⟨s.objs, s.timer, []⟩).map fun s' =>
    ⟨s'.objs, s'.timer, s.missed ++ missedBy s now s'⟩

/-- The conditions of the heap in one operation. -/
def timerOk (s : TimerRun) : TimerOp → Prop
  | .add p => (addTimer s.objs s.timer p).isSome → pushOk (deadline s.objs) 1 s.timer.heap.heap p
  | .launch now clks => Guarded (launchIter now) (iterOk now) ⟨s.objs, s.timer, []⟩ clks
  | _ => True

instance (s : TimerRun) (op : TimerOp) : Decidable (timerOk s op) := by
  cases op <;> (dsimp only [timerOk]; infer_instance)

/-- The deadlines are in order along the paths of the heap. -/
def Ordered (o : Objects) (t : Timer) : Prop := HeapFrom 1 (keyAt (deadline o) t.heap.heap)

/-! ## The heap in one pass -/

theorem keyAt_deadline_congr {o o' : Objects} {heap : List ℕ}
    (h : ∀ p ∈ heap, deadline o' p = deadline o p ∨ deadline o' p = none) (i : ℕ) :
    keyAt (deadline o') heap i = keyAt (deadline o) heap i ∨ keyAt (deadline o') heap i = none := by
  simp only [keyAt]
  split_ifs
  · exact Or.inl rfl
  · cases hp : heap[i - 1]? with
    | none => exact Or.inl rfl
    | some p => exact h p (List.mem_of_getElem? hp)

/-- Deadlines of entries that go leave the order alone. -/
theorem Ordered.of_deadline {o o' : Objects} {t : Timer} (h : Ordered o t)
    (hd : ∀ p ∈ t.heap.heap, deadline o' p = deadline o p ∨ deadline o' p = none) : Ordered o' t :=
  HeapFrom.expire h (keyAt_deadline_congr hd)

theorem Ordered.expire {o o' : Objects} {t : Timer} (h : Ordered o t)
    (hd : ∀ p, o'.store p = o.store p ∨ o'.store p = none) : Ordered o' t := by
  apply h.of_deadline
  intro p _
  simp only [deadline]
  rcases hd p with hp | hp
  · exact Or.inl (by rw [hp])
  · exact Or.inr (by rw [hp]; rfl)

theorem Ordered.pop {o : Objects} {t : Timer} (h : HeapFrom 2 (keyAt (deadline o) t.heap.heap))
    (hok : popOk (deadline o) t.heap.heap) : Ordered o (t.pop o) := by
  rw [Ordered, Timer.pop]
  rw [timerCmp_eq]
  exact heapFrom_pop h hok

theorem front_eq {t : Timer} {p : ℕ} (h : t.heap.front = some p) : ∃ xs, t.heap.heap = p :: xs :=
  List.head?_eq_some_iff.mp h

/-- Re-arming the root: its new deadline is out of order with nothing but the root, which goes. -/
theorem Ordered.rearm {o : Objects} {t : Timer} {p clk : ℕ} (h : Ordered o t)
    (hfront : t.heap.front = some p) (hok : rearmOk (setNextTime o p clk) t p) :
    Ordered (setNextTime o p clk) ((t.push (setNextTime o p clk) p).pop (setNextTime o p clk)) := by
  obtain ⟨hother, hpush, hpop⟩ := hok
  obtain ⟨xs, hxs⟩ := front_eq hfront
  set o' := setNextTime o p clk with ho'
  have hsame (q : ℕ) (hq : q ≠ p) : deadline o' q = deadline o q := by
    simp only [deadline]
    rw [ho', setNextTime, Objects.modify_of_ne o p q _ hq]
  have hkey (i : ℕ) (hi : t.heap.heap[i - 1]? ≠ some p) :
      keyAt (deadline o') t.heap.heap i = keyAt (deadline o) t.heap.heap i := by
    simp only [keyAt]
    split_ifs
    · rfl
    · cases hq : t.heap.heap[i - 1]? with
      | none => rfl
      | some q =>
        rw [hq] at hi
        exact hsame q fun hqp => hi (by rw [hqp])
  have hbelow : HeapFrom 2 (keyAt (deadline o') t.heap.heap) := by
    intro i j hi hij
    have hlt := hij.lt
    rcases Nat.lt_or_ge t.heap.heap.length j with hend | hj
    · rw [@keyAt_beyond _ _ _ _ j hend]
      exact liveLe_none_right _
    · by_cases hip : t.heap.heap[i - 1]? = some p
      · rw [keyAt_of_get (by omega) hip]
        exact (hother i (by omega) hi hip).2 j hj hij
      · by_cases hjp : t.heap.heap[j - 1]? = some p
        · rw [@keyAt_of_get _ _ _ _ j (by omega) _ hjp]
          exact (hother j hj (by omega) hjp).1 i (by omega) hi hij
        · rw [hkey i hip, hkey j hjp]
          exact h i j (by omega) hij
  have htop : ∀ i < 2, liveLt (deadline o' p) (keyAt (deadline o') t.heap.heap i) = false := by
    intro i hi
    apply Bool.eq_false_iff.mpr
    intro hlt
    obtain ⟨x, y, hx, hy, hxy⟩ := liveLt_eq_true.mp hlt
    obtain rfl | rfl : i = 0 ∨ i = 1 := by omega
    · simp [keyAt] at hy
    · have hroot : keyAt (deadline o') t.heap.heap 1 = deadline o' p :=
        keyAt_of_get le_rfl (by rw [hxs]; rfl)
      rw [hroot, hx, Option.some.injEq] at hy
      omega
  apply Ordered.pop _ hpop
  rw [Timer.push]
  rw [timerCmp_eq]
  exact heapFrom_push hbelow htop hpush (by rw [hxs]; simp)

theorem afterErase_store (o : Objects) (t : Timer) (p q : ℕ) (e : Event) :
    (afterErase o t p e).store q = o.store q ∨ (afterErase o t p e).store q = none := by
  rw [afterErase, delTimer]
  cases t.timerMap.lookup e.evKey with
  | none => exact Or.inl rfl
  | some r =>
    dsimp only
    split_ifs
    · exact Or.inl rfl
    · rcases Objects.release_store { o.dropOwner r with curTimers := _ } r q with h | ⟨_, h⟩
      · exact Or.inl h
      · exact Or.inr h

theorem launchDelTimer_store (s : LaunchState) (p q : ℕ) (e : Event) :
    (launchDelTimer s p e).objs.store q = s.objs.store q ∨
      (launchDelTimer s p e).objs.store q = none := by
  rcases Objects.release_store (afterErase s.objs s.timer p e) p q with h | ⟨_, h⟩
  · rcases afterErase_store s.objs s.timer p q e with h' | h'
    · exact Or.inl (h.trans h')
    · exact Or.inr (h.trans h')
  · exact Or.inr h

/-- A pass of `Launch` keeps the order. -/
theorem Ordered.launchPass {now clk : ℕ} {s s' : LaunchState} (h : Ordered s.objs s.timer)
    (hok : iterOk now s clk) (hs : LaunchPass now clk s s') : Ordered s'.objs s'.timer := by
  have hbelow : HeapFrom 2 (keyAt (deadline s.objs) s.timer.heap.heap) := HeapFrom.mono h (by omega)
  rw [iterOk] at hok
  cases hs with
  | expired hfront hp =>
    simp only [hfront, hp] at hok
    exact Ordered.pop hbelow hok
  | rearm hfront hp hdue hloop =>
    simp only [hfront, hp, if_neg (Nat.not_lt.mpr hdue), hloop, if_true] at hok
    exact h.rearm hfront hok
  | @delete p e hfront hp hdue hloop hsuspend =>
    simp only [hfront, hp, if_neg (Nat.not_lt.mpr hdue), hloop, hsuspend, Bool.false_eq_true, if_false,
      if_true] at hok
    have herase : Ordered (afterErase s.objs s.timer p e) s.timer :=
      h.expire fun q => afterErase_store s.objs s.timer p q e
    have hpop : Ordered (afterErase s.objs s.timer p e)
        ((delTimer s.objs s.timer e).2.1.pop (afterErase s.objs s.timer p e)) :=
      Ordered.pop (t := (delTimer s.objs s.timer e).2.1) (HeapFrom.mono herase (by omega)) hok
    refine hpop.expire fun q => ?_
    rcases Objects.release_store (afterErase s.objs s.timer p e) p q with hq | ⟨_, hq⟩
    · exact Or.inl hq
    · exact Or.inr hq
  | once hfront hp hdue hloop hsuspend =>
    simp only [hfront, hp, if_neg (Nat.not_lt.mpr hdue), hloop, hsuspend, Bool.false_eq_true,
      if_false] at hok
    exact Ordered.pop hbelow hok

/-- A live root is the earliest live entry. -/
theorem Ordered.root_le {o : Objects} {t : Timer} (h : Ordered o t) {p q x y : ℕ}
    (hfront : t.heap.front = some p) (hx : deadline o p = some x) (hq : q ∈ t.heap.heap)
    (hy : deadline o q = some y) : x ≤ y := by
  obtain ⟨xs, hxs⟩ := front_eq hfront
  obtain ⟨i, hi⟩ := List.mem_iff_getElem?.mp hq
  have hroot : keyAt (deadline o) t.heap.heap 1 = some x := by
    rw [keyAt_of_get le_rfl (by rw [hxs]; rfl), hx]
  have hat : keyAt (deadline o) t.heap.heap (i + 1) = some y := by
    rw [keyAt_of_get (by omega) hi, hy]
  exact HeapFrom.root_le h hroot (by omega) hat

/-! ## No due timer is left behind -/

theorem mem_pop {o : Objects} {t : Timer} {p q : ℕ} (hfront : t.heap.front = some p)
    (hq : q ∈ t.heap.heap) (hne : q ≠ p) : q ∈ (t.pop o).heap.heap := by
  obtain ⟨xs, hxs⟩ := front_eq hfront
  rw [hxs] at hq
  exact (perm_pop (timerCmp o) hxs).mem_iff.mpr ((List.mem_cons.mp hq).resolve_left hne)

/-- A re-armed root is the root after its `Push` too. -/
theorem front_rearm {p : ℕ} {s : LaunchState} (hfront : s.timer.heap.front = some p) (clk : ℕ) :
    (s.timer.push (setNextTime s.objs p clk) p).heap.front = some p := by
  obtain ⟨xs, hxs⟩ := front_eq hfront
  have hself : timerCmp (setNextTime s.objs p clk) p p = false := by
    rw [timerCmp]
    cases (setNextTime s.objs p clk).store p with
    | none => rfl
    | some e => simp
  exact front_push hxs hself

/-- A re-armed timer comes back: `Push` puts it in front of its old entry or in its place. -/
theorem perm_launchLoopTimer {p : ℕ} {l : LaunchState} {clk : ℕ} (hfront : l.timer.heap.front = some p) :
    (launchLoopTimer clk l p).timer.heap.heap.Perm l.timer.heap.heap := by
  obtain ⟨xs, hxs⟩ := front_eq hfront
  have hpush := MinHeap.perm_push (timerCmp (setNextTime l.objs p clk)) l.timer.heap p
  obtain ⟨ys, hys⟩ := front_eq (front_rearm hfront clk)
  have hpop : (launchLoopTimer clk l p).timer.heap.heap.Perm ys := MinHeap.perm_pop _ hys
  have hcons : (p :: ys).Perm (p :: l.timer.heap.heap) := hys ▸ hpush
  exact hpop.trans hcons.cons_inv

theorem mem_launchLoopTimer {clk p q : ℕ} {s : LaunchState} (hfront : s.timer.heap.front = some p)
    (hq : q ∈ s.timer.heap.heap) (hne : q ≠ p) : q ∈ (launchLoopTimer clk s p).timer.heap.heap := by
  have hmem : q ∈ (s.timer.push (setNextTime s.objs p clk) p).heap.heap :=
    (perm_push _ s.timer.heap p).mem_iff.mpr (List.mem_cons_of_mem _ hq)
  exact mem_pop (front_rearm hfront clk) hmem hne

/-- Still to be activated by the launch at `now`. -/
def Waiting (now : ℕ) (s : LaunchState) (p : ℕ) : Prop :=
  p ∈ s.timer.heap.heap ∧ ∃ e, s.objs.store p = some e ∧ e.isSuspend = false ∧ e.nextTime ≤ now

/-- What a pass makes of a timer that is due: it is activated, destroyed, or waits on. -/
theorem Waiting.launchPass {now clk p : ℕ} {s s' : LaunchState} (h : Waiting now s p)
    (hs : LaunchPass now clk s s') : p ∈ s'.active ∨ s'.objs.store p = none ∨ Waiting now s' p := by
  obtain ⟨hmem, e, he, hsuspend, hdue⟩ := h
  cases hs with
  | expired hfront hp =>
    refine Or.inr (Or.inr ⟨mem_pop hfront hmem ?_, e, he, hsuspend, hdue⟩)
    rintro rfl
    simp [hp] at he
  | @rearm r er hfront hp hdue' hloop =>
    rcases eq_or_ne p r with rfl | hne
    · left
      rw [hp, Option.some.injEq] at he
      simp [launchLoopTimer, he, hsuspend]
    · refine Or.inr (Or.inr ⟨mem_launchLoopTimer hfront hmem hne, e, ?_, hsuspend, hdue⟩)
      exact (Objects.modify_of_ne s.objs r p _ hne).trans he
  | @delete r er hfront hp hdue' hloop hsuspend' =>
    have hne : p ≠ r := by
      rintro rfl
      rw [hp, Option.some.injEq] at he
      rw [← he, hsuspend'] at hsuspend
      exact Bool.false_ne_true hsuspend.symm
    rcases launchDelTimer_store s r p er with hstore | hstore
    · exact Or.inr (Or.inr ⟨mem_pop (t := (delTimer s.objs s.timer er).2.1) hfront hmem hne, e,
        hstore.trans he, hsuspend, hdue⟩)
    · exact Or.inr (Or.inl hstore)
  | @once r er hfront hp hdue' hloop hsuspend' =>
    rcases eq_or_ne p r with rfl | hne
    · exact Or.inl (List.mem_append_right _ (List.mem_singleton_self p))
    · exact Or.inr (Or.inr ⟨mem_pop hfront hmem hne, e, he, hsuspend, hdue⟩)

theorem launchPass_active {now clk p : ℕ} {s s' : LaunchState} (h : p ∈ s.active)
    (hs : LaunchPass now clk s s') : p ∈ s'.active := by
  cases hs with
  | expired hfront hp => exact h
  | rearm hfront hp hdue hloop =>
    simp only [launchLoopTimer]
    split_ifs
    · exact h
    · exact List.mem_append_left _ h
  | delete hfront hp hdue hloop hsuspend => exact h
  | once hfront hp hdue hloop hsuspend => exact List.mem_append_left _ h

theorem launchPass_gone {now clk p : ℕ} {s s' : LaunchState} (h : s.objs.store p = none)
    (hs : LaunchPass now clk s s') : s'.objs.store p = none := by
  cases hs with
  | expired hfront hp => exact h
  | @rearm r er hfront hp hdue hloop =>
    have hne : p ≠ r := by
      rintro rfl
      simp [hp] at h
    exact (Objects.modify_of_ne s.objs r p _ hne).trans h
  | @delete r er hfront hp hdue hloop hsuspend =>
    rcases launchDelTimer_store s r p er with hstore | hstore
    · exact hstore.trans h
    · exact hstore
  | once hfront hp hdue hloop hsuspend => exact h

theorem mem_of_mem_pop {o : Objects} {t : Timer} {q : ℕ} (hq : q ∈ (t.pop o).heap.heap) :
    q ∈ t.heap.heap := MinHeap.mem_of_mem_pop hq

/-- A `Pop` takes away the root, which is not there again. -/
theorem mem_pop_iff {o : Objects} {t : Timer} {p : ℕ} (hfront : t.heap.front = some p) (honce : t.heap.heap.Nodup) (q : ℕ) :
    q ∈ (t.pop o).heap.heap ↔ q ∈ t.heap.heap ∧ q ≠ p := by
  obtain ⟨xs, hxs⟩ := front_eq hfront
  have hperm : (t.pop o).heap.heap.Perm xs := MinHeap.perm_pop _ hxs
  rw [hxs, List.nodup_cons] at honce
  rw [hperm.mem_iff, hxs, List.mem_cons]
  constructor
  · intro hq
    exact ⟨Or.inr hq, fun heq => honce.1 (heq ▸ hq)⟩
  · rintro ⟨hq | hq, hne⟩
    · exact absurd hq hne
    · exact hq

theorem nodup_pop {o : Objects} {t : Timer} {p : ℕ} (hfront : t.heap.front = some p) (honce : t.heap.heap.Nodup) :
    (t.pop o).heap.heap.Nodup := by
  obtain ⟨xs, hxs⟩ := front_eq hfront
  have hperm : (t.pop o).heap.heap.Perm xs := MinHeap.perm_pop _ hxs
  rw [hxs, List.nodup_cons] at honce
  exact hperm.nodup_iff.mpr honce.2

/-- A pass brings no new entry into the heap. -/
theorem launchPass_mem {now clk q : ℕ} {s s' : LaunchState} (hs : LaunchPass now clk s s')
    (hq : q ∈ s'.timer.heap.heap) : q ∈ s.timer.heap.heap := by
  cases hs with
  | expired hfront hp => exact mem_of_mem_pop hq
  | @rearm r er hfront hp hdue hloop =>
    obtain ⟨xs, hxs⟩ := front_eq hfront
    rcases List.mem_cons.mp ((perm_push _ s.timer.heap r).mem_iff.mp (mem_of_mem_pop hq)) with rfl | hq
    · simp [hxs]
    · exact hq
  | @delete r er hfront hp hdue hloop hsuspend =>
    exact mem_of_mem_pop (t := (delTimer s.objs s.timer er).2.1) hq
  | once hfront hp hdue hloop hsuspend => exact mem_of_mem_pop hq

theorem launchPass_fresh {now clk : ℕ} {s s' : LaunchState} (hs : LaunchPass now clk s s') :
    s'.objs.fresh = s.objs.fresh := by
  cases hs with
  | expired hfront hp => rfl
  | rearm hfront hp hdue hloop => rfl
  | @delete r er hfront hp hdue hloop hsuspend =>
    refine (Objects.release_fresh _ r).trans ?_
    rw [afterErase, delTimer]
    cases s.timer.timerMap.lookup er.evKey with
    | none => rfl
    | some q =>
      dsimp only
      split_ifs
      · rfl
      · exact Objects.release_fresh _ q
  | once hfront hp hdue hloop hsuspend => rfl

/-- The addresses from `fresh` on are in no use. -/
structure Bounded (o : Objects) (t : Timer) : Prop where
  store : ∀ p, o.fresh ≤ p → o.store p = none
  heap : ∀ p ∈ t.heap.heap, p < o.fresh

structure LaunchInv (now : ℕ) (due : List ℕ) (s : LaunchState) : Prop where
  ordered : Ordered s.objs s.timer
  bounded : Bounded s.objs s.timer
  kept : ∀ p ∈ due, p ∈ s.active ∨ s.objs.store p = none ∨ Waiting now s p

theorem launchInv_step {now clk : ℕ} {due : List ℕ} {s s' : LaunchState} (h : LaunchInv now due s)
    (hok : iterOk now s clk) (hs : launchIter now s clk = some s') : LaunchInv now due s' := by
  have hpass := launchPass_of_launchIter hs
  refine ⟨h.ordered.launchPass hok hpass, ⟨?_, ?_⟩, fun p hp => ?_⟩
  · intro p hp
    rw [launchPass_fresh hpass] at hp
    exact launchPass_gone (h.bounded.store p hp) hpass
  · intro p hp
    rw [launchPass_fresh hpass]
    exact h.bounded.heap p (launchPass_mem hpass hp)
  · rcases h.kept p hp with hact | hgone | hwait
    · exact Or.inl (launchPass_active hact hpass)
    · exact Or.inr (Or.inl (launchPass_gone hgone hpass))
    · exact hwait.launchPass hpass

theorem mem_dueEntries {o : Objects} {t : Timer} {now p : ℕ} :
    p ∈ dueEntries o t now ↔ p ∈ t.heap.heap ∧
      ∃ e, o.store p = some e ∧ e.isSuspend = false ∧ e.nextTime ≤ now := by
  rw [dueEntries]
  rw [List.mem_filter]
  cases o.store p <;> simp

/-- When the launch ends, nothing that is due waits in the heap. -/
theorem LaunchInv.none_waiting {now clk : ℕ} {due : List ℕ} {s : LaunchState}
    (h : LaunchInv now due s) (hend : launchIter now s clk = none) (p : ℕ) : ¬ Waiting now s p := by
  rintro ⟨hmem, e, he, _, hdue⟩
  rcases launchIter_eq_none hend with hnil | ⟨r, er, hfront, hr, hlate⟩
  · simp [hnil] at hmem
  · have hle := h.ordered.root_le hfront (show deadline s.objs r = some er.nextTime by simp [deadline, hr])
      hmem (show deadline s.objs p = some e.nextTime by simp [deadline, he])
    omega

/-- A launch whose passes meet `iterOk` keeps the order and misses no timer. -/
theorem Ordered.launch {now : ℕ} {clks : List ℕ} {s : TimerRun} {s' : LaunchState}
    (h : Ordered s.objs s.timer) (hb : Bounded s.objs s.timer)
    (hok : Guarded (launchIter now) (iterOk now) ⟨s.objs, s.timer, []⟩ clks)
    (hs : launch now clks ⟨s.objs, s.timer, []⟩ = some s') :
    Ordered s'.objs s'.timer ∧ Bounded s'.objs s'.timer ∧ missedBy s now s' = [] := by
  rw [Timer.launch] at hs
  cases hrun : exec (launchIter now) ⟨s.objs, s.timer, []⟩ clks with
  | none => simp [hrun] at hs
  | some u =>
    simp only [hrun, Option.ite_none_right_eq_some, Option.some.injEq, Option.isNone_iff_eq_none] at hs
    obtain ⟨hend, rfl⟩ := hs
    have hstart : LaunchInv now (dueEntries s.objs s.timer now) ⟨s.objs, s.timer, []⟩ :=
      ⟨h, hb, fun p hp => Or.inr (Or.inr (mem_dueEntries.mp hp))⟩
    have hinv := invariant_of_guarded (fun _ _ _ => launchInv_step) hstart hok hrun
    refine ⟨hinv.ordered, hinv.bounded, ?_⟩
    rw [missedBy]
    rw [List.append_eq_nil_iff]
    constructor
    · rw [List.filter_eq_nil_iff]
      intro p hp
      rcases hinv.kept p hp with hact | hgone | hwait
      · simp [hact]
      · simp [hgone]
      · exact absurd hwait (hinv.none_waiting hend p)
    · apply List.eq_nil_iff_forall_not_mem.mpr
      intro p hp
      exact hinv.none_waiting hend p (mem_dueEntries.mp hp)

/-! ## Runs -/

structure TimerInv (s : TimerRun) : Prop where
  ordered : Ordered s.objs s.timer
  bounded : Bounded s.objs s.timer
  missed : s.missed = []

theorem timerInv_start : TimerInv .start := by
  refine ⟨?_, ⟨fun _ _ => rfl, ?_⟩, rfl⟩
  · intro i j _ hij
    have hlt := hij.lt
    have hgone : keyAt (deadline Objects.empty) ([] : List ℕ) j = none := keyAt_beyond (by simp; omega)
    exact hgone ▸ liveLe_none_right _
  · simp [TimerRun.start, Timer.new, MinHeap.new]

/-- An operation that adds no object, no entry and no deadline keeps the invariant. -/
theorem TimerInv.of_store {s : TimerRun} {o : Objects} {t : Timer} (h : TimerInv s)
    (hfresh : o.fresh = s.objs.fresh) (hheap : t.heap = s.timer.heap)
    (hstore : ∀ p, deadline o p = deadline s.objs p ∨ deadline o p = none) :
    TimerInv ⟨o, t, s.missed⟩ := by
  refine ⟨?_, ⟨?_, ?_⟩, h.missed⟩
  · have hord := h.ordered.of_deadline fun p _ => hstore p
    rw [Ordered] at hord ⊢
    rw [hheap]
    exact hord
  · intro p hp
    have hgone := h.bounded.store p (hfresh ▸ hp)
    rcases hstore p with hd | hd
    · simpa [deadline, hgone] using hd
    · simpa [deadline] using hd
  · intro p hp
    simp only [hheap] at hp
    simp only [hfresh]
    exact h.bounded.heap p hp

theorem deadline_of_store {o o' : Objects} {p : ℕ} (h : o'.store p = o.store p ∨ o'.store p = none) :
    deadline o' p = deadline o p ∨ deadline o' p = none := by
  simp only [deadline]
  rcases h with h | h
  · exact Or.inl (by rw [h])
  · exact Or.inr (by rw [h]; rfl)

/-- A change that keeps the time of an entry moves no deadline. -/
theorem deadline_modify (o : Objects) (p q : ℕ) {f : Event → Event} (hf : ∀ e, (f e).nextTime = e.nextTime) :
    deadline (o.modify p f) q = deadline o q := by
  simp only [deadline]
  rcases eq_or_ne q p with rfl | hne
  · rw [Objects.modify_self, Option.map_map]
    exact congrArg (Option.map · (o.store q)) (funext hf)
  · rw [Objects.modify_of_ne o p q f hne]

theorem timerInv_add {s t : TimerRun} {p : ℕ} (h : TimerInv s) (hok : timerOk s (.add p))
    (ht : timerStep s (.add p) = some t) : TimerInv t := by
  simp only [timerStep, Option.map_eq_some_iff] at ht
  obtain ⟨r, hr, rfl⟩ := ht
  have hpush := hok (by rw [hr]; rfl)
  rw [addTimer] at hr
  cases hp : s.objs.store p with
  | none => simp [hp] at hr
  | some e =>
    simp only [hp, Option.ite_none_left_eq_some, Option.some.injEq] at hr
    obtain ⟨_, rfl⟩ := hr
    have hlive : p < s.objs.fresh := by
      by_contra hge
      rw [h.bounded.store p (by omega)] at hp
      cases hp
    refine ⟨?_, ⟨h.bounded.store, ?_⟩, h.missed⟩
    · show HeapFrom 1 (keyAt (deadline s.objs) (s.timer.heap.push (timerCmp s.objs) p).heap)
      rw [timerCmp_eq]
      refine heapFrom_push h.ordered ?_ hpush (by omega)
      intro i hi
      obtain rfl : i = 0 := by omega
      simp [keyAt, liveLt]
    · intro q hq
      rcases List.mem_cons.mp ((perm_push _ s.timer.heap p).mem_iff.mp hq) with rfl | hq
      · exact hlive
      · exact h.bounded.heap q hq

/-- The step lemma. -/
theorem timerInv_step {s t : TimerRun} {op : TimerOp} (h : TimerInv s) (hok : timerOk s op)
    (ht : timerStep s op = some t) : TimerInv t := by
  cases op with
  | create evKey timeoutMs clk isLoop =>
    obtain rfl := Option.some.inj ht
    refine ⟨?_, ⟨?_, ?_⟩, h.missed⟩
    · refine h.ordered.of_deadline fun p hp => Or.inl ?_
      have hne : p ≠ s.objs.fresh := (h.bounded.heap p hp).ne
      simp [deadline, Objects.create, hne]
    · intro p hp
      have hge : s.objs.fresh + 1 ≤ p := hp
      have hne : p ≠ s.objs.fresh := by omega
      simpa [Objects.create, hne] using h.bounded.store p (by omega)
    · intro p hp
      exact (h.bounded.heap p hp).trans (Nat.lt_succ_self _)
  | add p => exact timerInv_add h hok ht
  | del p =>
    simp only [timerStep, Option.map_eq_some_iff] at ht
    obtain ⟨e, he, rfl⟩ := ht
    rw [delTimer]
    cases s.timer.timerMap.lookup e.evKey with
    | none => exact h.of_store rfl rfl fun q => Or.inl rfl
    | some r =>
      refine h.of_store (Objects.release_fresh _ r) rfl fun q => deadline_of_store ?_
      rcases Objects.release_store { s.objs.dropOwner r with curTimers := _ } r q with hq | ⟨_, hq⟩
      · exact Or.inl hq
      · exact Or.inr hq
  | drop p =>
    obtain rfl := Option.some.inj ht
    refine h.of_store (Objects.release_fresh _ p) rfl fun q => deadline_of_store ?_
    rcases Objects.drop_store s.objs p q with hq | ⟨_, hq⟩
    · exact Or.inl hq
    · exact Or.inr hq
  | suspend p b =>
    obtain rfl := Option.some.inj ht
    exact h.of_store rfl rfl fun q => Or.inl (deadline_modify s.objs p q fun _ => rfl)
  | setLoop p b =>
    obtain rfl := Option.some.inj ht
    exact h.of_store rfl rfl fun q => Or.inl (deadline_modify s.objs p q fun _ => rfl)
  | launch now clks =>
    simp only [timerStep, Option.map_eq_some_iff] at ht
    obtain ⟨s', hs', rfl⟩ := ht
    obtain ⟨hord, hbound, hmissed⟩ := h.ordered.launch h.bounded hok hs'
    exact ⟨hord, hbound, by simp [h.missed, hmissed]⟩

/-- In a run that meets the conditions of the heap at every step no launch leaves a due timer behind,
and a live root is the earliest live entry. -/
theorem no_due_timer_left {ops : List TimerOp} {s : TimerRun}
    (hg : Guarded timerStep timerOk .start ops) (hs : exec timerStep .start ops = some s) :
    s.missed = [] ∧ ∀ p x, s.timer.heap.front = some p → deadline s.objs p = some x →
      ∀ q ∈ s.timer.heap.heap, ∀ y, deadline s.objs q = some y → x ≤ y := by
  have hinv : TimerInv s := invariant_of_guarded (fun _ _ _ => timerInv_step) timerInv_start hg hs
  refine ⟨hinv.missed, ?_⟩
  intro p x hfront hx q hq y hy
  exact hinv.ordered.root_le hfront hx hq hy

/-- One-shot, periodic and suspended timers, one of them destroyed below the root. -/
def timerSample : List TimerOp :=
  [.create 1 10 0 false, .create 2 20 0 true, .create 3 30 0 false, .create 4 5 0 false,
    .add 0, .add 1, .add 2, .add 3, .suspend 2 true, .launch 7 [0], .drop 2, .del 0, .drop 0,
    .launch 25 [25, 25], .launch 50 [50, 51]]

def timerSampleEnd : TimerRun := (exec timerStep .start timerSample).get (by decide +kernel)

theorem no_due_timer_left_sample :
    timerSampleEnd.missed = [] ∧ ∀ p x, timerSampleEnd.timer.heap.front = some p →
      deadline timerSampleEnd.objs p = some x → ∀ q ∈ timerSampleEnd.timer.heap.heap,
        ∀ y, deadline timerSampleEnd.objs q = some y → x ≤ y :=
  no_due_timer_left (show Guarded timerStep timerOk .start timerSample by decide +kernel)
    (Option.some_get _).symm

/-- A timer pushed below an expired entry stays below the root that is later, and `Launch` does not
come to it. -/
theorem due_timer_left :
    ¬ ∀ ops s, exec timerStep .start ops = some s → s.missed = [] ∧
      ∀ p x, s.timer.heap.front = some p → deadline s.objs p = some x →
        ∀ q ∈ s.timer.heap.heap, ∀ y, deadline s.objs q = some y → x ≤ y := by
  intro h
  have hrun := h [.create 1 10 0 false, .create 2 20 0 false, .create 3 30 0 false, .add 0, .add 1,
    .add 2, .del 1, .drop 1, .create 4 5 0 false, .add 3, .launch 7 []] _
    (Option.some_get (by decide +kernel)).symm
  have hmissed := hrun.1
  revert hmissed
  decide +kernel

end Chaos.Timer
