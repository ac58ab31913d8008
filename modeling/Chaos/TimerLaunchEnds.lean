import Chaos.KeyLists
import Chaos.TimerRearm

/-!
# The end of a launch

`Launch` re-arms a periodic timer with a reading of its own and compares with the reading of its start. A
period above 0 takes the timer out of this launch; the constructor takes the period 0 too, and then a clock
that stands still keeps it due.
-/
namespace Chaos.Timer

open MinHeap GuardedRuns KeyLists

/-- With readings of a clock that does not go back the launch at `now` ends, and it hands no timer out twice. -/
def LaunchesOnce (now : ℕ) (s : LaunchState) : Prop :=
  ∀ clks : ℕ → ℕ, Monotone clks → now ≤ clks 0 → ∃ n s', exec (launchIter now) s ((List.range n).map clks) = some s' ∧
    launchIter now s' (clks n) = none ∧ ∃ l, s'.active = s.active ++ l ∧ l.Nodup

/-- A periodic timer that is due and has no period. -/
def Spins (now : ℕ) (o : Objects) (p : ℕ) : Prop :=
  ∃ e ∈ o.store p, e.isLoop = true ∧ e.nextTime ≤ now ∧ e.timeoutMs = 0

instance (now : ℕ) (o : Objects) (p : ℕ) : Decidable (Spins now o p) :=
  inferInstanceAs (Decidable (∃ e ∈ o.store p, _))

/-- The timer map has no timer under the id of another one. -/
def OwnKeys (s : LaunchState) : Prop :=
  ∀ q ∈ s.timer.heap.heap, ∀ e ∈ s.objs.store q, ∀ r ∈ s.timer.timerMap.lookup e.evKey, r = q

instance (s : LaunchState) : Decidable (OwnKeys s) :=
  inferInstanceAs (Decidable (∀ q ∈ s.timer.heap.heap, ∀ e ∈ s.objs.store q, _))

/-! ## A period takes a timer out of the launch -/

/-- A periodic timer that is due. -/
def dueLoop (now : ℕ) (o : Objects) (p : ℕ) : Bool :=
  match o.store p with
  | some e => e.isLoop && decide (e.nextTime ≤ now)
  | none => false

/-- What is left to do: every pass takes an entry away or re-arms a periodic timer. -/
def launchMeasure (now : ℕ) (s : LaunchState) : ℕ :=
  s.timer.heap.heap.length + s.timer.heap.heap.countP (dueLoop now s.objs)

/-- What holds between the passes of a launch that has to end. -/
structure OnceInv (now : ℕ) (before : List ℕ) (s : LaunchState) : Prop where
  nodup : s.timer.heap.heap.Nodup
  noSpin : ∀ p ∈ s.timer.heap.heap, ¬ Spins now s.objs p
  handed : ∃ l, s.active = before ++ l ∧ l.Nodup ∧
    ∀ q ∈ l, q ∈ s.timer.heap.heap → ∀ e ∈ s.objs.store q, now < e.nextTime

section Once
variable {now clk p : ℕ} {before : List ℕ} {s s' : LaunchState} {e : Event}

/-- The root that is handed out has not been handed out before. -/
theorem nodup_handed (hfront : s.timer.heap.front = some p)
    (hp : s.objs.store p = some e) (hdue : e.nextTime ≤ now) {l : List ℕ} (hl : l.Nodup)
    (hlate : ∀ q ∈ l, q ∈ s.timer.heap.heap → ∀ e ∈ s.objs.store q, now < e.nextTime) : (l ++ [p]).Nodup := by
  obtain ⟨xs, hxs⟩ := front_eq hfront
  refine List.nodup_append_comm.mp (List.nodup_cons.mpr ⟨fun hmem => ?_, hl⟩)
  have hnext := hlate p hmem (by rw [hxs]; exact List.mem_cons_self) e hp
  omega

/-- A pass hands out the root at most, and leaves it in the heap only with its deadline behind the launch. -/
theorem OnceInv.next (h : OnceInv now before s) (hfront : s.timer.heap.front = some p)
    (hnodup : s'.timer.heap.heap.Nodup) (hmem : ∀ q ∈ s'.timer.heap.heap, q ∈ s.timer.heap.heap)
    (hother : ∀ q, q ≠ p → ∀ e ∈ s'.objs.store q, s.objs.store q = some e)
    (hroot : p ∈ s'.timer.heap.heap → ∀ e ∈ s'.objs.store p, now < e.nextTime)
    (hactive : s'.active = s.active ∨
      s'.active = s.active ++ [p] ∧ ∃ e, s.objs.store p = some e ∧ e.nextTime ≤ now) :
    OnceInv now before s' := by
  obtain ⟨l, hl, hlnodup, hlate⟩ := h.handed
  have hkept : ∀ q ∈ l, q ∈ s'.timer.heap.heap → ∀ e ∈ s'.objs.store q, now < e.nextTime := by
    intro q hq hin e he
    rcases eq_or_ne q p with rfl | hne
    · exact hroot hin e he
    · exact hlate q hq (hmem q hin) e (hother q hne e he)
  refine ⟨hnodup, ?_, ?_⟩
  · rintro q hq ⟨e, he, hspin⟩
    rcases eq_or_ne q p with rfl | hne
    · have hlater := hroot hq e he
      omega
    · exact h.noSpin q (hmem q hq) ⟨e, hother q hne e he, hspin⟩
  · rcases hactive with hsame | ⟨hnew, e, hp, hdue⟩
    · exact ⟨l, hsame.trans hl, hlnodup, hkept⟩
    · refine ⟨l ++ [p], ?_, nodup_handed hfront hp hdue hlnodup hlate, ?_⟩
      · rw [hnew, hl, List.append_assoc]
      · intro q hq hin e he
        rcases List.mem_append.mp hq with hq | hq
        · exact hkept q hq hin e he
        · obtain rfl := List.mem_singleton.mp hq
          exact hroot hin e he

/-- A `Pop` of the root in a pass that changes no object, except that it may take some away. -/
theorem OnceInv.pop (h : OnceInv now before s) (hfront : s.timer.heap.front = some p) {t : Timer} {o : Objects}
    (hheap : t.heap = s.timer.heap) (ho : ∀ q, o.store q = s.objs.store q ∨ o.store q = none) {active : List ℕ}
    (hactive : active = s.active ∨ active = s.active ++ [p] ∧ ∃ e, s.objs.store p = some e ∧ e.nextTime ≤ now)
    (o' : Objects) :
    OnceInv now before ⟨o, t.pop o', active⟩ ∧ launchMeasure now ⟨o, t.pop o', active⟩ < launchMeasure now s := by
  have hfront' : t.heap.front = some p := by rw [hheap, hfront]
  have hnodup : t.heap.heap.Nodup := hheap ▸ h.nodup
  have hmem (q : ℕ) : q ∈ (t.pop o').heap.heap ↔ q ∈ s.timer.heap.heap ∧ q ≠ p := by
    rw [mem_pop_iff hfront' hnodup, hheap]
  constructor
  · refine h.next hfront (nodup_pop hfront' hnodup) (fun q hq => ((hmem q).mp hq).1) ?_ ?_ hactive
    · intro q _ e he
      rcases ho q with hq | hq
      · rw [← hq]
        exact he
      · exact nomatch hq.symm.trans he
    · intro hin
      exact absurd rfl ((hmem p).mp hin).2
  · obtain ⟨xs, hxs⟩ := front_eq hfront'
    have hperm : (t.pop o').heap.heap.Perm xs := perm_pop _ hxs
    have hcount : xs.countP (dueLoop now o) ≤ xs.countP (dueLoop now s.objs) := by
      refine List.countP_mono_left fun q _ hq => ?_
      rw [dueLoop] at hq ⊢
      rcases ho q with hsame | hnone
      · rwa [hsame] at hq
      · rw [hnone] at hq
        cases hq
    simp only [launchMeasure]
    rw [hperm.length_eq, hperm.countP_eq, ← hheap, hxs, List.length_cons, List.countP_cons]
    omega

/-- Re-arming the root puts its deadline behind this launch. -/
theorem OnceInv.rearm (h : OnceInv now before s) (hfront : s.timer.heap.front = some p)
    (hp : s.objs.store p = some e) (hdue : e.nextTime ≤ now) (hloop : e.isLoop = true) (hclk : now ≤ clk)
    {active : List ℕ} (hactive : active = s.active ∨ active = s.active ++ [p]) :
    OnceInv now before (launchLoopTimer clk { s with active := active } p) ∧
      launchMeasure now (launchLoopTimer clk { s with active := active } p) < launchMeasure now s := by
  obtain ⟨xs, hxs⟩ := front_eq hfront
  have hroot : p ∈ s.timer.heap.heap := by rw [hxs]; exact List.mem_cons_self
  have hperm : (launchLoopTimer clk { s with active := active } p).timer.heap.heap.Perm s.timer.heap.heap :=
    @perm_launchLoopTimer p { s with active := active } clk hfront
  have hperiod : 0 < e.timeoutMs := Nat.pos_of_ne_zero fun h0 => h.noSpin p hroot ⟨e, hp, hloop, hdue, h0⟩
  set s' := launchLoopTimer clk { s with active := active } p with hs'
  have hself : s'.objs.store p = some { e with nextTime := clk + e.timeoutMs } := by
    rw [hs', launchLoopTimer]
    dsimp only
    rw [setNextTime, Objects.modify_self, hp]
    rfl
  have hother (q : ℕ) (hq : q ≠ p) : s'.objs.store q = s.objs.store q := Objects.modify_of_ne s.objs p q _ hq
  constructor
  · refine h.next hfront (hperm.nodup_iff.mpr h.nodup) (fun q hq => hperm.mem_iff.mp hq) ?_ ?_ ?_
    · intro q hq e' he'
      rw [← hother q hq]
      exact he'
    · intro _ e' he'
      rw [hself] at he'
      obtain rfl := Option.some.inj he'
      dsimp only
      omega
    · exact hactive.imp_right fun hnew => ⟨hnew, e, hp, hdue⟩
  · have hgone : dueLoop now s'.objs p = false := by
      rw [dueLoop, hself]
      simp
      omega
    have hwas : dueLoop now s.objs p = true := by
      rw [dueLoop, hp]
      simp [hloop, hdue]
    have hnot : p ∉ xs := by
      have hnodup := h.nodup
      rw [hxs, List.nodup_cons] at hnodup
      exact hnodup.1
    have hrest : xs.countP (dueLoop now s'.objs) = xs.countP (dueLoop now s.objs) := by
      refine List.countP_congr fun q hq => ?_
      have hne : q ≠ p := fun heq => hnot (heq ▸ hq)
      rw [dueLoop, dueLoop, hother q hne]
    simp only [launchMeasure]
    rw [hperm.length_eq, hperm.countP_eq, hxs, List.countP_cons, List.countP_cons, hrest, hgone, hwas]
    simp

/-- The step lemma. -/
theorem onceInv_step (h : OnceInv now before s) (hclk : now ≤ clk) (hs : launchIter now s clk = some s') :
    OnceInv now before s' ∧ launchMeasure now s' < launchMeasure now s := by
  cases launchPass_of_launchIter hs with
  | expired hfront hp => exact h.pop hfront rfl (fun _ => Or.inl rfl) (Or.inl rfl) s.objs
  | rearm hfront hp hdue hloop =>
    refine h.rearm hfront hp hdue hloop hclk ?_
    split_ifs
    · exact Or.inl rfl
    · exact Or.inr rfl
  | @delete p e hfront hp hdue hloop hsuspend =>
    exact h.pop (t := (delTimer s.objs s.timer e).2.1) hfront rfl (fun q => launchDelTimer_store s p q e)
      (Or.inl rfl) _
  | once hfront hp hdue hloop hsuspend =>
    exact h.pop hfront rfl (fun _ => Or.inl rfl) (Or.inr ⟨rfl, _, hp, hdue⟩) s.objs

theorem launchesOnce_of_noSpin (hnodup : s.timer.heap.heap.Nodup)
    (hperiod : ∀ p ∈ s.timer.heap.heap, ¬ Spins now s.objs p) : LaunchesOnce now s := by
  intro clks hmono hnow
  have hstart : OnceInv now s.active s :=
    ⟨hnodup, hperiod, [], (List.append_nil _).symm, .nil, fun _ hq => absurd hq List.not_mem_nil⟩
  obtain ⟨n, s', hs', hend, hinv⟩ := ends_of_measure (P := fun clk => now ≤ clk)
    (fun _ _ _ hs hclk ht => onceInv_step hs hclk ht) hstart (fun i => hnow.trans (hmono (Nat.zero_le i)))
  obtain ⟨l, hl, hlnodup, -⟩ := hinv.handed
  exact ⟨n, s', hs', hend, l, hl, hlnodup⟩

end Once

/-! ## Without a period a clock that stands still keeps the launch going -/

/-- What holds between the passes of a launch that does not end. -/
structure SpinInv (now p : ℕ) (s : LaunchState) : Prop where
  ordered : Ordered s.objs s.timer
  live : AllLive s.objs s.timer
  nodup : s.timer.heap.heap.Nodup
  own : OwnKeys s
  mem : p ∈ s.timer.heap.heap
  spins : Spins now s.objs p

section Spin
variable {now clk p q : ℕ} {s s' : LaunchState} {e : Event}

theorem OwnKeys.afterErase_store (h : OwnKeys s) (hq : q ∈ s.timer.heap.heap) (he : s.objs.store q = some e) :
    (afterErase s.objs s.timer q e).store = s.objs.store := by
  have hown := h q hq e he
  rw [afterErase, delTimer]
  cases hl : s.timer.timerMap.lookup e.evKey with
  | none => rfl
  | some r =>
    obtain rfl := hown r hl
    dsimp only
    rw [if_pos rfl]
    rfl

/-- Distinct live timers meet the conditions of the heap in every pass. -/
theorem SpinInv.iterOk (h : SpinInv now p s) (clk : ℕ) : iterOk now s clk := by
  rw [Timer.iterOk]
  cases hfront : s.timer.heap.front with
  | none => trivial
  | some q =>
    dsimp only
    cases hq : s.objs.store q with
    | none => exact h.live.keys.popOk
    | some e =>
      dsimp only
      split_ifs with hdue hloop hsuspend
      · exact h.live.rearmOk h.nodup hfront
      · obtain ⟨xs, hxs⟩ := front_eq hfront
        have hstore := h.own.afterErase_store (by rw [hxs]; exact List.mem_cons_self) hq
        have hlive : AllLive (afterErase s.objs s.timer q e) s.timer := fun r hr => hstore ▸ h.live r hr
        exact hlive.keys.popOk
      · exact h.live.keys.popOk

/-- A `Pop` of another timer, which may go away with it. -/
theorem SpinInv.pop (h : SpinInv now p s) (hfront : s.timer.heap.front = some q) (hne : p ≠ q) {t : Timer}
    {o o' : Objects} (hheap : t.heap = s.timer.heap) (ho : ∀ r, r ≠ q → o.store r = s.objs.store r)
    (hmap : ∀ k, ∀ r ∈ t.timerMap.lookup k, s.timer.timerMap.lookup k = some r) (active : List ℕ)
    (hord : Ordered o (t.pop o')) : SpinInv now p ⟨o, t.pop o', active⟩ := by
  have hfront' : t.heap.front = some q := by rw [hheap, hfront]
  have hnodup : t.heap.heap.Nodup := hheap ▸ h.nodup
  have hmem (r : ℕ) : r ∈ (t.pop o').heap.heap ↔ r ∈ s.timer.heap.heap ∧ r ≠ q := by
    rw [mem_pop_iff hfront' hnodup, hheap]
  refine ⟨hord, ?_, nodup_pop hfront' hnodup, ?_, (hmem p).mpr ⟨h.mem, hne⟩, ?_⟩
  · intro r hr
    obtain ⟨hr, hrq⟩ := (hmem r).mp hr
    exact ho r hrq ▸ h.live r hr
  · intro r hr e he r' hr'
    obtain ⟨hr, hrq⟩ := (hmem r).mp hr
    rw [ho r hrq] at he
    exact h.own r hr e he r' (hmap _ r' hr')
  · obtain ⟨e, he, hspin⟩ := h.spins
    exact ⟨e, (ho p hne).trans he, hspin⟩

/-- Re-arming at `now` leaves the timer without a period due. -/
theorem SpinInv.rearm (h : SpinInv now p s) (hfront : s.timer.heap.front = some q) (active : List ℕ)
    (hord : Ordered (launchLoopTimer now { s with active := active } q).objs
      (launchLoopTimer now { s with active := active } q).timer) :
    SpinInv now p (launchLoopTimer now { s with active := active } q) := by
  have hperm : (launchLoopTimer now { s with active := active } q).timer.heap.heap.Perm s.timer.heap.heap :=
    @perm_launchLoopTimer q { s with active := active } now hfront
  set s' := launchLoopTimer now { s with active := active } q with hs'
  have hself : s'.objs.store q = (s.objs.store q).map fun e => { e with nextTime := now + e.timeoutMs } :=
    Objects.modify_self s.objs q _
  have hother (r : ℕ) (hr : r ≠ q) : s'.objs.store r = s.objs.store r := Objects.modify_of_ne s.objs q r _ hr
  refine ⟨hord, AllLive.launchLoopTimer (s := { s with active := active }) h.live hfront,
    hperm.nodup_iff.mpr h.nodup, ?_, hperm.mem_iff.mpr h.mem, ?_⟩
  · intro r hr e he
    have hin := hperm.mem_iff.mp hr
    rcases eq_or_ne r q with rfl | hne
    · rw [hself] at he
      obtain ⟨e', he', rfl⟩ := Option.map_eq_some_iff.mp he
      exact h.own r hin e' he'
    · rw [hother r hne] at he
      exact h.own r hin e he
  · obtain ⟨e, he, hloop, hdue, hzero⟩ := h.spins
    rcases eq_or_ne p q with rfl | hne
    · refine ⟨{ e with nextTime := now + e.timeoutMs }, by rw [hself, he]; rfl, hloop, ?_, hzero⟩
      rw [hzero]
      exact le_rfl
    · exact ⟨e, (hother p hne).trans he, hloop, hdue, hzero⟩

/-- The step lemma. -/
theorem spinInv_step (h : SpinInv now p s) (hs : launchIter now s now = some s') : SpinInv now p s' := by
  have hpass := launchPass_of_launchIter hs
  have hord : Ordered s'.objs s'.timer := h.ordered.launchPass (h.iterOk now) hpass
  have hne {q : ℕ} (hq : (∃ e, s.objs.store q = some e ∧ e.isLoop = false) ∨ s.objs.store q = none) : p ≠ q := by
    rintro rfl
    obtain ⟨e, he, hloop, -⟩ := h.spins
    rcases hq with ⟨e', he', hloop'⟩ | hnone
    · rw [he, Option.some.injEq] at he'
      rw [← he', hloop] at hloop'
      cases hloop'
    · rw [he] at hnone
      cases hnone
  cases hpass with
  | expired hfront hp =>
    exact h.pop hfront (hne (Or.inr hp)) rfl (fun _ _ => rfl) (fun _ _ hr => hr) s.active hord
  | rearm hfront hp hdue hloop => exact h.rearm hfront _ hord
  | @delete q e hfront hp hdue hloop hsuspend =>
    obtain ⟨xs, hxs⟩ := front_eq hfront
    have hstore := h.own.afterErase_store (by rw [hxs]; exact List.mem_cons_self) hp
    refine h.pop (t := (delTimer s.objs s.timer e).2.1) hfront (hne (Or.inl ⟨e, hp, hloop⟩)) rfl ?_ ?_ s.active hord
    · exact fun r hr => (Objects.release_store_of_ne _ _ _ hr).trans (congrFun hstore r)
    · intro k r hr
      have herase : (eraseKey s.timer.timerMap e.evKey).lookup k = some r := hr
      rcases eq_or_ne k e.evKey with rfl | hk
      · rw [lookup_eraseKey_self] at herase
        cases herase
      · rwa [lookup_eraseKey_of_ne _ hk] at herase
  | once hfront hp hdue hloop hsuspend =>
    exact h.pop hfront (hne (Or.inl ⟨_, hp, hloop⟩)) rfl (fun _ _ => rfl) (fun _ _ hr => hr) _ hord

/-- There is always a due root. -/
theorem SpinInv.goes_on (h : SpinInv now p s) (clk : ℕ) : launchIter now s clk ≠ none := by
  intro hend
  obtain ⟨e, he, -, hdue, -⟩ := h.spins
  rcases launchIter_eq_none hend with hnil | ⟨r, er, hfront, hr, hlate⟩
  · have hmem := h.mem
    rw [hnil] at hmem
    exact List.not_mem_nil hmem
  · have hle := h.ordered.root_le hfront (show deadline s.objs r = some er.nextTime by simp [deadline, hr])
      h.mem (show deadline s.objs p = some e.nextTime by rw [deadline, Option.mem_def.mp he]; rfl)
    omega

theorem not_launchesOnce (h : SpinInv now p s) : ¬ LaunchesOnce now s := by
  intro honce
  obtain ⟨n, s', hs', hend, -⟩ := honce (fun _ => now) monotone_const le_rfl
  have hlabels : ∀ clk ∈ (List.range n).map fun _ => now, clk = now := by
    intro clk hclk
    obtain ⟨_, _, rfl⟩ := List.mem_map.mp hclk
    rfl
  have hguard := guarded_and hlabels
    (@guarded_of_forall _ _ (launchIter now) (fun _ _ => True) (fun _ _ => trivial) s _)
  have hinv : SpinInv now p s' := by
    refine invariant_of_guarded (fun t clk u ht hclk hu => ?_) h hguard hs'
    obtain ⟨rfl, -⟩ := hclk
    exact spinInv_step ht hu
  exact hinv.goes_on now hend

end Spin

/-- A launch ends and hands no timer out twice when no due periodic timer is without a period; for a heap in
order, of live timers that are registered under their own ids, this is exactly when. -/
theorem launches_once_iff {now : ℕ} {s : LaunchState} (hnodup : s.timer.heap.heap.Nodup) :
    ((∀ p ∈ s.timer.heap.heap, ¬ Spins now s.objs p) → LaunchesOnce now s) ∧
      (InOrder (timerCmp s.objs) s.timer.heap.heap → AllLive s.objs s.timer → OwnKeys s → LaunchesOnce now s →
        ∀ p ∈ s.timer.heap.heap, ¬ Spins now s.objs p) := by
  refine ⟨launchesOnce_of_noSpin hnodup, fun hord hlive hown honce p hp hspin => ?_⟩
  exact not_launchesOnce ⟨hlive.ordered_iff.mpr hord, hlive, hnodup, hown, hp, hspin⟩ honce

theorem launches_once_iff_sample :
    LaunchesOnce 25 rearmSample ∧
      (LaunchesOnce 25 rearmSample → ∀ p ∈ rearmSample.timer.heap.heap, ¬ Spins 25 rearmSample.objs p) :=
  ⟨(launches_once_iff (by decide)).1 (by decide),
    (launches_once_iff (by decide)).2 (by decide) (by decide) (by decide)⟩

/-- A periodic timer of 0 ms, due. -/
def spinSample : LaunchState := ⟨Objects.empty.create (timerEvent 1 0 5 true), ⟨⟨[0], 64⟩, [(1, 0)]⟩, []⟩

theorem not_launches_once :
    ¬ ∀ (now : ℕ) (s : LaunchState), s.timer.heap.heap.Nodup → LaunchesOnce now s := by
  intro hall
  have hlive : AllLive spinSample.objs spinSample.timer := by decide
  have hord : InOrder (timerCmp spinSample.objs) spinSample.timer.heap.heap := by decide
  have hspin : SpinInv 5 0 spinSample :=
    ⟨hlive.ordered_iff.mpr hord, hlive, by decide, by decide, by decide, by decide⟩
  exact not_launchesOnce hspin (hall 5 spinSample (by decide))

end Chaos.Timer
