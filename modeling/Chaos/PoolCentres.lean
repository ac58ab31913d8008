import Chaos.PoolSteps

/-!
# The centres of a pool are there

`m_centres` keeps the address of a local of `Work`, also when `Work` has returned. What `Stop` and `RegisterEvent`
follow is there as long as they begin while no loop has ended or been told to, and none ends under them.
-/
namespace Chaos.PoolCentres

open CentrePool GuardedRuns

/-! ## The pointers that are followed -/

/-- The pointers that the next step of `Stop` or of a call of `RegisterEvent` follows. -/
def followed (s : CentrePool) : List ℕ :=
  (match s.walk with
    | some (.stop (c :: _)) => [c]
    | some (.register (c :: _) pCentre) => c :: pCentre.toList
    | _ => []) ++ s.chosen

/-- The `Work` of the centre has not returned. -/
def Alive (s : CentrePool) (c : ℕ) : Prop := ∃ w ∈ s.works[c]?, w.pc ≠ .returned

instance (s : CentrePool) (c : ℕ) : Decidable (Alive s c) := inferInstanceAs (Decidable (∃ w ∈ s.works[c]?, _))

/-- The pointers that are yet to be followed. -/
def toFollow (s : CentrePool) : List ℕ :=
  (match s.walk with
    | none => []
    | some (.stop rest) => rest
    | some (.register rest pCentre) => rest ++ pCentre.toList) ++ s.chosen

/-- The centre is before its loop, or in it and not told to leave. -/
def stays (w : Work) : Bool :=
  match w.pc with
  | .pushing | .counting | .starting | .reporting | .entering => true
  | .looping => w.running
  | .ended | .returned => false

def Stays (s : CentrePool) (c : ℕ) : Prop := ∃ w ∈ s.works[c]?, stays w = true

instance (s : CentrePool) (c : ℕ) : Decidable (Stays s c) := inferInstanceAs (Decidable (∃ w ∈ s.works[c]?, _))

/-- `Stop` and `RegisterEvent` begin while all centres of `m_centres` stay; no loop ends or is told to, by `Stop`
either, whose centre is yet to be followed. -/
def aliveOk (_ : ℤ) (s : CentrePool) : PoolOp → Prop
  | .stopBegin | .registerBegin => ∀ c ∈ s.centres, Stays s c
  | .fail i | .exit i => i ∉ toFollow s
  | .enterLoop i => ∀ w ∈ s.works[i]?, w.isInit = false → i ∉ toFollow s
  | .stopVisit => ∀ rest ∈ s.stopRest, ∀ c ∈ rest.head?, c ∈ s.chosen → ∀ w ∈ s.works[c]?, w.pc ≠ .looping
  | .start _ | .pushTask _ | .startEnd _ | .wake _ | .begin _ | .pushCentre _ | .count _ | .setStarted _
  | .report _ _ | .leave _ | .return _ | .stopEnd | .registerCheck | .registerVisit _ | .registerEnd
  | .registerCall _ | .poolStop => True

instance (worked : ℤ) (s : CentrePool) : (op : PoolOp) → Decidable (aliveOk worked s op)
  | .stopBegin | .registerBegin => inferInstanceAs (Decidable (∀ c ∈ s.centres, _))
  | .fail _ | .exit _ => inferInstanceAs (Decidable (_ ∉ toFollow s))
  | .enterLoop i => inferInstanceAs (Decidable (∀ w ∈ s.works[i]?, _))
  | .stopVisit => inferInstanceAs (Decidable (∀ rest ∈ s.stopRest, _))
  | .start _ | .pushTask _ | .startEnd _ | .wake _ | .begin _ | .pushCentre _ | .count _ | .setStarted _
  | .report _ _ | .leave _ | .return _ | .stopEnd | .registerCheck | .registerVisit _ | .registerEnd
  | .registerCall _ | .poolStop => isTrue trivial

/-! ## The centres yet to be followed stay -/

/-- What is yet to be followed stays, and `Stop` visits a centre once. -/
structure FollowInv (s : CentrePool) : Prop where
  listed : Listed s
  stays : ∀ c ∈ toFollow s, Stays s c
  once : ∀ rest ∈ s.stopRest, rest.Nodup

section Invariant
variable {s t : CentrePool} {c i : ℕ} {rest : List ℕ} {w w' : Work}

theorem Stays.frame (h : Stays s c) (hworks : t.works = s.works) : Stays t c := by
  obtain ⟨w, hc, hw⟩ := h
  exact ⟨w, by rwa [hworks], hw⟩

theorem Stays.begin (h : Stays s c) (queued : ℕ) (w : Work) :
    Stays { s with queued := queued, works := s.works ++ [w] } c := by
  obtain ⟨v, hc, hv⟩ := h
  exact ⟨v, List.getElem?_append_left (List.getElem?_eq_some_iff.mp hc).1 ▸ hc, hv⟩

theorem Stays.move (h : Stays s c) (hi : s.works[i]? = some w) (hmove : c = i → stays w = true → stays w' = true) :
    Stays (s.setWork i w') c := by
  obtain ⟨v, hc, hv⟩ := h
  by_cases hci : c = i
  · subst hci
    obtain rfl := Option.some.inj (hi.symm.trans hc)
    exact ⟨w', setWork_self hi, hmove rfl hv⟩
  · exact ⟨v, (setWork_of_ne hci).trans hc, hv⟩

theorem stays_exit (w : Work) (hpc : w.pc ≠ .looping) : stays { w with running := false } = stays w := by
  obtain ⟨isInit, pc, running⟩ := w
  cases pc <;> first | rfl | exact absurd rfl hpc

theorem mem_choose {pCentre : Option ℕ} {less : Bool} (hc : c = choose pCentre i less) :
    c = i ∨ c ∈ pCentre.toList := by
  cases pCentre with
  | none => exact Or.inl hc
  | some q =>
    rw [choose] at hc
    split at hc
    · exact Or.inl hc
    · exact Or.inr (by simpa using hc)

theorem Stays.moveTo (h : Stays s c) (hi : s.works[i]? = some w) (pc : WorkPc)
    (hmove : c = i → stays w = true → stays { w with pc := pc } = true) : Stays (s.setWork i { w with pc := pc }) c :=
  h.move hi hmove

/-- The steps that neither begin a walk nor go on with it. -/
theorem FollowInv.keep (h : FollowInv s) (hlisted : Listed t) (hfollow : ∀ c ∈ toFollow t, c ∈ toFollow s)
    (honce : ∀ rest ∈ t.stopRest, rest.Nodup) (hstays : ∀ c ∈ toFollow t, Stays s c → Stays t c) : FollowInv t :=
  ⟨hlisted, fun c hc => hstays c hc (h.stays c (hfollow c hc)), honce⟩

theorem FollowInv.frame (h : FollowInv s) (hlisted : Listed t) (hworks : t.works = s.works) (hwalk : t.walk = s.walk)
    (hchosen : t.chosen = s.chosen) : FollowInv t := by
  refine h.keep hlisted ?_ ?_ fun c _ hstay => hstay.frame hworks
  · rw [toFollow, toFollow, hwalk, hchosen]
    exact fun c hc => hc
  · rw [CentrePool.stopRest, hwalk]
    exact h.once

/-- A `Stop` or a call of `RegisterEvent` begins its walk. -/
theorem FollowInv.walk (h : FollowInv s) (hlisted : Listed t) (hok : ∀ c ∈ s.centres, Stays s c)
    (hworks : t.works = s.works) (hfollow : ∀ c ∈ toFollow t, c ∈ s.centres ∨ c ∈ s.chosen)
    (honce : ∀ rest ∈ t.stopRest, rest = s.centres) : FollowInv t := by
  refine ⟨hlisted, fun c hc => ?_, fun rest hrest => ?_⟩
  · have hstay : Stays s c := by
      rcases hfollow c hc with hc | hc
      · exact hok c hc
      · exact h.stays c (List.mem_append_right _ hc)
    exact hstay.frame hworks
  · rw [honce rest hrest]
    exact h.listed.nodup

/-- `Stop` visits a centre: it is not ahead any more, unless a call of `RegisterEvent` has chosen it. -/
theorem FollowInv.visit (h : FollowInv s) (hwalk : s.walk = some (.stop (i :: rest))) (hi : s.works[i]? = some w)
    (hok : i ∈ s.chosen → w.pc ≠ .looping)
    (hlisted : Listed ({ s with walk := some (.stop rest) }.setWork i { w with running := false })) :
    FollowInv ({ s with walk := some (.stop rest) }.setWork i { w with running := false }) := by
  have hrest : i :: rest ∈ s.stopRest := by
    rw [CentrePool.stopRest, hwalk]
    rfl
  obtain ⟨hnot, hnodup⟩ := List.nodup_cons.mp (h.once _ hrest)
  refine h.keep hlisted ?_ ?_ ?_
  · intro c hc
    rw [toFollow, hwalk]
    exact List.mem_cons_of_mem i hc
  · rintro rest' ⟨⟩
    exact hnodup
  · intro c hc hstay
    have hchosen : c = i → c ∈ s.chosen := by
      rintro rfl
      exact (List.mem_append.mp hc).resolve_left hnot
    have hmove : Stays (s.setWork i { w with running := false }) c := by
      refine hstay.move hi fun hci hw => ?_
      rw [← hw]
      exact stays_exit w (hok (hci ▸ hchosen hci))
    exact hmove.frame rfl

theorem followInv_step (worked worked' : ℤ) (s : CentrePool) (op : PoolOp) (s' : CentrePool) (h : FollowInv s)
    (hok : aliveOk worked s op) (hpass : PoolPass worked s op worked' s') : FollowInv s' := by
  have hlisted := listed_step h.listed hpass
  cases hpass with
  | start cb =>
    obtain ⟨hworks, -, hwalk, hchosen⟩ := s.start_same cb
    exact h.frame hlisted hworks hwalk hchosen
  | pushTask _ =>
    obtain ⟨hworks, -, hwalk, hchosen, -⟩ := s.pushTask_same
    exact h.frame hlisted hworks hwalk hchosen
  | stored _ | waits _ _ | wake _ | registerCheck _ | notStarted _ | poolStop => exact h.frame hlisted rfl rfl rfl
  | begin _ _ _ => exact h.keep hlisted (fun c hc => hc) h.once fun c _ hstay => hstay.begin _ _
  | pushCentre hi _ _ =>
    exact h.keep hlisted (fun c hc => hc) h.once fun c _ hstay =>
      (hstay.moveTo hi .counting fun _ _ => rfl).frame rfl
  | count hi _ =>
    refine h.keep hlisted (fun c hc => hc) h.once fun c _ hstay => hstay.moveTo hi _ fun _ _ => ?_
    split <;> rfl
  | setStarted hi _ =>
    exact h.keep hlisted (fun c hc => hc) h.once fun c _ hstay =>
      (hstay.moveTo hi .reporting fun _ _ => rfl).frame rfl
  | called hi _ _ | lost hi _ _ _ | woken hi _ _ _ =>
    exact h.keep hlisted (fun c hc => hc) h.once fun c _ hstay =>
      (hstay.moveTo hi .entering fun _ _ => rfl).frame rfl
  | refused hi hpc hrefused =>
    have hinit := hrefused.resolve_right (by simp [h.listed.not_running hi (by simp [hpc])])
    refine h.keep hlisted (fun c hc => hc) h.once fun c hc hstay => hstay.moveTo hi _ fun hci _ => ?_
    exact absurd (hci ▸ hc) (hok _ hi hinit)
  | loops hi _ _ _ => exact h.keep hlisted (fun c hc => hc) h.once fun c _ hstay => hstay.move hi fun _ _ => rfl
  | leave hi hpc hrun =>
    refine h.keep hlisted (fun c hc => hc) h.once fun c _ hstay => hstay.moveTo hi _ fun _ hw => ?_
    simp [stays, hpc, hrun] at hw
  | fail hi _ =>
    exact h.keep hlisted (fun c hc => hc) h.once fun c hc hstay => hstay.move hi fun hci _ => absurd (hci ▸ hc) hok
  | exit hi _ =>
    exact h.keep hlisted (fun c hc => hc) h.once fun c hc hstay => hstay.move hi fun hci _ => absurd (hci ▸ hc) hok
  | returns hi hpc =>
    refine h.keep hlisted (fun c hc => hc) h.once fun c _ hstay => hstay.moveTo hi _ fun _ hw => ?_
    simp [stays, hpc] at hw
  | stopBegin _ =>
    refine h.walk hlisted hok rfl (fun c hc => List.mem_append.mp hc) ?_
    rintro rest ⟨⟩
    rfl
  | @stopVisit i rest w hwalk hi _ =>
    have hrest : i :: rest ∈ s.stopRest := by
      rw [CentrePool.stopRest, hwalk]
      rfl
    exact h.visit hwalk hi (fun hchosen => hok _ hrest i rfl hchosen w hi) hlisted
  | stopEnd _ =>
    exact h.keep hlisted (fun c hc => List.mem_append_right _ hc) nofun fun c _ hstay => hstay.frame rfl
  | registerBegin _ _ =>
    refine h.walk hlisted hok rfl (fun c hc => ?_) nofun
    simpa [toFollow] using hc
  | registerVisit hwalk _ _ _ _ =>
    refine h.keep hlisted (fun c hc => ?_) nofun fun c _ hstay => hstay.frame rfl
    simp only [toFollow, Option.toList_some, List.mem_append, List.mem_singleton] at hc
    simp only [toFollow, hwalk, List.mem_append, List.mem_cons]
    rcases hc with (hc | hc) | hc
    · exact Or.inl (Or.inl (Or.inr hc))
    · rcases mem_choose hc with hc | hc
      · exact Or.inl (Or.inl (Or.inl hc))
      · exact Or.inl (Or.inr hc)
    · exact Or.inr hc
  | registerEnd hwalk =>
    refine h.keep hlisted (fun c hc => ?_) nofun fun c _ hstay => hstay.frame rfl
    simp only [toFollow, List.nil_append, List.mem_append] at hc
    simp only [toFollow, hwalk, List.nil_append, List.mem_append]
    exact hc.symm
  | registerCall _ _ _ =>
    refine h.keep hlisted (fun c hc => ?_) h.once fun c _ hstay => hstay.frame rfl
    rcases List.mem_append.mp hc with hc | hc
    · exact List.mem_append_left _ hc
    · exact List.mem_append_right _ (List.mem_of_mem_erase hc)

end Invariant

/-! ## Runs -/

theorem followInv_new (n : ℕ) : FollowInv (.new n) := ⟨.new n, nofun, nofun⟩

theorem Stays.alive {s : CentrePool} {c : ℕ} (h : Stays s c) : Alive s c := by
  obtain ⟨w, hc, hw⟩ := h
  refine ⟨w, hc, fun hpc => ?_⟩
  simp [stays, hpc] at hw

theorem toFollow_of_followed {s : CentrePool} {c : ℕ} (hc : c ∈ followed s) : c ∈ toFollow s := by
  refine List.mem_append.mpr ((List.mem_append.mp hc).imp_left fun hc => ?_)
  split at hc
  · rename_i hwalk
    rw [hwalk]
    exact List.mem_cons.mpr (Or.inl (List.mem_singleton.mp hc))
  · rename_i hwalk
    rw [hwalk]
    rcases List.mem_cons.mp hc with rfl | hc
    · exact List.mem_append_left _ List.mem_cons_self
    · exact List.mem_append_right _ hc
  · cases hc

/-- In every run with such steps alone what `Stop` and `RegisterEvent` follow is a centre whose `Work` has not
returned. -/
theorem centres_alive {threadNums : ℕ → ℕ} {ops : List (ℕ × PoolOp)} {s : PoolProcess}
    (hrun : exec poolStep (.start threadNums) ops = some s)
    (hok : Guarded poolStep (onPool aliveOk) (.start threadNums) ops) (i : ℕ) :
    ∀ c ∈ followed (s.pools i), Alive (s.pools i) c := by
  have hinv : FollowInv (s.pools i) := pool_invariant followInv_step (fun i => followInv_new _) hok hrun i
  intro c hc
  exact (hinv.stays c (toFollow_of_followed hc)).alive

/-- A pool of two threads that has started. -/
def startedSample : List (ℕ × PoolOp) :=
  [(0, .start true), (0, .pushTask 0), (0, .pushTask 0), (0, .startEnd 0), (0, .begin true), (0, .pushCentre 0),
    (0, .count 0), (0, .begin true), (0, .pushCentre 1), (0, .count 1), (0, .setStarted 1), (0, .report 1 0),
    (0, .enterLoop 0), (0, .enterLoop 1)]

/-- `RegisterEvent` chooses a centre and the event goes there; another call is on its way. -/
def aliveSample : List (ℕ × PoolOp) := startedSample ++
  [(0, .registerCheck), (0, .registerBegin), (0, .registerVisit false), (0, .registerVisit true),
    (0, .registerEnd), (0, .registerCall 1), (0, .registerCheck), (0, .registerBegin), (0, .registerVisit false)]

def aliveSampleEnd : PoolProcess := (exec poolStep (.start fun _ => 2) aliveSample).get (by decide +kernel)

theorem centres_alive_sample :
    (∀ c ∈ followed (aliveSampleEnd.pools 0), Alive (aliveSampleEnd.pools 0) c) ∧
      followed (aliveSampleEnd.pools 0) = [1, 0] := by
  have hok : Guarded poolStep (onPool aliveOk) (.start fun _ => 2) aliveSample := by decide +kernel
  exact ⟨centres_alive (Option.some_get _).symm hok 0, by decide +kernel⟩

/-- A loop ends after a `Stop` and its `Work` returns, then the destructor stops the pool again. -/
def stoppedTwice : PoolProcess := (exec poolStep (.start fun _ => 2) (startedSample ++
  [(0, .stopBegin), (0, .stopVisit), (0, .stopVisit), (0, .stopEnd), (0, .leave 0), (0, .return 0),
    (0, .stopBegin)])).get (by decide +kernel)

/-- The poller of a centre fails, then an event is registered. -/
def registeredAfterFailure : PoolProcess := (exec poolStep (.start fun _ => 2) (startedSample ++
  [(0, .fail 0), (0, .return 0), (0, .registerCheck), (0, .registerBegin)])).get (by decide +kernel)

theorem not_centres_alive :
    (∃ c ∈ followed (stoppedTwice.pools 0), ¬Alive (stoppedTwice.pools 0) c) ∧
      ∃ c ∈ followed (registeredAfterFailure.pools 0), ¬Alive (registeredAfterFailure.pools 0) c :=
  ⟨⟨0, by decide +kernel, by decide +kernel⟩, ⟨0, by decide +kernel, by decide +kernel⟩⟩

end Chaos.PoolCentres
