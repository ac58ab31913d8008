import Chaos.AOICrossing
import Mathlib.Data.List.TakeWhile

/-!
# What a move leaves behind

`Move` checks the positions of the path one by one and carries each one out before it checks the next. The
path algorithm that the constructor takes where none is given finds no positions at all.
-/
namespace Chaos.AOIMove

open GuardedRuns AOIPlacement AOIViews AOICrossing CellNotices

abbrev FindPathAlgorithm := AOILocation → AOILocation → List AOILocation

/-- It asserts that the two positions are in the scene and leaves the locations as they are; what it is to do
stands in its comments. -/
def calculateGridsBetweenLocation : FindPathAlgorithm := fun _srcPos _desPos => []

/-- The algorithm of a manager that is constructed with or without one. -/
def fpAlgorithm (given : Option FindPathAlgorithm) : FindPathAlgorithm := given.getD calculateGridsBetweenLocation

/-- `Move` with the path that the algorithm finds. -/
def moveBy (c : AOISence) (given : Option FindPathAlgorithm) (m : AOIManager) (p : ℕ) (targetPos : AOILocation) :
    Option (AOIManager × Bool) :=
  m.move c p targetPos (fpAlgorithm given (m.location p) targetPos)

/-- The entity is in the grid of its location. -/
def InScene (c : AOISence) (m : AOIManager) (p : ℕ) : Prop :=
  ∃ g, c.getGridByPos (m.location p) = some g ∧ p ∈ m.entities g

/-- The call returns, with the entity at the target and in its grid where the answer is true, and with
nothing changed where it is false. -/
def AllOrNothing (c : AOISence) (given : Option FindPathAlgorithm) (m : AOIManager) (p : ℕ)
    (targetPos : AOILocation) : Prop :=
  ∃ t answer, moveBy c given m p targetPos = some (t, answer) ∧
    (answer = true → t.location p = targetPos ∧ ∃ g, c.getGridByPos targetPos = some g ∧ p ∈ t.entities g) ∧
    (answer = false → t.location p = m.location p ∧ t.entities = m.entities ∧ t.notices = m.notices)

/-- The target is refused, or the path ends at it: without an algorithm the entity is there already, else the
first position is refused or every position has a grid. -/
def moveOk (c : AOISence) (given : Option FindPathAlgorithm) (m : AOIManager) (p : ℕ) (targetPos : AOILocation) :
    Prop :=
  c.checkPos targetPos = false ∨ match given with
    | none => m.location p = targetPos
    | some findPath => (∃ pos ∈ (findPath (m.location p) targetPos).head?, c.checkPos pos = false) ∨
        ∀ pos ∈ findPath (m.location p) targetPos, (c.getGridByPos pos).isSome

/-! ## The loop -/

section Loop
variable {c : AOISence} {m t : AOIManager} {p : ℕ} {pos targetPos : AOILocation} {locations : List AOILocation}
  {given : Option FindPathAlgorithm}

/-- A step puts the entity at the position and calls it, for it is itself in one of the grids around. -/
theorem movePos_of_inScene (h : InScene c m p) (hpos : (c.getGridByPos pos).isSome) :
    ∃ t, m.movePos c p pos = some t ∧ InScene c t p ∧ t.location p = pos ∧
      (m.notices p).length < (t.notices p).length := by
  obtain ⟨g, hg, hp⟩ := h
  obtain ⟨g', hg'⟩ := Option.isSome_iff_exists.mp hpos
  rcases eq_or_ne g g' with rfl | hne
  · refine ⟨_, AOIManager.movePos_stay hg hg', ⟨g, ?_, hp⟩, AOIManager.setLocation_self _ p pos, ?_⟩
    · rw [AOIManager.setLocation_self, hg']
    · have hcalled : 0 < (c.findAroundGrids (m.location p)).countP fun i => p ∈ m.entities i :=
        List.countP_pos_iff.mpr ⟨g, AOIAround.mem_findAroundGrids_self hg, decide_eq_true hp⟩
      have hnotices : ((m.notifyAroundGrids c p (.move p pos)).setLocation p pos).notices p =
          m.notices p ++ List.replicate ((c.findAroundGrids (m.location p)).countP fun i => p ∈ m.entities i)
            (.move p pos) := rfl
      rw [hnotices, List.length_append, List.length_replicate]
      omega
  · have hstands : Stands m p g g' p g' := .inr ⟨rfl, rfl⟩
    refine ⟨_, AOIManager.movePos_cross hg hg' hne, ⟨g', ?_, mem_cross.mpr hstands⟩,
      AOIManager.setLocation_self _ p pos, ?_⟩
    · rw [AOIManager.setLocation_self, hg']
    · have hcalled : 0 < calls (Stands m p g g')
          (moveSet (c.findAroundGrids (m.location p)) (c.findAroundGrids pos)) p :=
        calls_pos_iff.mpr ⟨g', mem_moveSet.mpr (.inr (AOIAround.mem_findAroundGrids_self hg')), hstands⟩
      have hreceived := congrArg List.length (received_cross c m p p pos g g')
      rw [received, List.length_drop, List.length_append, List.length_replicate] at hreceived
      omega

/-- A run over positions that have grids ends at the last of them. -/
theorem exec_of_inScene (h : InScene c m p) (hgrids : ∀ pos ∈ locations, (c.getGridByPos pos).isSome) :
    ∃ t, exec (fun m pos => m.movePos c p pos) m locations = some t ∧ InScene c t p ∧
      t.location p = locations.getLast?.getD (m.location p) ∧
      (m.notices p).length + locations.length ≤ (t.notices p).length := by
  induction locations generalizing m with
  | nil => exact ⟨m, rfl, h, rfl, le_rfl⟩
  | cons pos locations ih =>
    obtain ⟨hpos, hrest⟩ := List.forall_mem_cons.mp hgrids
    obtain ⟨t, ht, hscene, hloc, hcalled⟩ := movePos_of_inScene h hpos
    obtain ⟨u, hu, hend, hlast, hcalls⟩ := ih hscene hrest
    refine ⟨u, exec_cons_eq_some.mpr ⟨t, ht, hu⟩, hend, ?_, ?_⟩
    · rw [hlast, hloc, List.getLast?_cons, Option.getD_some]
    · rw [List.length_cons]
      omega

/-- A run that comes to its end went through grids only. -/
theorem grids_of_exec (h : exec (fun m pos => m.movePos c p pos) m locations = some t) :
    ∀ pos ∈ locations, (c.getGridByPos pos).isSome := by
  induction locations generalizing m with
  | nil => exact fun pos hpos => absurd hpos List.not_mem_nil
  | cons pos locations ih =>
    obtain ⟨u, hu, hrest⟩ := exec_cons_eq_some.mp h
    obtain ⟨g, -, hstep⟩ := Option.bind_eq_some_iff.mp hu
    obtain ⟨g', hg', -⟩ := Option.map_eq_some_iff.mp hstep
    exact List.forall_mem_cons.mpr ⟨Option.isSome_of_mem hg', ih hrest⟩

theorem checkPos_of_grid (h : (c.getGridByPos pos).isSome) : c.checkPos pos = true := by
  obtain ⟨g, hg⟩ := Option.isSome_iff_exists.mp h
  exact (getGridByPos_eq hg).1

theorem moveBy_refused (h : c.checkPos targetPos = false) :
    moveBy c given m p targetPos = some (m, false) := by
  rw [moveBy, AOIManager.move, h]
  rfl

theorem moveBy_accepted (h : c.checkPos targetPos = true) : moveBy c given m p targetPos =
    (exec (fun m pos => m.movePos c p pos) m
      ((fpAlgorithm given (m.location p) targetPos).takeWhile c.checkPos)).map
        fun t => (t, (fpAlgorithm given (m.location p) targetPos).all c.checkPos) := by
  rw [moveBy, AOIManager.move, if_pos h, AOIManager.moveLoop_eq]

/-- Nothing has happened. -/
theorem allOrNothing_of_unchanged (h : moveBy c given m p targetPos = some (m, false)) :
    AllOrNothing c given m p targetPos :=
  ⟨m, false, h, fun htrue => absurd htrue Bool.false_ne_true, fun _ => ⟨rfl, rfl, rfl⟩⟩

/-- A path of grids is walked to its end. -/
theorem allOrNothing_of_grids (hscene : InScene c m p) (htarget : c.checkPos targetPos = true)
    (hlast : (fpAlgorithm given (m.location p) targetPos).getLast? = some targetPos)
    (hgrids : ∀ pos ∈ fpAlgorithm given (m.location p) targetPos, (c.getGridByPos pos).isSome) :
    AllOrNothing c given m p targetPos := by
  have hcheck : ∀ pos ∈ fpAlgorithm given (m.location p) targetPos, c.checkPos pos = true :=
    fun pos hpos => checkPos_of_grid (hgrids pos hpos)
  obtain ⟨t, ht, ⟨g, hg, hp⟩, hloc, -⟩ := exec_of_inScene hscene hgrids
  have hloc' : t.location p = targetPos := by rw [hloc, hlast, Option.getD_some]
  rw [AllOrNothing, moveBy_accepted htarget, List.takeWhile_eq_self_iff.mpr hcheck, ht,
    List.all_eq_true.mpr hcheck]
  exact ⟨t, true, rfl, fun _ => ⟨hloc', g, hloc' ▸ hg, hp⟩, fun hfalse => absurd hfalse.symm Bool.false_ne_true⟩

/-- Once a first position is walked to, the call must go through grids only to its end: an answer false
comes with calls that were made. -/
theorem grids_of_allOrNothing {first : AOILocation} {rest : List AOILocation} (hscene : InScene c m p)
    (htarget : c.checkPos targetPos = true) (hpath : fpAlgorithm given (m.location p) targetPos = first :: rest)
    (hfirst : c.checkPos first = true) (h : AllOrNothing c given m p targetPos) :
    ∀ pos ∈ first :: rest, (c.getGridByPos pos).isSome := by
  obtain ⟨t, answer, hmove, -, hnothing⟩ := h
  rw [moveBy_accepted htarget, hpath] at hmove
  obtain ⟨u, hu, heq⟩ := Option.map_eq_some_iff.mp hmove
  obtain ⟨rfl, hanswer⟩ := Prod.mk.inj heq
  have hgrids := grids_of_exec hu
  cases answer with
  | true =>
    have hcheck := List.all_eq_true.mp hanswer
    rwa [List.takeWhile_eq_self_iff.mpr hcheck] at hgrids
  | false =>
    obtain ⟨v, hv, -, -, hcalls⟩ := exec_of_inScene hscene hgrids
    obtain rfl := Option.some.inj (hu.symm.trans hv)
    rw [(hnothing rfl).2.2, List.takeWhile_cons_of_pos hfirst, List.length_cons] at hcalls
    omega

/-- `Move` is all or nothing just when it meets the condition. -/
theorem move_all_or_nothing_iff (hscene : InScene c m p)
    (hlast : ∀ findPath ∈ given, (findPath (m.location p) targetPos).getLast? = some targetPos) :
    AllOrNothing c given m p targetPos ↔ moveOk c given m p targetPos := by
  cases htarget : c.checkPos targetPos with
  | false => exact iff_of_true (allOrNothing_of_unchanged (moveBy_refused htarget)) (.inl htarget)
  | true =>
    unfold moveOk
    rw [or_iff_right (by simp [htarget])]
    cases given with
    | none =>
      have hmove : moveBy c none m p targetPos = some (m, true) := by
        rw [moveBy_accepted htarget]
        rfl
      constructor
      · rintro ⟨t, answer, h, hall, -⟩
        obtain ⟨rfl, rfl⟩ := Prod.mk.inj (Option.some.inj (hmove.symm.trans h))
        exact (hall rfl).1
      · intro hloc
        obtain ⟨g, hg, hp⟩ := hscene
        exact ⟨m, true, hmove, fun _ => ⟨hloc, g, hloc ▸ hg, hp⟩, fun hfalse => absurd hfalse.symm Bool.false_ne_true⟩
    | some findPath =>
      have hlast := hlast findPath rfl
      have hpath : fpAlgorithm (some findPath) (m.location p) targetPos = findPath (m.location p) targetPos := rfl
      dsimp only
      constructor
      · intro h
        cases hfound : findPath (m.location p) targetPos with
        | nil => exact .inr fun pos hpos => absurd hpos List.not_mem_nil
        | cons first rest =>
          cases hfirst : c.checkPos first with
          | false => exact .inl ⟨first, rfl, hfirst⟩
          | true => exact .inr (grids_of_allOrNothing hscene htarget (hpath.trans hfound) hfirst h)
      · rintro (⟨first, hhead, hfirst⟩ | hgrids)
        · obtain ⟨rest, hfound⟩ := List.head?_eq_some_iff.mp hhead
          apply allOrNothing_of_unchanged
          rw [moveBy_accepted htarget, hpath, hfound, List.takeWhile_cons_of_neg (by simp [hfirst])]
          simp [exec, hfirst]
        · exact allOrNothing_of_grids hscene htarget hlast hgrids

end Loop

/-! ## Entities of a run -/

section Runs
variable {c : AOISence} {m t : AOIManager} {p q : ℕ} {pos : AOILocation}

/-- An entity stays in the grid of its location when its location stays and it is taken out of no grid. -/
theorem InScene.mono (h : InScene c m q) (hloc : t.location q = m.location q)
    (hkept : ∀ g, q ∈ m.entities g → q ∈ t.entities g) : InScene c t q := by
  obtain ⟨g, hg, hq⟩ := h
  exact ⟨g, hloc ▸ hg, hkept g hq⟩

theorem InScene.movePos (h : InScene c m q) (hstep : m.movePos c p pos = some t) : InScene c t q := by
  obtain ⟨g, hg, hgrids⟩ := Option.bind_eq_some_iff.mp hstep
  obtain ⟨g', hg', rfl⟩ := Option.map_eq_some_iff.mp hgrids
  rcases eq_or_ne q p with rfl | hne
  · obtain ⟨u, hu, hscene, -⟩ := movePos_of_inScene h (Option.isSome_of_mem hg')
    obtain rfl := Option.some.inj (hu.symm.trans hstep)
    exact hscene
  · split_ifs with heq
    · exact h.mono (AOIManager.setLocation_of_ne _ p q pos hne) fun _ hq => hq
    · have hloc : ((m.crossGrid c p pos g g').setLocation p pos).location q = m.location q :=
        AOIManager.setLocation_of_ne _ p q pos hne
      apply h.mono hloc
      intro i hq
      exact mem_cross.mpr (.inl ⟨hq, fun heq => absurd heq hne⟩)

theorem InScene.enter (h : q ≠ p → InScene c m q) {g : GridIdx} (hg : c.getGridByPos pos = some g) :
    InScene c (((m.setLocation p pos).insert p g).notifyAroundGrids c p (.enter p pos)) q := by
  have hmem (i : GridIdx) : q ∈ (((m.setLocation p pos).insert p g).notifyAroundGrids c p
      (.enter p pos)).entities i ↔ q ∈ m.entities i ∨ q = p ∧ i = g := AOIManager.mem_insert _ p q g i
  rcases eq_or_ne q p with rfl | hne
  · have hloc : (((m.setLocation q pos).insert q g).notifyAroundGrids c q (.enter q pos)).location q = pos :=
      m.setLocation_self q pos
    exact ⟨g, by rw [hloc, hg], (hmem g).mpr (.inr ⟨rfl, rfl⟩)⟩
  · have hloc : (((m.setLocation p pos).insert p g).notifyAroundGrids c p (.enter p pos)).location q =
        m.location q := m.setLocation_of_ne p q pos hne
    exact (h hne).mono hloc fun i hq => (hmem i).mpr (.inl hq)

theorem inScene_step {s u : AOIRun} {op : AOIOp} (h : ∀ q ∈ s.inside, InScene c s.manager q)
    (hstep : aoiStep c s op = some u) : ∀ q ∈ u.inside, InScene c u.manager q := by
  cases op with
  | enter p pos =>
    obtain ⟨m, hm, rfl⟩ := Option.map_eq_some_iff.mp hstep
    intro q hq
    cases hpos : c.checkPos pos with
    | false =>
      rw [AOIManager.enter, hpos] at hm
      obtain rfl := Option.some.inj hm
      simp only [hpos, Bool.false_eq_true, if_false] at hq
      exact h q hq
    | true =>
      rw [AOIManager.enter, if_pos hpos] at hm
      obtain ⟨g, hg, rfl⟩ := Option.map_eq_some_iff.mp hm
      simp only [hpos, if_true, Finset.mem_insert] at hq
      exact InScene.enter (fun hne => h q (hq.resolve_left hne)) hg
  | leave p =>
    obtain ⟨m, hm, rfl⟩ := Option.map_eq_some_iff.mp hstep
    intro q hq
    cases hpos : c.checkPos (s.manager.location p) with
    | false =>
      rw [AOIManager.leave, hpos] at hm
      obtain rfl := Option.some.inj hm
      simp only [hpos, Bool.false_eq_true, if_false] at hq
      exact h q hq
    | true =>
      rw [AOIManager.leave, if_pos hpos] at hm
      obtain ⟨g, -, rfl⟩ := Option.map_eq_some_iff.mp hm
      simp only [hpos, if_true, Finset.mem_erase] at hq
      have hloc : ((s.manager.erase p g).notifyAroundGrids c p (.leave p)).location q = s.manager.location q := rfl
      refine (h q hq.2).mono hloc fun i hqi => ?_
      exact (AOIManager.mem_erase _ p q g i).mpr ⟨hqi, fun heq => absurd heq hq.1⟩
  | move p targetPos locations =>
    obtain ⟨⟨m, answer⟩, hm, rfl⟩ := Option.map_eq_some_iff.mp hstep
    intro q hq
    cases hpos : c.checkPos targetPos with
    | false =>
      rw [AOIManager.move, hpos] at hm
      obtain ⟨rfl, -⟩ := Prod.mk.inj (Option.some.inj hm)
      exact h q hq
    | true =>
      rw [AOIManager.move, if_pos hpos, AOIManager.moveLoop_eq] at hm
      obtain ⟨t, ht, heq⟩ := Option.map_eq_some_iff.mp hm
      obtain ⟨rfl, -⟩ := Prod.mk.inj heq
      have hkept : ∀ m pos t, InScene c m q → m.movePos c p pos = some t → InScene c t q :=
        fun m pos t hscene hstep => hscene.movePos hstep
      exact invariant_of_exec hkept (h q hq) ht

/-- In every run the entities that have entered and not left are in the grids of their locations. -/
theorem inScene_of_run {location : ℕ → AOILocation} {ops : List AOIOp} {s : AOIRun}
    (hrun : exec (aoiStep c) (.start location) ops = some s) : ∀ q ∈ s.inside, InScene c s.manager q := by
  have hstart : ∀ q ∈ (AOIRun.start location).inside, InScene c (AOIRun.start location).manager q :=
    fun q hq => absurd hq (Finset.notMem_empty q)
  exact invariant_of_exec (fun _ _ _ h hstep => inScene_step h hstep) hstart hrun

end Runs

def entered : AOIManager :=
  ((AOIManager.new locationSample).enter senceSample 1 ⟨0, 0, 0⟩).get (by decide +kernel)

theorem entered_inScene : InScene senceSample entered 1 := ⟨(0, 0, 0), by decide +kernel, by decide +kernel⟩

/-- A path over one more position. -/
def pathOver (pos : AOILocation) : FindPathAlgorithm := fun _ desPos => [pos, desPos]

theorem move_all_or_nothing_sample :
    AllOrNothing senceSample (some (pathOver ⟨5, 0, 0⟩)) entered 1 ⟨5, 5, 0⟩ ∧
      AllOrNothing senceSample (some (pathOver ⟨20, 0, 0⟩)) entered 1 ⟨5, 5, 0⟩ := by
  refine ⟨(move_all_or_nothing_iff entered_inScene ?_).mpr (.inr (.inr ?_)),
    (move_all_or_nothing_iff entered_inScene ?_).mpr (.inr (.inl ?_))⟩
  · intro findPath hgiven
    obtain rfl := Option.mem_some.mp hgiven
    rfl
  · decide +kernel
  · intro findPath hgiven
    obtain rfl := Option.mem_some.mp hgiven
    rfl
  · exact ⟨⟨20, 0, 0⟩, rfl, by decide +kernel⟩

/-- Without an algorithm the call answers true and the entity stays where it is. With one that finds a
position outside the scene behind another position the answer is false and the entity has moved. -/
theorem not_move_all_or_nothing :
    ¬ AllOrNothing senceSample none entered 1 ⟨5, 5, 0⟩ ∧
      ¬ AllOrNothing senceSample (some fun _ desPos => [⟨5, 0, 0⟩, ⟨20, 0, 0⟩, desPos]) entered 1 ⟨5, 5, 0⟩ := by
  refine ⟨?_, ?_⟩
  · rintro ⟨t, answer, hmove, hall, -⟩
    obtain ⟨rfl, rfl⟩ := Prod.mk.inj (Option.some.inj hmove)
    exact absurd (hall rfl).1 (by decide +kernel)
  · rintro ⟨t, answer, hmove, -, hnothing⟩
    have hloc : (moveBy senceSample (some fun _ desPos => [⟨5, 0, 0⟩, ⟨20, 0, 0⟩, desPos]) entered 1
        ⟨5, 5, 0⟩).map (fun r => (r.1.location 1, r.2)) = some (⟨5, 0, 0⟩, false) := by decide +kernel
    rw [hmove, Option.map_some, Option.some.injEq, Prod.mk.injEq] at hloc
    obtain ⟨hloc, rfl⟩ := hloc
    have hkept := (hnothing rfl).1
    rw [hloc] at hkept
    exact absurd hkept (by decide +kernel)

end Chaos.AOIMove
