import Chaos.MineSweeper
import Mathlib.Data.Finset.Prod
import Mathlib.Order.Interval.Finset.Defs
import Mathlib.Data.Int.Interval

/-!
# Clicks on a mine field

An opening click opens cells without a mine that were unopened and changes nothing else, and it comes to an
end. From this the count of the open cells follows over all sequences of clicks, and with it when a game
counts as won.
-/
namespace Chaos.MineSweeperMgr

open GuardedRuns

/-! ## Opening cells -/

/-- `t` is `s` with some more cells opened, none of them a mine, and the counter raised by their number. -/
structure Opened (s t : MineSweeperMgr) : Prop where
  maxPoint : t.maxPoint = s.maxPoint
  maxMine : t.maxMine = s.maxMine
  minePoints : t.minePoints = s.minePoints
  cell (p : Point) : t.cell p = s.cell p ∨ ∃ info, s.cell p = some info ∧ info.status = .mssDefault ∧
    info.content ≠ landmine ∧ t.cell p = some { info with status := .mssOpen }
  count : t.mOpenPoint + (s.showing .mssOpen).card = s.mOpenPoint + (t.showing .mssOpen).card

variable {s t u : MineSweeperMgr} {p point : Point} {info : PointInfo}

theorem Opened.refl (s : MineSweeperMgr) : Opened s s := ⟨rfl, rfl, rfl, fun _ => Or.inl rfl, rfl⟩

theorem Opened.trans (h : Opened s t) (h' : Opened t u) : Opened s u where
  maxPoint := h'.maxPoint.trans h.maxPoint
  maxMine := h'.maxMine.trans h.maxMine
  minePoints := h'.minePoints.trans h.minePoints
  cell p := by
    rcases h'.cell p with hp | ⟨info, hp, hdef, hmine, hopen⟩
    · rw [hp]
      exact h.cell p
    · rcases h.cell p with hs | ⟨i, hs, hi, hm, ht⟩
      · exact Or.inr ⟨info, hs ▸ hp, hdef, hmine, hopen⟩
      · obtain rfl := Option.some.inj (ht ▸ hp)
        simp at hdef
  count := by
    have h1 := h.count
    have h2 := h'.count
    omega

/-- An open cell stays open. -/
theorem Opened.open_subset (h : Opened s t) : s.showing .mssOpen ⊆ t.showing .mssOpen := by
  intro p hp
  obtain ⟨i, hi, hopen⟩ := mem_showing.mp hp
  rcases h.cell p with ht | ⟨j, hj, hdef, -, -⟩
  · exact mem_showing.mpr ⟨i, ht.trans hi, hopen⟩
  · obtain rfl := Option.some.inj (hi ▸ hj)
    simp [hopen] at hdef

/-- No cell becomes unopened. -/
theorem Opened.default_subset (h : Opened s t) : t.showing .mssDefault ⊆ s.showing .mssDefault := by
  intro p hp
  obtain ⟨i, hi, hdef⟩ := mem_showing.mp hp
  rcases h.cell p with ht | ⟨j, hj, -, -, hopen⟩
  · exact mem_showing.mpr ⟨i, ht ▸ hi, hdef⟩
  · obtain rfl := Option.some.inj (hi ▸ hopen)
    simp at hdef

theorem Opened.mem_keys (h : Opened s t) : p ∈ t.mineSweeperMap.keys ↔ p ∈ s.mineSweeperMap.keys := by
  rw [MineSweeperMgr.mem_keys, MineSweeperMgr.mem_keys]
  rcases h.cell p with ht | ⟨i, hs, -, -, ht⟩
  · rw [ht]
  · rw [ht, hs]
    simp

theorem showing_open_openCell :
    (s.openCell point info).showing .mssOpen = insert point (s.showing .mssOpen) := by
  ext p
  rw [Finset.mem_insert, mem_showing, mem_showing]
  by_cases hp : p = point
  · subst hp
    simp
  · rw [cell_openCell_of_ne hp]
    simp [hp]

theorem showing_default_openCell :
    (s.openCell point info).showing .mssDefault = (s.showing .mssDefault).erase point := by
  ext p
  rw [Finset.mem_erase, mem_showing, mem_showing]
  by_cases hp : p = point
  · subst hp
    simp
  · rw [cell_openCell_of_ne hp]
    simp [hp]

theorem opened_openCell (hcell : s.cell point = some info) (hdef : info.status = .mssDefault)
    (hmine : info.content ≠ landmine) : Opened s (s.openCell point info) where
  maxPoint := rfl
  maxMine := rfl
  minePoints := rfl
  cell p := by
    by_cases hp : p = point
    · subst hp
      exact Or.inr ⟨info, hcell, hdef, hmine, cell_openCell_self⟩
    · exact Or.inl (cell_openCell_of_ne hp)
  count := by
    have hnew : point ∉ s.showing .mssOpen := by
      intro h
      obtain ⟨i, hi, hopen⟩ := mem_showing.mp h
      obtain rfl := Option.some.inj (hcell ▸ hi)
      simp [hdef] at hopen
    rw [showing_open_openCell, Finset.card_insert_of_notMem hnew]
    change s.mOpenPoint + 1 + _ = _
    omega

/-- The recursion of `OpenPoint` is no deeper than there are unopened cells. -/
theorem openPoint_opened (fuel : ℕ) (hfuel : (s.showing .mssDefault).card < fuel) :
    ∃ t, openPoint fuel s point = some t ∧ Opened s t ∧ ∀ info, s.cell point = some info →
      info.status = .mssDefault → info.content ≠ landmine → point ∈ t.showing .mssOpen := by
  induction fuel generalizing s point with
  | zero => omega
  | succ fuel ih =>
    cases hcell : s.cell point with
    | none => exact ⟨s, by simp [openPoint, hcell], Opened.refl s, by simp⟩
    | some info =>
      by_cases hskip : info.content = landmine ∨ info.status ≠ .mssDefault
      · refine ⟨s, by simp [openPoint, hcell, hskip], Opened.refl s, ?_⟩
        intro i hi hdef hmine
        obtain rfl := Option.some.inj hi
        exact absurd hskip (not_or.mpr ⟨hmine, not_not.mpr hdef⟩)
      · obtain ⟨hmine, hdef⟩ := not_or.mp hskip
        have hdef := not_not.mp hdef
        have hopened := opened_openCell hcell hdef hmine
        have hself : point ∈ (s.openCell point info).showing .mssOpen := by simp [showing_open_openCell]
        by_cases hzero : info.content = 0
        · have hleft : ((s.openCell point info).showing .mssDefault).card < fuel := by
            have hmem : point ∈ s.showing .mssDefault := mem_showing.mpr ⟨info, hcell, hdef⟩
            have hpos := Finset.card_pos.mpr ⟨point, hmem⟩
            rw [showing_default_openCell, Finset.card_erase_of_mem hmem]
            omega
          have hround : ∀ v p, Opened (s.openCell point info) v → True →
              ∃ w, openPoint fuel v p = some w ∧ Opened (s.openCell point info) w := by
            intro v p hv _
            obtain ⟨w, hw, hvw, -⟩ := @ih v p ((Finset.card_le_card hv.default_subset).trans_lt hleft)
            exact ⟨w, hw, hv.trans hvw⟩
          obtain ⟨t, ht, hst⟩ := exec_of_guarded hround (Opened.refl _)
            (guarded_of_forall (fun _ _ => trivial) _ (getPointAroundMine s.maxPoint point))
          refine ⟨t, ?_, hopened.trans hst, fun _ _ _ _ => hst.open_subset hself⟩
          simp only [openPoint, hcell, if_neg hskip, if_pos hzero, ht]
        · exact ⟨s.openCell point info, by simp [openPoint, hcell, hskip, hzero], hopened,
            fun _ _ _ _ => hself⟩

/-! ## One click -/

/-- The click finds a cell that is neither open nor flagged. -/
def Live (s : MineSweeperMgr) (c : Click) (info : PointInfo) : Prop :=
  s.cell c.point = some info ∧ info.status = .mssDefault

/-- The return value of a click that opened cells. -/
def wonValue (t : MineSweeperMgr) : ℤ :=
  if (t.maxPoint.x + 1) * (t.maxPoint.y + 1) - t.maxMine ≤ t.mOpenPoint then 1 else 0

/-- What a click may do, with its return value. -/
inductive ClickPass (s : MineSweeperMgr) (c : Click) : MineSweeperMgr → ℤ → Prop where
  | refused (h : ∀ info, ¬ s.Live c info) : ClickPass s c s 0
  | flagged (info : PointInfo) (h : s.Live c info) (hflag : c.nAction = paFlag) :
      ClickPass s c (s.setStatus c.point info .mssFlag) 0
  | mine (info : PointInfo) (h : s.Live c info) (hopening : c.nAction ≠ paFlag)
      (hmine : info.content = landmine) : ClickPass s c s (-2)
  | opened (info : PointInfo) (h : s.Live c info) (hopening : c.nAction ≠ paFlag)
      (hmine : info.content ≠ landmine) (t : MineSweeperMgr) (ht : Opened s t)
      (hself : c.point ∈ t.showing .mssOpen) : ClickPass s c t t.wonValue

/-- Every click returns. -/
theorem click_pass (s : MineSweeperMgr) (c : Click) :
    ∃ t r, s.onClickPoint c.point c.nAction = some (t, r) ∧ ClickPass s c t r := by
  cases hcell : s.cell c.point with
  | none => exact ⟨s, 0, by simp [onClickPoint, hcell], .refused (by simp [Live, hcell])⟩
  | some info =>
    by_cases hdef : info.status = .mssDefault
    · have hlive : s.Live c info := ⟨hcell, hdef⟩
      by_cases hflag : c.nAction = paFlag
      · exact ⟨_, 0, by simp [onClickPoint, hcell, hdef, hflag], .flagged info hlive hflag⟩
      · by_cases hmine : info.content = landmine
        · exact ⟨s, -2, by simp [onClickPoint, hcell, hdef, hflag, hmine], .mine info hlive hflag hmine⟩
        · have hfuel : (s.showing .mssDefault).card < s.mineSweeperMap.keys.card + 1 :=
            Nat.lt_succ_of_le (Finset.card_filter_le _ _)
          obtain ⟨t, ht, hopened, hself⟩ := @openPoint_opened s c.point _ hfuel
          refine ⟨t, t.wonValue, ?_, .opened info hlive hflag hmine t hopened (hself info hcell hdef hmine)⟩
          simp [onClickPoint, hcell, hdef, hflag, hmine, ht, wonValue]
    · refine ⟨s, 0, by simp [onClickPoint, hcell, hdef], .refused ?_⟩
      intro i hi
      obtain rfl := Option.some.inj (hcell ▸ hi.1)
      exact hdef hi.2

theorem pass_of_click {s t : MineSweeperMgr} {c : Click} {r : ℤ}
    (h : s.onClickPoint c.point c.nAction = some (t, r)) : ClickPass s c t r := by
  obtain ⟨t', r', h', hpass⟩ := click_pass s c
  obtain ⟨rfl, rfl⟩ := Prod.mk.inj (Option.some.inj (h ▸ h'))
  exact hpass

/-! ## Runs of clicks on a new board -/

/-- The cells with a mine. -/
def mines (s : MineSweeperMgr) : Finset Point :=
  s.mineSweeperMap.keys.filter fun p => (s.cell p).map PointInfo.content = some landmine

@[simp] theorem mem_mines : p ∈ s.mines ↔ ∃ i, s.cell p = some i ∧ i.content = landmine := by
  simp only [mines, Finset.mem_filter, mem_keys, Option.map_eq_some_iff]
  constructor
  · intro h
    exact h.2
  · intro h
    obtain ⟨i, hi, hm⟩ := h
    exact ⟨⟨i, hi⟩, i, hi, hm⟩

/-- A board as `CreateMap` means it: a cell at every point and `maxMine` of them mines, nothing opened yet.
What the other cells count makes no difference to the clicks below. -/
structure NewBoard (s : MineSweeperMgr) : Prop where
  cells (p : Point) :
    p ∈ s.mineSweeperMap.keys ↔ (0 ≤ p.x ∧ p.x ≤ s.maxPoint.x) ∧ 0 ≤ p.y ∧ p.y ≤ s.maxPoint.y
  mines : (s.mines.card : ℤ) = s.maxMine
  unopened (p : Point) (info : PointInfo) (h : s.cell p = some info) : info.status = .mssDefault
  openPoint : s.mOpenPoint = 0

/-- `t` is the board `s` after some clicks. -/
structure Playing (s t : MineSweeperMgr) : Prop where
  maxPoint : t.maxPoint = s.maxPoint
  maxMine : t.maxMine = s.maxMine
  keys : t.mineSweeperMap.keys = s.mineSweeperMap.keys
  mines : t.mines = s.mines
  count : t.mOpenPoint = (t.showing .mssOpen).card
  safe (p : Point) (h : p ∈ s.mines) : p ∉ t.showing .mssOpen

theorem NewBoard.playing (h : NewBoard s) : Playing s s := by
  have hnone : s.showing .mssOpen = ∅ := by
    apply Finset.eq_empty_of_forall_notMem
    intro p hp
    obtain ⟨i, hi, hopen⟩ := mem_showing.mp hp
    simp [h.unopened p i hi] at hopen
  refine ⟨rfl, rfl, rfl, rfl, ?_, fun p _ => by simp [hnone]⟩
  rw [hnone, h.openPoint]
  rfl

/-- Cells that keep their contents hold the same mines. -/
theorem mines_congr (h : ∀ p, (t.cell p).map PointInfo.content = (s.cell p).map PointInfo.content) :
    t.mines = s.mines := by
  ext p
  have hp := h p
  simp only [mem_mines]
  cases ht : t.cell p with
  | none => simp_all
  | some i => cases hs : s.cell p <;> simp_all

theorem Opened.mines (h : Opened s t) : t.mines = s.mines := by
  apply mines_congr
  intro p
  rcases h.cell p with hp | ⟨i, hi, -, -, hp⟩
  · rw [hp]
  · rw [hp, hi]
    rfl

theorem Opened.keys (h : Opened s t) : t.mineSweeperMap.keys = s.mineSweeperMap.keys :=
  Finset.ext fun _ => h.mem_keys

/-- A cell that opens was no mine. -/
theorem Opened.safe (h : Opened s t) (hmine : p ∈ s.mines) (hopen : p ∈ t.showing .mssOpen) :
    p ∈ s.showing .mssOpen := by
  obtain ⟨i, hi, hstatus⟩ := mem_showing.mp hopen
  obtain ⟨j, hj, hcontent⟩ := mem_mines.mp hmine
  rcases h.cell p with hp | ⟨k, hk, -, hno, -⟩
  · exact mem_showing.mpr ⟨i, hp ▸ hi, hstatus⟩
  · obtain rfl := Option.some.inj (hj ▸ hk)
    exact absurd hcontent hno

/-- Flagging an unopened cell. -/
theorem setStatus_flag {c : Click} (h : s.Live c info) :
    let t := s.setStatus c.point info .mssFlag
    t.mineSweeperMap.keys = s.mineSweeperMap.keys ∧ t.mines = s.mines ∧
      t.showing .mssOpen = s.showing .mssOpen := by
  have hcell (p : Point) : p ≠ c.point →
      (s.setStatus c.point info .mssFlag).cell p = s.cell p := cell_setStatus_of_ne
  refine ⟨?_, mines_congr ?_, ?_⟩
  · ext p
    rw [mem_keys, mem_keys]
    by_cases hp : p = c.point
    · rw [hp, cell_setStatus_self, h.1]
      simp
    · rw [hcell p hp]
  · intro p
    by_cases hp : p = c.point
    · rw [hp, cell_setStatus_self, h.1]
      rfl
    · rw [hcell p hp]
  · ext p
    rw [mem_showing, mem_showing]
    by_cases hp : p = c.point
    · rw [hp, cell_setStatus_self, h.1]
      simp [h.2]
    · rw [hcell p hp]

theorem Playing.pass {c : Click} {r : ℤ} (h : Playing s t) (hpass : ClickPass t c u r) : Playing s u := by
  cases hpass with
  | refused _ => exact h
  | mine _ _ _ _ => exact h
  | flagged info hlive _ =>
    obtain ⟨hkeys, hmines, hopen⟩ := setStatus_flag hlive
    refine ⟨h.maxPoint, h.maxMine, hkeys.trans h.keys, hmines.trans h.mines, ?_, ?_⟩
    · rw [hopen]
      exact h.count
    · rw [hopen]
      exact h.safe
  | opened info hlive _ _ _ hopened _ =>
    refine ⟨hopened.maxPoint.trans h.maxPoint, hopened.maxMine.trans h.maxMine,
      hopened.keys.trans h.keys, hopened.mines.trans h.mines, ?_, ?_⟩
    · have hcount := hopened.count
      have hbefore := h.count
      omega
    · intro p hp hopen
      exact h.safe p hp (hopened.safe (h.mines ▸ hp) hopen)

theorem playing_run (hs : NewBoard s) (clicks : List Click) :
    ∃ u, exec click s clicks = some u ∧ Playing s u := by
  have hstep : ∀ t c, Playing s t → True → ∃ u, click t c = some u ∧ Playing s u := by
    intro t c ht _
    obtain ⟨u, r, hu, hpass⟩ := click_pass t c
    exact ⟨u, by simp [click, hu], ht.pass hpass⟩
  exact exec_of_guarded hstep hs.playing (guarded_of_forall (fun _ _ => trivial) s clicks)

/-! ## The end of a game -/

/-- The number of cells of a board. -/
theorem NewBoard.card_keys (h : NewBoard s) (hcell : p ∈ s.mineSweeperMap.keys) :
    (s.mineSweeperMap.keys.card : ℤ) = (s.maxPoint.x + 1) * (s.maxPoint.y + 1) := by
  have hkeys : s.mineSweeperMap.keys =
      (Finset.Icc 0 s.maxPoint.x ×ˢ Finset.Icc 0 s.maxPoint.y).image fun q => Point.mk q.1 q.2 := by
    ext q
    rw [h.cells, Finset.mem_image]
    simp only [Finset.mem_product, Finset.mem_Icc]
    constructor
    · intro hq
      exact ⟨(q.x, q.y), hq, rfl⟩
    · intro hq
      obtain ⟨r, hr, rfl⟩ := hq
      exact hr
  have hinj : Function.Injective fun q : ℤ × ℤ => Point.mk q.1 q.2 := by
    intro a b hab
    exact Prod.ext (congrArg Point.x hab) (congrArg Point.y hab)
  obtain ⟨⟨hx, hx'⟩, hy, hy'⟩ := (h.cells p).mp hcell
  rw [hkeys, Finset.card_image_of_injective _ hinj, Finset.card_product, Int.card_Icc, Int.card_Icc]
  push_cast
  rw [Int.toNat_of_nonneg (by omega), Int.toNat_of_nonneg (by omega), sub_zero, sub_zero]

/-- The comparison of the counter is a comparison of the open cells with the cells that are no mine. -/
theorem Playing.won (hs : NewBoard s) (h : Playing s t) (hcell : p ∈ s.mineSweeperMap.keys) :
    t.wonValue = 1 ↔ ∀ q ∈ s.mineSweeperMap.keys, q ∉ s.mines → q ∈ t.showing .mssOpen := by
  have hsub : t.showing .mssOpen ⊆ s.mineSweeperMap.keys \ s.mines := by
    intro q hq
    refine Finset.mem_sdiff.mpr ⟨h.keys ▸ Finset.filter_subset _ _ hq, ?_⟩
    intro hmine
    exact h.safe q hmine hq
  have hmines : s.mines ⊆ s.mineSweeperMap.keys := Finset.filter_subset _ _
  have hcard : ((s.mineSweeperMap.keys \ s.mines).card : ℤ) =
      (s.maxPoint.x + 1) * (s.maxPoint.y + 1) - s.maxMine := by
    rw [Finset.card_sdiff_of_subset hmines, Nat.cast_sub (Finset.card_le_card hmines), hs.card_keys hcell,
      hs.mines]
  have hvalue : t.wonValue = 1 ↔ (s.mineSweeperMap.keys \ s.mines).card ≤ (t.showing .mssOpen).card := by
    rw [wonValue, h.maxPoint, h.maxMine, h.count, ← hcard]
    simp
  rw [hvalue]
  constructor
  · intro hle q hq hno
    rw [Finset.eq_of_subset_of_card_le hsub hle]
    exact Finset.mem_sdiff.mpr ⟨hq, hno⟩
  · intro hall
    apply Finset.card_le_card
    intro q hq
    obtain ⟨hkey, hno⟩ := Finset.mem_sdiff.mp hq
    exact hall q hkey hno

/-- After any clicks the counter is the number of open cells and no mine is open; a click wins exactly when
it opens a live cell without a mine and leaves every cell without a mine open. -/
theorem win_detected_exactly (s : MineSweeperMgr) (hs : NewBoard s) (clicks : List Click) (c : Click) :
    ∃ u v r, exec click s clicks = some u ∧ u.onClickPoint c.point c.nAction = some (v, r) ∧
      v.mOpenPoint = (v.showing .mssOpen).card ∧ (∀ p ∈ s.mines, p ∉ v.showing .mssOpen) ∧
      (r = 1 ↔ (c.nAction ≠ paFlag ∧ c.point ∈ u.showing .mssDefault ∧ c.point ∉ s.mines) ∧
        ∀ p ∈ s.mineSweeperMap.keys, p ∉ s.mines → p ∈ v.showing .mssOpen) := by
  obtain ⟨u, hu, hplay⟩ := playing_run hs clicks
  obtain ⟨v, r, hv, hpass⟩ := click_pass u c
  have hnext := hplay.pass hpass
  refine ⟨u, v, r, hu, hv, hnext.count, hnext.safe, ?_⟩
  cases hpass with
  | refused hdead =>
    have hno : c.point ∉ u.showing .mssDefault := by
      intro hmem
      obtain ⟨i, hi⟩ := mem_showing.mp hmem
      exact hdead i hi
    simp [hno]
  | flagged info hlive hflag => simp [hflag]
  | mine info hlive hopening hmine =>
    have hmem : c.point ∈ s.mines := hplay.mines ▸ mem_mines.mpr ⟨info, hlive.1, hmine⟩
    simp [hmem]
  | opened info hlive hopening hmine v hopened hself =>
    have hlive' : c.point ∈ u.showing .mssDefault := mem_showing.mpr ⟨info, hlive⟩
    have hkey : c.point ∈ s.mineSweeperMap.keys := hplay.keys ▸ Finset.filter_subset _ _ hlive'
    have hno : c.point ∉ s.mines := by
      intro hmem
      obtain ⟨i, hi, hcontent⟩ := mem_mines.mp (hplay.mines ▸ hmem)
      obtain rfl := Option.some.inj (hlive.1 ▸ hi)
      exact hmine hcontent
    rw [hnext.won hs hkey]
    exact ⟨fun hall => ⟨⟨hopening, hlive', hno⟩, hall⟩, fun h => h.2⟩

/-- Two cells, the second one a mine. -/
def smallBoard : MineSweeperMgr where
  maxPoint := ⟨1, 0⟩
  maxMine := 1
  mineSweeperMap := (Finmap.singleton ⟨0, 0⟩ ⟨.mssDefault, 1⟩).insert ⟨1, 0⟩ ⟨.mssDefault, landmine⟩
  minePoints := {⟨1, 0⟩}
  mOpenPoint := 0

theorem newBoard_smallBoard : NewBoard smallBoard := by
  refine ⟨?_, by decide +kernel, ?_, rfl⟩
  · intro p
    rw [Finmap.mem_keys, smallBoard, Finmap.mem_insert, Finmap.mem_singleton, Point.ext_iff, Point.ext_iff]
    simp only
    omega
  · intro p info h
    by_cases hp : p = ⟨1, 0⟩
    · subst hp
      obtain rfl := Option.some.inj h
      rfl
    · rw [cell, smallBoard, Finmap.lookup_insert_of_ne _ hp] at h
      have hmem := Finmap.mem_singleton _ _ _ |>.mp (Finmap.mem_of_lookup_eq_some h)
      subst hmem
      obtain rfl := Option.some.inj h
      rfl

theorem win_detected_exactly_smallBoard :
    ∃ u v r, exec click smallBoard [⟨⟨1, 0⟩, paFlag⟩] = some u ∧ u.onClickPoint ⟨0, 0⟩ 1 = some (v, r) ∧
      v.mOpenPoint = (v.showing .mssOpen).card ∧ (∀ p ∈ smallBoard.mines, p ∉ v.showing .mssOpen) ∧
      (r = 1 ↔ ((1 : ℤ) ≠ paFlag ∧ ⟨0, 0⟩ ∈ u.showing .mssDefault ∧ ⟨0, 0⟩ ∉ smallBoard.mines) ∧
        ∀ p ∈ smallBoard.mineSweeperMap.keys, p ∉ smallBoard.mines → p ∈ v.showing .mssOpen) :=
  win_detected_exactly smallBoard newBoard_smallBoard [⟨⟨1, 0⟩, paFlag⟩] ⟨⟨0, 0⟩, 1⟩

/-! ## A lost game -/

/-- Each click made after one that `loses` meets `P`, in the state it finds. -/
def AfterLoss (loses P : MineSweeperMgr → Click → Prop) : Prop → MineSweeperMgr → List Click → Prop
  | _, _, [] => True
  | lost, s, c :: cs =>
    (lost → P s c) ∧ ∀ t, s.click c = some t → AfterLoss loses P (lost ∨ loses s c) t cs

theorem afterLoss_congr {loses loses' P P' : MineSweeperMgr → Click → Prop}
    (hloses : ∀ s c, loses s c ↔ loses' s c) (hP : ∀ s c, P s c ↔ P' s c) (lost : Prop)
    (s : MineSweeperMgr) (clicks : List Click) :
    AfterLoss loses P lost s clicks ↔ AfterLoss loses' P' lost s clicks := by
  induction clicks generalizing lost s with
  | nil => exact Iff.rfl
  | cons c cs ih =>
    simp only [AfterLoss, hP, hloses]
    exact and_congr_right fun _ => forall₂_congr fun t _ => ih _ t

/-- The call returns -2. -/
def ReturnsLost (s : MineSweeperMgr) (c : Click) : Prop :=
  ∃ t, s.onClickPoint c.point c.nAction = some (t, -2)

/-- The call changes no status and no count, and does not win. -/
def Kept (s : MineSweeperMgr) (c : Click) : Prop :=
  ∀ t r, s.onClickPoint c.point c.nAction = some (t, r) →
    (∀ p, (t.cell p).map PointInfo.status = (s.cell p).map PointInfo.status) ∧
      t.mOpenPoint = s.mOpenPoint ∧ r ≠ 1

/-- An opening click on an unopened mine. -/
def OpensMine (s : MineSweeperMgr) (c : Click) : Prop :=
  ∃ info, s.Live c info ∧ c.nAction ≠ paFlag ∧ info.content = landmine

/-- The click finds no unopened cell, or it opens a mine. -/
def Idle (s : MineSweeperMgr) (c : Click) : Prop := (∃ info, s.Live c info) → OpensMine s c

theorem Live.unique {c : Click} {i j : PointInfo} (hi : s.Live c i) (hj : s.Live c j) : i = j :=
  Option.some.inj (hi.1.symm.trans hj.1)

theorem returnsLost_iff (s : MineSweeperMgr) (c : Click) : ReturnsLost s c ↔ OpensMine s c := by
  constructor
  · intro h
    obtain ⟨t, ht⟩ := h
    generalize hr : (-2 : ℤ) = r at ht
    cases pass_of_click ht with
    | refused _ => simp at hr
    | flagged _ _ _ => simp at hr
    | mine info hlive hopening hmine => exact ⟨info, hlive, hopening, hmine⟩
    | opened _ _ _ _ _ _ _ =>
      rw [wonValue] at hr
      split at hr <;> omega
  · intro h
    obtain ⟨info, hlive, hopening, hmine⟩ := h
    obtain ⟨hcell, hdef⟩ := hlive
    exact ⟨s, by simp [onClickPoint, hcell, hdef, hopening, hmine]⟩

theorem kept_iff (s : MineSweeperMgr) (c : Click) : Kept s c ↔ Idle s c := by
  obtain ⟨t, r, ht, hpass⟩ := click_pass s c
  have hkept : Kept s c ↔ (∀ p, (t.cell p).map PointInfo.status = (s.cell p).map PointInfo.status) ∧
      t.mOpenPoint = s.mOpenPoint ∧ r ≠ 1 := by
    simp [Kept, ht]
  rw [hkept]
  cases hpass with
  | refused hdead =>
    have hidle : Idle s c := fun h => absurd h.choose_spec (hdead _)
    simp [hidle]
  | mine info hlive hopening hmine =>
    have hidle : Idle s c := fun _ => ⟨info, hlive, hopening, hmine⟩
    simp [hidle]
  | flagged info hlive hflag =>
    -- the flag itself is the change
    refine iff_of_false ?_ ?_
    · intro h
      have hp := h.1 c.point
      rw [cell_setStatus_self, hlive.1] at hp
      simp [hlive.2] at hp
    · intro h
      obtain ⟨_, _, hopening, _⟩ := h ⟨info, hlive⟩
      exact hopening hflag
  | opened info hlive hopening hmine t hopened hself =>
    refine iff_of_false ?_ ?_
    · intro h
      obtain ⟨i, hi, hopen⟩ := mem_showing.mp hself
      have hp := h.1 c.point
      rw [hi, hlive.1] at hp
      simp [hlive.2, hopen] at hp
    · intro h
      obtain ⟨j, hj, _, hcontent⟩ := h ⟨info, hlive⟩
      exact hmine (hlive.unique hj ▸ hcontent)

/-- Nothing remembers that a mine was opened: a game stays lost in exactly those sequences of clicks where
each later click is idle. -/
theorem lost_game_stays_lost_iff (s : MineSweeperMgr) (clicks : List Click) :
    AfterLoss ReturnsLost Kept False s clicks ↔ AfterLoss OpensMine Idle False s clicks :=
  afterLoss_congr returnsLost_iff kept_iff False s clicks

/-- After the mine the other cell is opened and wins. -/
theorem not_lost_game_stays_lost :
    ¬ ∀ (s : MineSweeperMgr) (clicks : List Click), AfterLoss ReturnsLost Kept False s clicks := by
  intro h
  have hlost := h smallBoard [⟨⟨1, 0⟩, 1⟩, ⟨⟨0, 0⟩, 1⟩]
  have hmine : smallBoard.onClickPoint ⟨1, 0⟩ 1 = some (smallBoard, -2) := rfl
  have hkept := (hlost.2 smallBoard (by simp [click, hmine])).1 (Or.inr ⟨smallBoard, hmine⟩)
  obtain ⟨_, _, hwon⟩ := hkept (smallBoard.openCell ⟨0, 0⟩ ⟨.mssDefault, 1⟩) 1 rfl
  exact hwon rfl

end Chaos.MineSweeperMgr
